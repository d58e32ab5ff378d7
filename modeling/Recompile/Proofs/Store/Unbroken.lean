import Recompile.Proofs.Changes
import Recompile.Proofs.Store.Mutators
import Recompile.Proofs.Store.RoundTrip

/-!
# Stores without line feeds

Every line of a table has an arrow as long as no line feed is in what was written, so that the table
can be read again, though perhaps not as it was. What is read has no line feeds, and recording facts
without line feeds brings none in. The digests of sources are always read as they were written.
-/

namespace Recompile

namespace Text

/-- A text with a separator in it is cut. -/
theorem exists_cutFirstOf {separator text : List Char} (h : separator <:+: text) :
    ∃ cut, cutFirstOf separator text = some cut := by
  induction text with
  | nil =>
    obtain rfl := List.infix_nil.1 h
    exact ⟨_, rfl⟩
  | cons c text ih =>
    rw [cutFirstOf]
    cases hafter : afterOf separator (c :: text) with
    | some rest => exact ⟨_, rfl⟩
    | none =>
      have hrest := (List.infix_cons_iff.1 h).resolve_left (afterOf_eq_none_iff.1 hafter)
      obtain ⟨cut, hcut⟩ := ih hrest
      exact ⟨_, by rw [hcut]; rfl⟩

/-- The text stands in one line. -/
def Unbroken (text : String) : Prop := '\n' ∉ text.toList

instance (text : String) : Decidable (Unbroken text) :=
  inferInstanceAs (Decidable ('\n' ∉ text.toList))

theorem Unbroken.append {a b : String} (ha : Unbroken a) (hb : Unbroken b) : Unbroken (a ++ b) := by
  simp only [Unbroken, String.toList_append, List.mem_append, not_or]
  exact ⟨ha, hb⟩

end Text

open Text

theorem Path.unbroken_join {p more : Path} (hp : Unbroken p.text) (hmore : Unbroken more.text) :
    Unbroken (p.join more).text := by
  unfold Path.join Path.push
  split_ifs
  · exact hmore
  · exact hp.append hmore
  · exact (hp.append (by decide)).append hmore

/-- No name in the fact has a line feed. -/
structure ClassFact.Unbroken (fact : ClassFact) : Prop where
  className : Text.Unbroken fact.className
  source : Text.Unbroken fact.source.text
  dependencies : ∀ dependency ∈ fact.dependencies, Text.Unbroken dependency

namespace Store

variable {cut : Cut} {rows : List (String × String)} {s : Store} {w w' : World} {directory : Path}

/-! ## Reading rows -/

theorem exists_row (cut : Cut) (key value : String) :
    ∃ row, cut.row? (key ++ arrow ++ value) = some row := by
  have hinfix : arrow.toList <:+: (key ++ arrow ++ value).toList :=
    ⟨key.toList, value.toList, by simp⟩
  cases cut with
  | first =>
    obtain ⟨cut, hcut⟩ := exists_cutFirstOf hinfix
    exact ⟨_, by rw [Cut.row?, cutFirst?, hcut]; rfl⟩
  | last =>
    obtain ⟨cut, hcut⟩ := exists_cutFirstOf (List.reverse_infix.2 hinfix)
    exact ⟨_, by rw [Cut.row?, cutLast?, cutLastOf, hcut]; rfl⟩

theorem exists_rowsOfLines (number : Nat) :
    ∃ rows', rowsOfLines cut number (rows.map fun row => row.1 ++ arrow ++ row.2) = .ok rows' := by
  induction rows generalizing number with
  | nil => exact ⟨[], rfl⟩
  | cons row rest ih =>
    have hline : row.1 ++ arrow ++ row.2 ≠ "" := by
      simp [arrow]
    obtain ⟨first, hfirst⟩ := exists_row cut row.1 row.2
    obtain ⟨more, hmore⟩ := ih (number + 1)
    refine ⟨first :: more, ?_⟩
    rw [List.map_cons, rowsOfLines, if_neg hline, hfirst]
    dsimp only
    rw [hmore]
    rfl

/-- Rows without line feeds can be read again. -/
theorem exists_readRows (cut : Cut) (h : ∀ row ∈ rows, Unbroken row.1 ∧ Unbroken row.2) :
    ∃ rows', readRows cut (writeRows rows) = .ok rows' := by
  rw [readRows, lines_writeRows h]
  exact exists_rowsOfLines 1

/-- The digest of a source without line feeds is read back as it was written. -/
theorem readsBack_digest {source : String} (h : Unbroken source) (bytes : ByteArray) :
    ReadsBack .last (source, Sha256.hex bytes) := by
  refine ⟨h, Sha256.not_mem_hex (by simp), fun hlast => ?_, fun hoccurs => ?_⟩
  · exact Sha256.not_mem_hex (by simp) (List.mem_of_getLast? hlast)
  · have hdash : '-' ∈ (Sha256.hex bytes).toList := hoccurs.subset (by decide : '-' ∈ arrow.toList)
    exact Sha256.not_mem_hex (by simp) hdash

/-- Digests of sources without line feeds are read back as they were written. -/
theorem readsBack_of_isDigest {d : Disk} {cwd : Location} {sources : List String} {table : Table}
    (h : Changes.IsDigest d cwd sources table) (hsources : ∀ source ∈ sources, Unbroken source) :
    ∀ row ∈ table.toList, ReadsBack .last row := by
  rintro ⟨source, digest⟩ hrow
  rw [mem_toList_iff] at hrow
  have hmem : source ∈ sources := by
    by_contra hnot
    rw [h.other source hnot] at hrow
    cases hrow
  obtain ⟨bytes, -, hdigest⟩ := h.read source hmem
  obtain rfl : digest = Sha256.hex bytes := Option.some.inj (hrow.symm.trans hdigest)
  exact readsBack_digest (hsources source hmem) bytes

/-! ## Stores -/

/-- No line feed is in a class, in its source, or in an edge. -/
structure Unbroken (s : Store) : Prop where
  classes : ∀ className source : String, s.classes[className]? = some source →
    Text.Unbroken className ∧ Text.Unbroken source
  edges : ∀ dependency dependent : String, s.HasEdge dependency dependent →
    Text.Unbroken dependency ∧ Text.Unbroken dependent

theorem unbroken_new (directory : Path) : (new directory).Unbroken :=
  ⟨fun _ _ h => by simp [new] at h, fun _ _ h => absurd h (by simp [HasEdge, new])⟩

theorem Unbroken.deleteClasses (h : s.Unbroken) (sound : s.dependencies.Sound) (gone : Names) :
    (s.deleteClasses gone).Unbroken := by
  refine ⟨fun className source hclass => h.classes className source ?_,
    fun dependency dependent hedge => h.edges dependency dependent ?_⟩
  · rw [getElem?_classes_deleteClasses] at hclass
    split_ifs at hclass
    exact hclass
  · exact ((hasEdge_deleteClasses sound gone dependency dependent).1 hedge).1

theorem Unbroken.deleteSources (h : s.Unbroken) (gone : Names) : (s.deleteSources gone).Unbroken :=
  ⟨h.classes, h.edges⟩

theorem Unbroken.addSources (h : s.Unbroken) (digests : Table) : (s.addSources digests).Unbroken :=
  ⟨h.classes, h.edges⟩

theorem Unbroken.record {sourceTree : Path} {facts : List ClassFact} (h : s.Unbroken)
    (sound : s.dependencies.Sound) (htree : Text.Unbroken sourceTree.text)
    (hfacts : ∀ fact ∈ facts, fact.Unbroken) : (s.record sourceTree facts).Unbroken := by
  refine ⟨fun className source hclass => ?_, fun dependency dependent hedge => ?_⟩
  · rw [getElem?_classes_record] at hclass
    cases hfind : facts.reverse.find? fun fact => fact.className = className with
    | none =>
      rw [hfind] at hclass
      exact h.classes className source hclass
    | some fact =>
      rw [hfind] at hclass
      cases hclass
      have hfact := hfacts fact (List.mem_reverse.1 (List.mem_of_find?_eq_some hfind))
      have hname : fact.className = className := by simpa using List.find?_some hfind
      exact ⟨hname ▸ hfact.className, Path.unbroken_join htree hfact.source⟩
  · rcases (hasEdge_record s sound sourceTree facts dependency dependent).1 hedge with
      ⟨fact, hfact, rfl, hmem, -⟩ | hold
    · exact ⟨(hfacts fact hfact).dependencies dependency hmem, (hfacts fact hfact).className⟩
    · exact h.edges dependency dependent hold

section Load

attribute [local irreducible] Action.wp

theorem readTable_rows (table : Path) (cut : Cut) :
    (readTable table cut).wp w (fun rows _ => ∃ text, readRows cut text = .ok rows)
      fun _ _ => True := by
  unfold readTable
  rw [Action.wp_bind]
  refine Action.wp_of_forall (fun text w₁ => ?_) fun _ _ => trivial
  split
  · next rows hrows => exact (Action.wp_pure _).2 ⟨text, hrows⟩
  · exact (Action.wp_failed _).2 trivial

theorem unbroken_of_load (h : (load directory).on w = (.ok s, w')) : s.Unbroken := by
  have hload : (load directory).wp w (fun s _ => s.Unbroken) fun _ _ => True := by
    unfold load
    simp only [Action.wp_bind, Action.wp_pure]
    refine (readTable_rows _ _).mono (fun classes w₁ hclasses => ?_) fun _ _ _ => trivial
    refine (readTable_rows _ _).mono (fun sources w₂ _ => ?_) fun _ _ _ => trivial
    refine (readTable_rows _ _).mono (fun edges w₃ hedges => ?_) fun _ _ _ => trivial
    obtain ⟨text, hclasses⟩ := hclasses
    obtain ⟨text', hedges⟩ := hedges
    refine ⟨fun className source hclass => ?_, fun dependency dependent hedge => ?_⟩
    · obtain ⟨hkey, hvalue, -⟩ := plain_of_readRows hclasses (mem_of_getElem?_ofRows hclass)
      exact ⟨hkey, hvalue⟩
    · obtain ⟨hkey, hvalue, -⟩ := plain_of_readRows hedges ((mem_edges_ofEdges edges _).1 hedge)
      exact ⟨hkey, hvalue⟩
  exact hload.of_ok h

/-- What was written of a store without line feeds is loaded with the digests that were written, if
these are read back, and with the classes if those are. -/
theorem Unbroken.exists_load (h : s.Unbroken)
    (hsources : ∀ row ∈ s.sources.toList, ReadsBack .last row)
    (hread : ∀ table ∈ tableNames, ∀ bytes, s.contents table = some bytes →
      w.disk.readFile w.cwd (directory.push table) = .ok bytes) :
    ∃ s', (load directory).on w = (.ok s', w) ∧ s'.sources = s.sources ∧
      ((∀ row ∈ s.classes.toList, ReadsBack .first row) → s'.classes = s.classes) := by
  obtain ⟨cs, hcs⟩ := @exists_readRows s.classes.toList .first fun row hrow =>
    h.classes row.1 row.2 (mem_toList_iff.1 hrow)
  obtain ⟨es, hes⟩ := @exists_readRows s.dependencies.sortedEdges .first fun e he =>
    h.edges e.1 e.2 ((mem_sortedEdges _ e).1 he)
  obtain ⟨ss, hss, hsame⟩ := (exists_ofRows_iff s.sources).2 hsources
  have htable (table : String) (htable : table ∈ tableNames) (bytes : ByteArray)
      (hbytes : s.contents table = some bytes) := hread table htable bytes hbytes
  refine ⟨_, (on_load_eq_ok_iff (htable "classes.txt" (by simp [tableNames]) _ rfl)
    (htable "sources.txt" (by simp [tableNames]) _ rfl)
    (htable "deps.txt" (by simp [tableNames]) _ rfl)).2 ⟨rfl, cs, ss, es, hcs, hss, hes, rfl⟩,
    hsame, fun hclasses => ?_⟩
  obtain ⟨cs', hcs', hsame'⟩ := (exists_ofRows_iff s.classes).2 hclasses
  rw [← hsame', Except.ok.inj (hcs.symm.trans hcs')]

end Load

end Store

end Recompile
