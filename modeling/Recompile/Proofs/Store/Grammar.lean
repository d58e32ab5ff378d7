import Recompile.Proofs.Store.RoundTrip
import Recompile.Proofs.Store.Unbroken
import Recompile.Proofs.Text.Spelled

/-!
# What can be loaded

A table is bad if it cannot be read, is not UTF-8, or has a line that is neither empty nor has an
arrow. A store is loaded exactly if none of its tables is bad, and then its lines are the entries: of
two lines with one key the later one counts. Otherwise the failure is the flaw of the first bad table.
-/

namespace Recompile.Store

open Disk

attribute [local irreducible] Action.wp

variable {cut : Cut} {lines : List String} {rows : List (String × String)} {w w' : World}
  {table directory : Path} {failure : Failure}

/-! ## Lines -/

/-- The line states the row: it is cut at its first or its last arrow. -/
def Cut.States (cut : Cut) (line : String) (row : String × String) : Prop :=
  line = row.1 ++ arrow ++ row.2 ∧ ¬Text.Occurs arrow (cut.side row)

def Malformed (line : String) : Prop := line ≠ "" ∧ ¬Text.Occurs arrow line

instance (line : String) : Decidable (Malformed line) :=
  inferInstanceAs (Decidable (line ≠ "" ∧ ¬Text.Occurs arrow line))

/-- The malformed line that comes first has this number; empty lines count. -/
def FirstMalformed (lines : List String) (number : Nat) : Prop :=
  ∃ before line after, lines = before ++ line :: after ∧ number = before.length + 1 ∧
    Malformed line ∧ ∀ other ∈ before, ¬Malformed other

/-- The last of the lines with this key states this value. -/
def LastStates (cut : Cut) (lines : List String) (key value : String) : Prop :=
  ∃ before line after, lines = before ++ line :: after ∧ cut.States line (key, value) ∧
    ∀ other ∈ after, ∀ value', ¬cut.States other (key, value')

theorem row?_eq_none_iff {line : String} : cut.row? line = none ↔ ¬Text.Occurs arrow line := by
  constructor
  · rintro hnone ⟨before, after, hline⟩
    obtain ⟨row, hrow⟩ := exists_row cut (String.ofList before) (String.ofList after)
    have heq : String.ofList before ++ arrow ++ String.ofList after = line := by
      rw [← String.toList_inj]
      simpa using hline
    rw [heq, hnone] at hrow
    cases hrow
  · intro h
    cases hrow : cut.row? line with
    | none => rfl
    | some row =>
      obtain ⟨rfl, -⟩ := row?_eq_some_iff.1 hrow
      exact absurd ⟨row.1.toList, row.2.toList, by simp⟩ h

theorem row?_empty : cut.row? "" = none := row?_eq_none_iff.2 (by decide)

/-- Lines are read exactly if none is malformed, and each that is not empty gives its row. -/
theorem rowsOfLines_of_wellFormed (h : ∀ line ∈ lines, ¬Malformed line) (number : Nat) :
    rowsOfLines cut number lines = .ok (lines.filterMap cut.row?) := by
  induction lines generalizing number with
  | nil => rfl
  | cons line rest ih =>
    have hrest := ih (fun other hother => h other (List.mem_cons_of_mem line hother)) (number + 1)
    rw [rowsOfLines, hrest]
    by_cases hempty : line = ""
    · subst hempty
      rw [if_pos rfl, List.filterMap_cons_none row?_empty]
    · rw [if_neg hempty]
      cases hrow : cut.row? line with
      | none => exact absurd ⟨hempty, row?_eq_none_iff.1 hrow⟩ (h line List.mem_cons_self)
      | some row => rw [List.filterMap_cons_some hrow]; rfl

theorem rowsOfLines_of_malformed {before after : List String} {line : String}
    (h : ∀ other ∈ before, ¬Malformed other) (hline : Malformed line) (number : Nat) :
    rowsOfLines cut number (before ++ line :: after) = .error (number + before.length) := by
  induction before generalizing number with
  | nil =>
    rw [List.nil_append, rowsOfLines, if_neg hline.1, row?_eq_none_iff.2 hline.2]
    rfl
  | cons first rest ih =>
    have hrest := ih (fun other hother => h other (List.mem_cons_of_mem first hother)) (number + 1)
    rw [List.cons_append, rowsOfLines, hrest, List.length_cons, Nat.add_right_comm]
    by_cases hempty : first = ""
    · rw [if_pos hempty, Nat.add_assoc]
    · rw [if_neg hempty]
      cases hrow : cut.row? first with
      | none => exact absurd ⟨hempty, row?_eq_none_iff.1 hrow⟩ (h first List.mem_cons_self)
      | some row => rw [Nat.add_assoc]; rfl

/-- Either no line is malformed or one of the malformed lines is the first. -/
theorem wellFormed_or_firstMalformed (lines : List String) :
    (∀ line ∈ lines, ¬Malformed line) ∨ ∃ number, FirstMalformed lines number := by
  induction lines with
  | nil => simp
  | cons line rest ih =>
    by_cases hline : Malformed line
    · exact .inr ⟨1, [], line, rest, rfl, rfl, hline, by simp⟩
    rcases ih with hrest | ⟨-, before, bad, after, rfl, -, hbad, hbefore⟩
    · exact .inl (List.forall_mem_cons.2 ⟨hline, hrest⟩)
    · exact .inr ⟨_, line :: before, bad, after, rfl, rfl, hbad,
        List.forall_mem_cons.2 ⟨hline, hbefore⟩⟩

/-- One more line states the value itself, or leaves its key alone. -/
theorem lastStates_concat {last key value : String} :
    LastStates cut (lines ++ [last]) key value ↔ cut.States last (key, value) ∨
      (∀ value', ¬cut.States last (key, value')) ∧ LastStates cut lines key value := by
  constructor
  · rintro ⟨before, line, after, heq, hstates, hafter⟩
    rcases List.eq_nil_or_concat' after with rfl | ⟨rest, final, rfl⟩
    · obtain ⟨-, hline⟩ := List.append_inj' heq rfl
      obtain rfl := List.singleton_inj.1 hline
      exact .inl hstates
    · rw [← List.cons_append, ← List.append_assoc] at heq
      obtain ⟨rfl, hfinal⟩ := List.append_inj' heq rfl
      obtain rfl := List.singleton_inj.1 hfinal
      exact .inr ⟨hafter last (by simp), before, line, rest, rfl, hstates, fun other hother =>
        hafter other (List.mem_append_left _ hother)⟩
  · rintro (hstates | ⟨hnot, before, line, after, rfl, hstates, hafter⟩)
    · exact ⟨lines, last, [], rfl, hstates, by simp⟩
    · refine ⟨before, line, after ++ [last], by simp, hstates, fun other hother => ?_⟩
      rcases List.mem_append.1 hother with hother | hother
      · exact hafter other hother
      · rw [List.mem_singleton.1 hother]
        exact hnot

/-- Of two rows with one key the later one is in the table. -/
theorem getElem?_ofRows_filterMap {key value : String} :
    (ofRows (lines.filterMap cut.row?))[key]? = some value ↔ LastStates cut lines key value := by
  induction lines using List.reverseRecOn with
  | nil => simp [ofRows, LastStates]
  | append_singleton lines last ih =>
    have hstates (row : String × String) : cut.States last row ↔ cut.row? last = some row :=
      row?_eq_some_iff.symm
    simp only [lastStates_concat, hstates, ← ih]
    rw [List.filterMap_append, ofRows, List.foldl_append, ← ofRows]
    cases hrow : cut.row? last with
    | none =>
      rw [List.filterMap_cons_none hrow, List.filterMap_nil, List.foldl_nil]
      simp
    | some row =>
      rw [List.filterMap_cons_some hrow, List.filterMap_nil, List.foldl_cons, List.foldl_nil,
        Std.ExtTreeMap.getElem?_insert]
      by_cases hkey : row.1 = key
      · simp [← hkey, Prod.ext_iff]
      · simp [hkey, Prod.ext_iff]

/-! ## One table -/

/-- The table can be read, and these are its lines. -/
def HasLines (w : World) (table : Path) (lines : List String) : Prop :=
  ∃ text : String, w.disk.readFile w.cwd table = .ok text.toUTF8 ∧ Text.Spells lines text

/-- The table cannot be read, is not UTF-8, or has a malformed line. -/
def IsBad (w : World) (table : Path) : Prop :=
  (∃ fault, w.disk.readFile w.cwd table = .error fault) ∨
  (∃ bytes, w.disk.readFile w.cwd table = .ok bytes ∧ ∀ text : String, text.toUTF8 ≠ bytes) ∨
  ∃ lines, HasLines w table lines ∧ ∃ line ∈ lines, Malformed line

/-- What is wrong with a bad table, as the failure that names its path. -/
inductive Flaw (w : World) (table : Path) : Failure → Prop
  | unreadable {fault : Fault} (h : w.disk.readFile w.cwd table = .error fault) :
    Flaw w table ⟨[.readingTable table], .fault fault⟩
  | notText {bytes : ByteArray} (h : w.disk.readFile w.cwd table = .ok bytes)
    (hbytes : ∀ text : String, text.toUTF8 ≠ bytes) :
    Flaw w table ⟨[.readingTable table], .notText⟩
  | malformed {lines : List String} {number : Nat} (h : HasLines w table lines)
    (hfirst : FirstMalformed lines number) : Flaw w table (Cause.malformedLine table number)

theorem Flaw.isBad (h : Flaw w table failure) : IsBad w table := by
  cases h with
  | unreadable h => exact .inl ⟨_, h⟩
  | notText h hbytes => exact .inr (.inl ⟨_, h, hbytes⟩)
  | malformed h hfirst =>
    obtain ⟨before, line, after, rfl, -, hline, -⟩ := hfirst
    exact .inr (.inr ⟨_, h, line, by simp, hline⟩)

/-- A table has well-formed lines, or it is flawed. -/
theorem hasLines_or_flaw (w : World) (table : Path) :
    (∃ lines, HasLines w table lines ∧ ∀ line ∈ lines, ¬Malformed line) ∨
      ∃ failure, Flaw w table failure := by
  cases hread : w.disk.readFile w.cwd table with
  | error fault => exact .inr ⟨_, .unreadable hread⟩
  | ok bytes =>
    by_cases htext : ∃ text : String, text.toUTF8 = bytes
    · obtain ⟨text, rfl⟩ := htext
      have hlines : HasLines w table (Text.lines text) := ⟨text, hread, Text.spells_lines text⟩
      rcases wellFormed_or_firstMalformed (Text.lines text) with hgood | ⟨number, hfirst⟩
      · exact .inl ⟨_, hlines, hgood⟩
      · exact .inr ⟨_, .malformed hlines hfirst⟩
    · exact .inr ⟨_, .notText hread (not_exists.1 htext)⟩

theorem HasLines.not_isBad (h : HasLines w table lines) (hlines : ∀ line ∈ lines, ¬Malformed line) :
    ¬IsBad w table := by
  obtain ⟨text, hread, hspells⟩ := h
  rintro (⟨fault, hfault⟩ | ⟨bytes, hbytes, hnot⟩ | ⟨_, ⟨text', hread', hspells'⟩, line, hline, hbad⟩)
  · rw [hread] at hfault
    cases hfault
  · exact hnot text (Except.ok.inj (hread.symm.trans hbytes))
  · have heq : text.toUTF8 = text'.toUTF8 := Except.ok.inj (hread.symm.trans hread')
    obtain rfl : text = text' := String.toByteArray_inj.1 heq
    obtain rfl := hspells.lines_eq.symm.trans hspells'.lines_eq
    exact hlines line hline hbad

theorem decode_eq_error {bytes : ByteArray} (h : ∀ text : String, text.toUTF8 ≠ bytes) :
    ∃ e, Text.decode bytes = .error e := by
  rw [Text.decode]
  split
  · next hvalid => exact absurd rfl (h (String.fromUTF8 bytes hvalid))
  · exact ⟨_, rfl⟩

theorem HasLines.on_readTable (h : HasLines w table lines)
    (hlines : ∀ line ∈ lines, ¬Malformed line) :
    (readTable table cut).on w = (.ok (lines.filterMap cut.row?), w) := by
  obtain ⟨text, hread, hspells⟩ := h
  rw [Store.on_readTable cut hread, rowsOf, readRows, hspells.lines_eq, rowsOfLines_of_wellFormed hlines]
  rfl

theorem Flaw.on_readTable (h : Flaw w table failure) :
    (readTable table cut).on w = (.error failure, w) := by
  -- where no text can be read, reading the rows fails with the same failure
  have hunread {f : Failure}
      (hspec : (Action.within (.readingTable table) (Action.readText table)).wp w
        (fun _ _ => False) fun f' w' => f' = f ∧ w' = w) :
      (readTable table cut).on w = (.error f, w) := by
    rw [readTable, Action.on_bind]
    rcases hon : (Action.within (.readingTable table) (Action.readText table)).on w with
      ⟨f' | text, w'⟩
    · obtain ⟨rfl, rfl⟩ := hspec.of_error hon
      rfl
    · exact (hspec.of_ok hon).elim
  cases h with
  | unreadable h =>
    apply hunread
    simp only [Action.readText, Action.readBytes, Action.wp_within, Action.wp_bind,
      Action.wp_query, h]
    exact ⟨rfl, trivial⟩
  | notText h hbytes =>
    obtain ⟨e, he⟩ := decode_eq_error hbytes
    apply hunread
    simp only [Action.readText, Action.readBytes, Action.wp_within, Action.wp_bind,
      Action.wp_query, h, he, Action.wp_failed]
    exact ⟨rfl, trivial⟩
  | malformed h hfirst =>
    obtain ⟨text, hread, hspells⟩ := h
    obtain ⟨before, line, after, rfl, rfl, hline, hbefore⟩ := hfirst
    rw [Store.on_readTable cut hread, rowsOf, readRows, hspells.lines_eq,
      rowsOfLines_of_malformed hbefore hline, Nat.add_comm]
    rfl

/-! ## A store -/

/-- The tables of a store are what the lines of its files state. -/
structure LoadedFrom (w : World) (directory : Path) (s : Store) : Prop where
  directory_eq : s.directory = directory
  classes : ∃ lines, HasLines w (classesTable directory) lines ∧
    ∀ key value, s.classes[key]? = some value ↔ LastStates .first lines key value
  sources : ∃ lines, HasLines w (sourcesTable directory) lines ∧
    ∀ key value, s.sources[key]? = some value ↔ LastStates .last lines key value
  edges : ∃ lines, HasLines w (dependenciesTable directory) lines ∧
    ∀ e, e ∈ s.dependencies.edges ↔ ∃ line ∈ lines, Cut.first.States line e

/-- How loading ends: with what the tables state, or with the flaw of the first bad table. -/
theorem load_cases (w : World) (directory : Path) :
    (∃ s, (load directory).on w = (.ok s, w) ∧ (∀ table ∈ tables directory, ¬IsBad w table) ∧
      LoadedFrom w directory s) ∨
    ∃ failure before table after, (load directory).on w = (.error failure, w) ∧
      tables directory = before ++ table :: after ∧ (∀ other ∈ before, ¬IsBad w other) ∧
      Flaw w table failure := by
  rw [load, Action.on_bind, tables]
  rcases hasLines_or_flaw w (classesTable directory) with ⟨cs, hcs, hcs'⟩ | ⟨f, hflaw⟩
  · rw [hcs.on_readTable hcs']
    dsimp only
    rw [Action.on_bind]
    rcases hasLines_or_flaw w (sourcesTable directory) with ⟨ss, hss, hss'⟩ | ⟨f, hflaw⟩
    · rw [hss.on_readTable hss']
      dsimp only
      rw [Action.on_bind]
      rcases hasLines_or_flaw w (dependenciesTable directory) with ⟨es, hes, hes'⟩ | ⟨f, hflaw⟩
      · rw [hes.on_readTable hes']
        refine .inl ⟨_, rfl, ?_, rfl, ⟨cs, hcs, fun _ _ => getElem?_ofRows_filterMap⟩,
          ⟨ss, hss, fun _ _ => getElem?_ofRows_filterMap⟩, es, hes, fun e => ?_⟩
        · simp only [List.mem_cons, List.not_mem_nil, or_false]
          rintro table (rfl | rfl | rfl)
          · exact hcs.not_isBad hcs'
          · exact hss.not_isBad hss'
          · exact hes.not_isBad hes'
        · rw [mem_edges_ofEdges, List.mem_filterMap]
          exact exists_congr fun line => and_congr_right fun _ => row?_eq_some_iff
      · rw [hflaw.on_readTable]
        refine .inr ⟨f, [_, _], _, [], rfl, rfl, ?_, hflaw⟩
        simp only [List.mem_cons, List.not_mem_nil, or_false]
        rintro table (rfl | rfl)
        · exact hcs.not_isBad hcs'
        · exact hss.not_isBad hss'
    · rw [hflaw.on_readTable]
      refine .inr ⟨f, [_], _, _, rfl, rfl, ?_, hflaw⟩
      simp only [List.mem_singleton]
      rintro table rfl
      exact hcs.not_isBad hcs'
  · rw [hflaw.on_readTable]
    exact .inr ⟨f, [], _, _, rfl, rfl, by simp, hflaw⟩

/-- A store is loaded exactly if none of its tables is bad, and then it holds what their lines state.
Otherwise the failure is the flaw of the first bad table. Loading changes nothing. -/
theorem load_accepts_exactly (w : World) (directory : Path) :
    ((load directory).on w).2 = w ∧
    ((∃ s, ((load directory).on w).1 = .ok s) ↔ ∀ table ∈ tables directory, ¬IsBad w table) ∧
    (∀ s, ((load directory).on w).1 = .ok s → LoadedFrom w directory s) ∧
    ∀ failure, ((load directory).on w).1 = .error failure →
      ∃ before table after, tables directory = before ++ table :: after ∧
        (∀ other ∈ before, ¬IsBad w other) ∧ Flaw w table failure := by
  rcases load_cases w directory with ⟨s, hload, hgood, hs⟩ |
    ⟨f, before, table, after, hload, htables, hbefore, hflaw⟩
  · rw [hload]
    refine ⟨rfl, iff_of_true ⟨s, rfl⟩ hgood, ?_, ?_⟩
    · rintro _ ⟨⟩
      exact hs
    · rintro _ ⟨⟩
  · rw [hload]
    refine ⟨rfl, iff_of_false ?_ ?_, ?_, ?_⟩
    · rintro ⟨_, ⟨⟩⟩
    · exact fun hgood => hgood table (by simp [htables]) hflaw.isBad
    · rintro _ ⟨⟩
    · rintro _ ⟨⟩
      exact ⟨before, table, after, htables, hbefore, hflaw⟩

end Recompile.Store
