import Mathlib.Algebra.Order.BigOperators.Group.List
import Mathlib.Algebra.Order.Group.Nat
import Recompile.Proofs.Graph.Edges
import Recompile.Proofs.Text.Affix
import Recompile.Proofs.Text.Lines
import Recompile.Store.Files

/-!
# Rows that are read back

A row is read back as it was written exactly if no line feed is in it, its value does not end in a
carriage return, and the field on the side of the cut has no arrow: the key where lines are cut at the
first arrow, the value where they are cut at the last. A table or a set of edges is read back exactly
if all its rows are; other rows cannot make up for one that is lost.
-/

namespace Recompile.Store

/-- The field of a row that must be free of arrows. -/
def Cut.side : Cut → String × String → String
  | first => Prod.fst
  | last => Prod.snd

/-- What makes a row be read back as it was written. -/
structure ReadsBack (cut : Cut) (row : String × String) : Prop where
  key : '\n' ∉ row.1.toList
  value : '\n' ∉ row.2.toList
  not_return : row.2.toList.getLast? ≠ some '\r'
  not_arrow : ¬Text.Occurs arrow (cut.side row)

instance (cut : Cut) (row : String × String) : Decidable (ReadsBack cut row) :=
  decidable_of_iff ('\n' ∉ row.1.toList ∧ '\n' ∉ row.2.toList ∧
      row.2.toList.getLast? ≠ some '\r' ∧ ¬Text.Occurs arrow (cut.side row))
    ⟨fun h => ⟨h.1, h.2.1, h.2.2.1, h.2.2.2⟩, fun h => ⟨h.1, h.2, h.3, h.4⟩⟩

variable {cut : Cut} {rows : List (String × String)}

/-! ## One row -/

theorem arrow_infix_concat {before : List Char} :
    ['-', '>'] <:+: before ++ ['-'] ↔ ['-', '>'] <:+: before := by
  rw [List.infix_concat_iff, or_iff_right]
  rintro ⟨start, h⟩
  have hlast := congrArg List.getLast? h
  simp at hlast

theorem arrow_infix_cons {rest : List Char} :
    ['-', '>'] <:+: '>' :: rest ↔ ['-', '>'] <:+: rest := by
  rw [List.infix_cons_iff, or_iff_right]
  intro h
  have hhead := (List.cons_prefix_cons.1 h).1
  cases hhead

/-- A line is cut into a row exactly if it is the text of the row and the arrow is the right one. -/
theorem row?_eq_some_iff {line : String} {row : String × String} :
    cut.row? line = some row ↔
      line = row.1 ++ arrow ++ row.2 ∧ ¬Text.Occurs arrow (cut.side row) := by
  have harrow : arrow.toList = ['-', '>'] := rfl
  have hlist : line.toList = row.1.toList ++ arrow.toList ++ row.2.toList ↔
      line = row.1 ++ arrow ++ row.2 := by
    rw [← String.toList_inj, String.toList_append, String.toList_append]
  obtain ⟨key, value⟩ := row
  cases cut with
  | first =>
    have hcut := @Text.cutFirstOf_eq_some_iff arrow.toList line.toList key.toList value.toList
      (by simp [harrow])
    rw [hlist] at hcut
    simp only [Cut.row?, Cut.side, Text.Occurs, Text.cutFirst?, Option.map_eq_some_iff]
    constructor
    · rintro ⟨⟨before, rest⟩, hsome, heq⟩
      simp only [Prod.mk.injEq] at heq
      obtain ⟨rfl, rfl⟩ := heq
      simp only [String.toList_ofList] at hcut
      obtain ⟨hline, hinfix⟩ := hcut.1 hsome
      exact ⟨hline, by simpa [harrow, arrow_infix_concat] using hinfix⟩
    · rintro ⟨hline, hinfix⟩
      refine ⟨_, hcut.2 ⟨hline, ?_⟩, by simp⟩
      simpa [harrow, arrow_infix_concat] using hinfix
  | last =>
    have hcut := @Text.cutLastOf_eq_some_iff arrow.toList line.toList key.toList value.toList
      (by simp [harrow])
    rw [hlist] at hcut
    simp only [Cut.row?, Cut.side, Text.Occurs, Text.cutLast?, Option.map_eq_some_iff]
    constructor
    · rintro ⟨⟨before, rest⟩, hsome, heq⟩
      simp only [Prod.mk.injEq] at heq
      obtain ⟨rfl, rfl⟩ := heq
      simp only [String.toList_ofList] at hcut
      obtain ⟨hline, hinfix⟩ := hcut.1 hsome
      exact ⟨hline, by simpa [harrow, arrow_infix_cons] using hinfix⟩
    · rintro ⟨hline, hinfix⟩
      refine ⟨_, hcut.2 ⟨hline, ?_⟩, by simp⟩
      simpa [harrow, arrow_infix_cons] using hinfix

/-- The row without the carriage return that may end its value. -/
def withoutReturn (row : String × String) : String × String := (row.1, Text.withoutReturn row.2)

theorem withoutReturn_eq_self_iff {row : String × String} :
    withoutReturn row = row ↔ row.2.toList.getLast? ≠ some '\r' := by
  rw [← Text.dropReturn_eq_self_iff]
  simp [withoutReturn, Text.withoutReturn, Prod.ext_iff, ← String.toList_inj]

/-- A value that ends in a carriage return comes from the same value with one more at its end. -/
theorem eq_append_of_withoutReturn {row row' : String × String} (h : withoutReturn row = row')
    (hreturn : row'.2.toList.getLast? = some '\r') :
    row.2.toList.getLast? = some '\r' ∧ row'.2.toList.length < row.2.toList.length := by
  subst h
  simp only [withoutReturn, Text.withoutReturn, String.toList_ofList, Text.dropReturn] at hreturn ⊢
  split at hreturn
  · next hlast =>
    rw [if_pos hlast, List.length_dropLast]
    have hpos : 0 < row.2.toList.length := List.length_pos_of_mem (List.mem_of_getLast? hlast)
    exact ⟨hlast, by omega⟩
  · next hlast => exact absurd hreturn hlast

theorem withoutReturn_line (row : String × String) :
    Text.withoutReturn (row.1 ++ arrow ++ row.2) =
      (withoutReturn row).1 ++ arrow ++ (withoutReturn row).2 := by
  have harrow : arrow.toList = ['-', '>'] := rfl
  have hvalue : Text.dropReturn (arrow.toList ++ row.2.toList) =
      arrow.toList ++ Text.dropReturn row.2.toList := by
    by_cases hempty : row.2.toList = []
    · rw [hempty]
      decide
    · exact Text.dropReturn_append _ hempty
  rw [← String.toList_inj]
  simp only [withoutReturn, Text.withoutReturn, String.toList_ofList, String.toList_append,
    List.append_assoc]
  rw [Text.dropReturn_append _ (by simp [harrow]), hvalue]

/-! ## Many rows -/

theorem rowsOfLines_map (number : Nat) (h : ∀ row ∈ rows, ¬Text.Occurs arrow (cut.side row)) :
    rowsOfLines cut number (rows.map fun row => row.1 ++ arrow ++ row.2) = .ok rows := by
  induction rows generalizing number with
  | nil => rfl
  | cons row rest ih =>
    have hline : row.1 ++ arrow ++ row.2 ≠ "" := by
      simp [arrow]
    have hrow := row?_eq_some_iff.2 ⟨rfl, h row List.mem_cons_self⟩
    have hrest := ih (number + 1) fun other hother => h other (List.mem_cons_of_mem row hother)
    rw [List.map_cons, rowsOfLines, if_neg hline, hrow]
    dsimp only
    rw [hrest]
    rfl

/-- The lines of rows without line feeds are these rows again, but for their carriage returns. -/
theorem lines_writeRows (h : ∀ row ∈ rows, '\n' ∉ row.1.toList ∧ '\n' ∉ row.2.toList) :
    Text.lines (writeRows rows) =
      (rows.map withoutReturn).map fun row => row.1 ++ arrow ++ row.2 := by
  have htexts : rows.map rowText =
      (rows.map fun row => row.1 ++ arrow ++ row.2).map (· ++ "\n") := by
    simp [rowText]
  have hfree : ∀ text ∈ rows.map fun row => row.1 ++ arrow ++ row.2, '\n' ∉ text.toList := by
    intro text htext
    obtain ⟨row, hrow, rfl⟩ := List.mem_map.1 htext
    obtain ⟨hkey, hvalue⟩ := h row hrow
    have harrow : '\n' ∉ arrow.toList := by decide
    simp [hkey, hvalue, harrow]
  have hlines : (Text.withoutReturn ∘ fun row : String × String => row.1 ++ arrow ++ row.2) =
      (fun row => row.1 ++ arrow ++ row.2) ∘ withoutReturn := funext withoutReturn_line
  rw [writeRows, htexts, Text.lines_join _ hfree, List.map_map, hlines, ← List.map_map]

/-- Rows without line feeds, with the right arrow in each line, lose their carriage returns only. -/
theorem readRows_writeRows (h : ∀ row ∈ rows, '\n' ∉ row.1.toList ∧ '\n' ∉ row.2.toList ∧
    ¬Text.Occurs arrow (cut.side row)) :
    readRows cut (writeRows rows) = .ok (rows.map withoutReturn) := by
  have hside : ∀ row ∈ rows.map withoutReturn, ¬Text.Occurs arrow (cut.side row) := by
    intro row hrow
    obtain ⟨row, hmem, rfl⟩ := List.mem_map.1 hrow
    have hnot := (h row hmem).2.2
    cases cut with
    | first => exact hnot
    | last =>
      refine fun hoccurs => hnot (List.IsInfix.trans hoccurs (List.IsPrefix.isInfix ?_))
      simp only [Cut.side, withoutReturn, Text.withoutReturn, String.toList_ofList,
        Text.dropReturn]
      split
      · exact List.dropLast_prefix _
      · exact List.prefix_refl _
  rw [readRows, lines_writeRows fun row hrow => ⟨(h row hrow).1, (h row hrow).2.1⟩]
  exact rowsOfLines_map 1 hside

theorem mem_rowsOfLines {lines : List String} {number : Nat}
    (h : rowsOfLines cut number lines = .ok rows) {row : String × String} (hrow : row ∈ rows) :
    ∃ line ∈ lines, cut.row? line = some row := by
  induction lines generalizing number rows with
  | nil =>
    cases h
    cases hrow
  | cons line rest ih =>
    rw [rowsOfLines] at h
    split at h
    · obtain ⟨other, hother, hcut⟩ := ih h hrow
      exact ⟨other, List.mem_cons_of_mem line hother, hcut⟩
    · split at h
      · cases h
      · next first hfirst =>
        cases hread : rowsOfLines cut (number + 1) rest with
        | error bad =>
          rw [hread] at h
          cases h
        | ok more =>
          rw [hread] at h
          cases h
          rcases List.mem_cons.1 hrow with rfl | hmore
          · exact ⟨line, List.mem_cons_self, hfirst⟩
          · obtain ⟨other, hother, hcut⟩ := ih hread hmore
            exact ⟨other, List.mem_cons_of_mem line hother, hcut⟩

/-- No row that is read has a line feed, and each was cut at the right arrow. -/
theorem plain_of_readRows {text : String} (h : readRows cut text = .ok rows)
    {row : String × String} (hrow : row ∈ rows) :
    '\n' ∉ row.1.toList ∧ '\n' ∉ row.2.toList ∧ ¬Text.Occurs arrow (cut.side row) := by
  obtain ⟨line, hline, hcut⟩ := mem_rowsOfLines h hrow
  obtain ⟨rfl, hside⟩ := row?_eq_some_iff.1 hcut
  have hfree := Text.not_mem_of_mem_lines hline
  simp only [String.toList_append, List.mem_append, not_or] at hfree
  exact ⟨hfree.1.1, hfree.2, hside⟩

/-- If dropping the carriage returns gives the same rows again, there are none: each value that ends
in one would come from a longer one. -/
theorem not_return_of_mem_map (h : ∀ row ∈ rows, row ∈ rows.map withoutReturn) :
    ∀ row ∈ rows, row.2.toList.getLast? ≠ some '\r' := by
  intro row hrow hreturn
  have long : ∀ n, ∃ other ∈ rows, other.2.toList.getLast? = some '\r' ∧
      n ≤ other.2.toList.length := by
    intro n
    induction n with
    | zero => exact ⟨row, hrow, hreturn, Nat.zero_le _⟩
    | succ n ih =>
      obtain ⟨other, hother, hlast, hlength⟩ := ih
      obtain ⟨longer, hlonger, heq⟩ := List.mem_map.1 (h other hother)
      obtain ⟨hlast', hlt⟩ := eq_append_of_withoutReturn heq hlast
      exact ⟨longer, hlonger, hlast', by omega⟩
  obtain ⟨other, hother, -, hlength⟩ := long ((rows.map fun row => row.2.toList.length).sum + 1)
  have hsum : other.2.toList.length ≤ (rows.map fun row => row.2.toList.length).sum :=
    List.le_sum_of_mem (List.mem_map_of_mem hother)
  omega

theorem readRows_of_readsBack (h : ∀ row ∈ rows, ReadsBack cut row) :
    readRows cut (writeRows rows) = .ok rows := by
  rw [readRows_writeRows fun row hrow => ⟨(h row hrow).key, (h row hrow).value, (h row hrow).not_arrow⟩]
  have hplain : ∀ row ∈ rows, withoutReturn row = row := fun row hrow =>
    withoutReturn_eq_self_iff.2 (h row hrow).not_return
  rw [List.map_congr_left hplain, List.map_id']

/-- The rows that are read are the rows that were written exactly if each of them is read back. -/
theorem exists_readRows_iff :
    (∃ rows', readRows cut (writeRows rows) = .ok rows' ∧ ∀ row, row ∈ rows' ↔ row ∈ rows) ↔
      ∀ row ∈ rows, ReadsBack cut row := by
  constructor
  · rintro ⟨rows', hread, hsame⟩
    have hplain : ∀ row ∈ rows, '\n' ∉ row.1.toList ∧ '\n' ∉ row.2.toList ∧
        ¬Text.Occurs arrow (cut.side row) := fun row hrow =>
      plain_of_readRows hread ((hsame row).2 hrow)
    have heq : rows' = rows.map withoutReturn :=
      Except.ok.inj (hread.symm.trans (readRows_writeRows hplain))
    have hreturn : ∀ row ∈ rows, row.2.toList.getLast? ≠ some '\r' :=
      not_return_of_mem_map fun row hrow => heq ▸ (hsame row).2 hrow
    intro row hrow
    obtain ⟨hkey, hvalue, hside⟩ := hplain row hrow
    exact ⟨hkey, hvalue, hreturn row hrow, hside⟩
  · intro h
    exact ⟨rows, readRows_of_readsBack h, fun _ => Iff.rfl⟩

/-! ## Tables and edges -/

theorem getElem?_foldl_insert (t : Table) (key value : String)
    (hnodup : (rows.map Prod.fst).Nodup) :
    (rows.foldl (fun t row => t.insert row.1 row.2) t)[key]? = some value ↔
      (key, value) ∈ rows ∨ key ∉ rows.map Prod.fst ∧ t[key]? = some value := by
  induction rows generalizing t with
  | nil => simp
  | cons row rest ih =>
    rw [List.map_cons, List.nodup_cons] at hnodup
    rw [List.foldl_cons, ih _ hnodup.2]
    by_cases hkey : row.1 = key
    · subst hkey
      have hrest : (row.1, value) ∉ rest := fun h => hnodup.1 (List.mem_map.2 ⟨_, h, rfl⟩)
      simp only [hrest, hnodup.1, Std.ExtTreeMap.getElem?_insert_self, not_false_eq_true, true_and,
        false_or, List.mem_cons, or_false, List.map_cons, not_true_eq_false, false_and,
        Option.some.injEq]
      exact ⟨fun h => by rw [← h], fun h => (Prod.mk.inj h).2.symm⟩
    · have hrow : (key, value) ≠ row := by
        rintro rfl
        exact hkey rfl
      rw [Std.ExtTreeMap.getElem?_insert, if_neg (by simpa using hkey)]
      simp [hrow, Ne.symm hkey]

theorem getElem?_ofRows (hnodup : (rows.map Prod.fst).Nodup) (key value : String) :
    (ofRows rows)[key]? = some value ↔ (key, value) ∈ rows := by
  rw [ofRows, getElem?_foldl_insert ∅ key value hnodup]
  simp

/-- What a table that is read holds stands in one of its rows. -/
theorem mem_of_getElem?_ofRows {key value : String} (h : (ofRows rows)[key]? = some value) :
    (key, value) ∈ rows := by
  have key' : ∀ t : Table, (rows.foldl (fun t row => t.insert row.1 row.2) t)[key]? = some value →
      (key, value) ∈ rows ∨ t[key]? = some value := by
    clear h
    induction rows with
    | nil => exact fun t h => .inr h
    | cons row rest ih =>
      intro t h
      rcases ih _ h with hrest | hrow
      · exact .inl (List.mem_cons_of_mem row hrest)
      · rw [Std.ExtTreeMap.getElem?_insert] at hrow
        split at hrow
        · next hkey =>
          have hkey : row.1 = key := by simpa using hkey
          left
          rw [← hkey, ← Option.some.inj hrow]
          exact List.mem_cons_self
        · exact .inr hrow
  rcases key' ∅ h with hmem | hnone
  · exact hmem
  · simp at hnone

theorem nodup_keys_toList (t : Table) : (t.toList.map Prod.fst).Nodup := by
  rw [List.nodup_iff_pairwise_ne, List.pairwise_map]
  exact t.distinct_keys_toList.imp fun {a b} hne heq => hne (by simp [heq])

theorem mem_toList_iff {t : Table} {row : String × String} :
    row ∈ t.toList ↔ t[row.1]? = some row.2 :=
  Std.ExtTreeMap.mem_toList_iff_getElem?_eq_some

/-- A table is read back exactly if each of its rows is. -/
theorem exists_ofRows_iff (t : Table) :
    (∃ rows, readRows cut (writeRows t.toList) = .ok rows ∧ ofRows rows = t) ↔
      ∀ row ∈ t.toList, ReadsBack cut row := by
  rw [← exists_readRows_iff]
  refine exists_congr fun rows => and_congr_right fun hread => ?_
  constructor
  · intro heq
    have hplain : ∀ row ∈ t.toList, '\n' ∉ row.1.toList ∧ '\n' ∉ row.2.toList ∧
        ¬Text.Occurs arrow (cut.side row) := by
      intro row hrow
      rw [mem_toList_iff, ← heq] at hrow
      exact plain_of_readRows hread (mem_of_getElem?_ofRows hrow)
    have hrows : rows = t.toList.map withoutReturn :=
      Except.ok.inj (hread.symm.trans (readRows_writeRows hplain))
    have hnodup : (rows.map Prod.fst).Nodup := by
      rw [hrows, List.map_map]
      exact nodup_keys_toList t
    intro row
    rw [mem_toList_iff, ← heq, getElem?_ofRows hnodup]
  · intro hsame
    have hplain := exists_readRows_iff.1 ⟨rows, hread, hsame⟩
    have hrows : rows = t.toList.map withoutReturn :=
      Except.ok.inj (hread.symm.trans (readRows_writeRows fun row hrow =>
        ⟨(hplain row hrow).key, (hplain row hrow).value, (hplain row hrow).not_arrow⟩))
    have hnodup : (rows.map Prod.fst).Nodup := by
      rw [hrows, List.map_map]
      exact nodup_keys_toList t
    refine Std.ExtTreeMap.ext_getElem? fun key => Option.ext fun value => ?_
    rw [getElem?_ofRows hnodup, hsame, mem_toList_iff]

theorem sound_ofEdges (edges : List (String × String)) : (Graph.ofEdges edges).Sound := by
  have key : ∀ g : Graph, g.Sound → (edges.foldl (fun g e => g.addEdge e.1 e.2) g).Sound := by
    induction edges with
    | nil => exact fun _ h => h
    | cons e rest ih => exact fun g h => ih _ (h.addEdge e.1 e.2)
  exact key ∅ Graph.sound_empty

theorem mem_edges_ofEdges (edges : List (String × String)) (e : String × String) :
    e ∈ (Graph.ofEdges edges).edges ↔ e ∈ edges := by
  have key : ∀ g : Graph, g.Sound →
      (e ∈ (edges.foldl (fun g e => g.addEdge e.1 e.2) g).edges ↔ e ∈ edges ∨ e ∈ g.edges) := by
    induction edges with
    | nil => simp
    | cons first rest ih =>
      intro g h
      rw [List.foldl_cons, ih _ (h.addEdge first.1 first.2),
        h.mem_edges_addEdge first.1 first.2 e.1 e.2, List.mem_cons, Prod.ext_iff, ← or_assoc,
        or_comm (a := e ∈ rest)]
  simp [Graph.ofEdges, key ∅ Graph.sound_empty]

theorem mem_sortedEdges (g : Graph) (e : String × String) : e ∈ g.sortedEdges ↔ e ∈ g.edges :=
  List.mem_mergeSort

/-- The edges of a graph are read back exactly if each of them is. -/
theorem exists_ofEdges_iff (g : Graph) :
    (∃ rows, readRows .first (writeRows g.sortedEdges) = .ok rows ∧
      ∀ e, e ∈ (Graph.ofEdges rows).edges ↔ e ∈ g.edges) ↔
      ∀ e ∈ g.edges, ReadsBack .first e := by
  have hrows := @exists_readRows_iff .first g.sortedEdges
  simp only [mem_sortedEdges] at hrows
  simp only [mem_edges_ofEdges, hrows]

end Recompile.Store
