import Mathlib.Logic.Function.Basic
import Recompile.Proofs.Graph.Views
import Recompile.Proofs.Store.RoundTrip
import Recompile.Proofs.Text.Bytes

/-!
# Tables that do not show their history

What is saved of a store depends only on its entries: the digest of each source, the source of each
class, and the pairs of classes that are joined. Each table has one line for each entry, in the order
of the bytes of its key. So stores that edits have led to in different ways are saved alike, and what
was taken away leaves no trace.
-/

namespace Recompile.Store

open Disk

attribute [local irreducible] Action.wp

/-! ## Edits -/

/-- A change to one entry of a store, or to its graph. -/
inductive Edit
  | setSource (source digest : String)
  | dropSource (source : String)
  | setClass (className source : String)
  | dropClass (className : String)
  | joinClasses (change : Graph.Change)
deriving DecidableEq, Repr

def Edit.apply (s : Store) : Edit → Store
  | setSource source digest => { s with sources := s.sources.insert source digest }
  | dropSource source => { s with sources := s.sources.erase source }
  | setClass className source => { s with classes := s.classes.insert className source }
  | dropClass className => { s with classes := s.classes.erase className }
  | joinClasses change => { s with dependencies := change.apply s.dependencies }

/-- The store that edits lead to from an empty one. -/
def edited (directory : Path) (edits : List Edit) : Store := edits.foldl Edit.apply (new directory)

/-- What a store says, apart from how it is kept. -/
structure Entries where
  sources : String → Option String
  classes : String → Option String
  edges : Finset (String × String)

/-- The edit as one to plain functions and a set of pairs. -/
def Edit.applyEntries (e : Entries) : Edit → Entries
  | setSource source digest => { e with sources := Function.update e.sources source (some digest) }
  | dropSource source => { e with sources := Function.update e.sources source none }
  | setClass className source =>
    { e with classes := Function.update e.classes className (some source) }
  | dropClass className => { e with classes := Function.update e.classes className none }
  | joinClasses change => { e with edges := change.applyPairs e.edges }

/-- The entries that edits leave. -/
def entriesAfter (edits : List Edit) : Entries :=
  edits.foldl Edit.applyEntries ⟨fun _ => none, fun _ => none, ∅⟩

/-- The store says what the entries say. -/
structure Says (s : Store) (e : Entries) : Prop where
  sources : ∀ source, s.sources[source]? = e.sources source
  classes : ∀ className, s.classes[className]? = e.classes className
  edges : s.dependencies.Refines e.edges

namespace Says

variable {s s' : Store} {e : Entries}

theorem apply (h : s.Says e) (edit : Edit) : (edit.apply s).Says (edit.applyEntries e) := by
  have hinsert (t : Table) (f : String → Option String) (ht : ∀ key, t[key]? = f key)
      (key value other : String) :
      (t.insert key value)[other]? = Function.update f key (some value) other := by
    rw [Std.ExtTreeMap.getElem?_insert]
    rcases eq_or_ne other key with rfl | hne
    · simp
    · rw [if_neg (by simpa using hne.symm), Function.update_of_ne hne, ht]
  have herase (t : Table) (f : String → Option String) (ht : ∀ key, t[key]? = f key)
      (key other : String) : (t.erase key)[other]? = Function.update f key none other := by
    rw [Std.ExtTreeMap.getElem?_erase]
    rcases eq_or_ne other key with rfl | hne
    · simp
    · rw [if_neg (by simpa using hne.symm), Function.update_of_ne hne, ht]
  cases edit with
  | setSource source digest => exact ⟨hinsert _ _ h.sources source digest, h.classes, h.edges⟩
  | dropSource source => exact ⟨herase _ _ h.sources source, h.classes, h.edges⟩
  | setClass className source => exact ⟨h.sources, hinsert _ _ h.classes className source, h.edges⟩
  | dropClass className => exact ⟨h.sources, herase _ _ h.classes className, h.edges⟩
  | joinClasses change => exact ⟨h.sources, h.classes, h.edges.apply change⟩

theorem foldl (h : s.Says e) (edits : List Edit) :
    (edits.foldl Edit.apply s).Says (edits.foldl Edit.applyEntries e) := by
  induction edits generalizing s e with
  | nil => exact h
  | cons edit rest ih => exact ih (h.apply edit)

/-- What is written of two stores that say the same is the same. -/
theorem rows_eq (h : s.Says e) (h' : s'.Says e) : s.sources = s'.sources ∧
    s.classes = s'.classes ∧ s.dependencies.sortedEdges = s'.dependencies.sortedEdges := by
  refine ⟨Std.ExtTreeMap.ext_getElem? fun source => ?_,
    Std.ExtTreeMap.ext_getElem? fun className => ?_, (h.edges.sortedEdges_eq_iff h'.edges).2 rfl⟩
  · rw [h.sources, h'.sources]
  · rw [h.classes, h'.classes]

end Says

theorem says_entriesAfter (directory : Path) (edits : List Edit) :
    (edited directory edits).Says (entriesAfter edits) :=
  Says.foldl ⟨fun _ => Std.ExtTreeMap.getElem?_empty, fun _ => Std.ExtTreeMap.getElem?_empty,
    Graph.refines_empty⟩ edits

@[simp] theorem directory_edited (directory : Path) (edits : List Edit) :
    (edited directory edits).directory = directory := by
  have key : ∀ s : Store, (edits.foldl Edit.apply s).directory = s.directory := by
    induction edits with
    | nil => exact fun _ => rfl
    | cons edit rest ih =>
      intro s
      rw [List.foldl_cons, ih]
      cases edit <;> rfl
  exact key (new directory)

/-! ## Lines in order -/

/-- The key of the one row comes before that of the other in the order of bytes. -/
def KeyBefore (row other : String × String) : Prop := Text.bytes row.1 < Text.bytes other.1

/-- The one pair comes before the other in the order of bytes. -/
def PairBefore (row other : String × String) : Prop :=
  KeyBefore row other ∨ row.1 = other.1 ∧ Text.bytes row.2 < Text.bytes other.2

/-- The text has one line for each entry, in this order. -/
def ListsInOrder (before : String × String → String × String → Prop)
    (entry : String × String → Prop) (text : String) : Prop :=
  ∃ rows : List (String × String),
    text = String.join (rows.map fun row => row.1 ++ "->" ++ row.2 ++ "\n") ∧
    rows.Pairwise before ∧ (∀ row, row ∈ rows ↔ entry row) ∧
    ((∀ row, entry row → '\n' ∉ row.1.toList ∧ '\n' ∉ row.2.toList) →
      (Text.lines text).length = rows.length)

theorem listsInOrder_writeRows {before : String × String → String × String → Prop}
    {entry : String × String → Prop} {rows : List (String × String)} (horder : rows.Pairwise before)
    (hrows : ∀ row, row ∈ rows ↔ entry row) : ListsInOrder before entry (writeRows rows) := by
  refine ⟨rows, rfl, horder, hrows, fun hfree => ?_⟩
  rw [lines_writeRows fun row hrow => hfree row ((hrows row).1 hrow)]
  simp

theorem toList_keyBefore (t : Table) : t.toList.Pairwise KeyBefore := by
  refine t.ordered_keys_toList.imp fun {row other} hlt => ?_
  rw [KeyBefore, Text.bytes_lt_iff]
  exact compare_lt_iff_lt.1 hlt

theorem sortedEdges_pairBefore {g : Graph} {pairs : Finset (String × String)} (r : g.Refines pairs) :
    g.sortedEdges.Pairwise PairBefore := by
  refine r.sortedEdges_ascending.imp fun {e f} hlt => ?_
  rw [PairBefore, KeyBefore, Text.bytes_lt_iff, Text.bytes_lt_iff]
  exact Prod.Lex.toLex_lt_toLex.1 hlt

/-- The three tables list the entries. -/
structure TablesList (e : Entries) (tables : String → Option ByteArray) : Prop where
  classes : ∃ text : String, tables "classes.txt" = some text.toUTF8 ∧
    ListsInOrder KeyBefore (fun row => e.classes row.1 = some row.2) text
  sources : ∃ text : String, tables "sources.txt" = some text.toUTF8 ∧
    ListsInOrder KeyBefore (fun row => e.sources row.1 = some row.2) text
  edges : ∃ text : String, tables "deps.txt" = some text.toUTF8 ∧
    ListsInOrder PairBefore (· ∈ e.edges) text

theorem Says.tablesList {s : Store} {e : Entries} (h : s.Says e) : TablesList e s.contents := by
  refine ⟨⟨_, rfl, ?_⟩, ⟨_, rfl, ?_⟩, ⟨_, rfl, ?_⟩⟩
  · refine listsInOrder_writeRows (toList_keyBefore _) fun row => ?_
    rw [mem_toList_iff, h.classes]
  · refine listsInOrder_writeRows (toList_keyBefore _) fun row => ?_
    rw [mem_toList_iff, h.sources]
  · refine listsInOrder_writeRows (sortedEdges_pairBefore h.edges) fun e' => ?_
    rw [mem_sortedEdges, h.edges.mem_edges]

/-! ## Saved alike -/

/-- After saving, the tables that stand at the path of the store have these bytes. -/
def SavesAs (s : Store) (tables : String → Option ByteArray) : Prop :=
  ∀ (w w' : World) (k : Location) (name : String),
    Layout w.disk w.cwd (sites s.directory k name) → s.save.on w = (.ok (), w') →
      ∀ table ∈ tableNames, ∃ bytes, tables table = some bytes ∧
        w'.disk.readFile w'.cwd (s.directory.push table) = .ok bytes

theorem savesAs_contents (s : Store) : s.SavesAs s.contents := by
  intro w w' k name layout hsave table htable
  obtain ⟨hsaved, hchecks⟩ := (save_saves s layout).of_ok hsave
  obtain ⟨bytes, hbytes⟩ : ∃ bytes, s.contents table = some bytes := by
    simp only [tableNames, List.mem_cons, List.not_mem_nil, or_false] at htable
    rcases htable with rfl | rfl | rfl <;> exact ⟨_, rfl⟩
  exact ⟨bytes, hbytes, readFile_of_holds hsaved.tree (reaches_of_saved layout hsaved) hsaved.holds
    hchecks htable hbytes⟩

/-- Whatever edits have led to a store, its tables list the entries that the edits leave, one line
each, ascending by the bytes of the keys, and saving puts these tables at the path of the store.
Other edits that leave the same entries lead to a store with the same bytes, and at one path saving
the one or the other is the same on every disk. -/
theorem saved_tables_canonical (edits : List Edit) :
    ∃ tables : String → Option ByteArray, TablesList (entriesAfter edits) tables ∧
      ∀ others : List Edit, entriesAfter others = entriesAfter edits → ∀ directory : Path,
        (edited directory others).SavesAs tables ∧
        (edited directory others).save = (edited directory edits).save := by
  have htells (directory : Path) := says_entriesAfter directory edits
  refine ⟨(edited ⟨""⟩ edits).contents, (htells ⟨""⟩).tablesList, fun others hsame directory => ?_⟩
  have hothers := says_entriesAfter directory others
  rw [hsame] at hothers
  obtain ⟨hsources, hclasses, hedges⟩ := hothers.rows_eq (htells ⟨""⟩)
  obtain ⟨hsources', hclasses', hedges'⟩ := hothers.rows_eq (htells directory)
  constructor
  · have hcontents : (edited directory others).contents = (edited ⟨""⟩ edits).contents := by
      rw [contents, contents, hsources, hclasses, hedges]
    rw [← hcontents]
    exact savesAs_contents _
  · rw [save, save, directory_edited, directory_edited, hsources', hclasses', hedges']

/-- A class that a class refers to is taken away again, and with it the edge. -/
def takenAway : List Edit :=
  [.setClass "B" "/B.java", .setClass "A" "/A.java", .joinClasses (.addEdge "B" "A"),
    .joinClasses (.purge "B"), .dropClass "B"]

theorem entriesAfter_takenAway : entriesAfter takenAway = entriesAfter [.setClass "A" "/A.java"] := by
  have hclasses : (entriesAfter takenAway).classes =
      (entriesAfter [.setClass "A" "/A.java"]).classes := by
    funext className
    by_cases hb : className = "B"
    · subst hb
      decide
    · simp [entriesAfter, takenAway, Edit.applyEntries, Function.update_apply, hb]
  have hedges : (entriesAfter takenAway).edges = (entriesAfter [.setClass "A" "/A.java"]).edges := by
    decide
  exact congrArg₂ (fun c e => (⟨fun _ => none, c, e⟩ : Entries)) hclasses hedges

theorem saved_tables_canonical_takenAway :
    ∃ w₁ w₂, (edited ⟨"/m"⟩ takenAway).save.on nothing = (.ok (), w₁) ∧
      (edited ⟨"/m"⟩ [.setClass "A" "/A.java"]).save.on nothing = (.ok (), w₂) ∧
      ∀ table ∈ tableNames, ∃ bytes,
        w₁.disk.readFile w₁.cwd (Path.push ⟨"/m"⟩ table) = .ok bytes ∧
        w₂.disk.readFile w₂.cwd (Path.push ⟨"/m"⟩ table) = .ok bytes := by
  obtain ⟨tables, -, hsame⟩ := saved_tables_canonical [.setClass "A" "/A.java"]
  obtain ⟨hsaves, hsave⟩ := hsame takenAway entriesAfter_takenAway ⟨"/m"⟩
  have hplain := (hsame _ rfl ⟨"/m"⟩).1
  have hsaved : (((edited ⟨"/m"⟩ takenAway).save.on nothing).1 matches .ok _) = true := by
    decide +kernel
  rcases hon : (edited ⟨"/m"⟩ takenAway).save.on nothing with ⟨f | _, w'⟩
  · rw [hon] at hsaved
    cases hsaved
  · have hon' := hsave ▸ hon
    refine ⟨w', w', rfl, hon', fun table htable => ?_⟩
    obtain ⟨bytes, hbytes, hread⟩ := hsaves nothing w' [] "m" nothing_layout hon table htable
    obtain ⟨bytes', hbytes', hread'⟩ := hplain nothing w' [] "m" nothing_layout hon' table htable
    obtain rfl : bytes = bytes' := Option.some.inj (hbytes.symm.trans hbytes')
    exact ⟨bytes, hread, hread'⟩

end Recompile.Store
