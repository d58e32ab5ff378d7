import Recompile.Proofs.Graph.Edges
import Recompile.Store.Basic

/-!
# What the operations of a store do

Each operation is described by the three tables of the store: the digest of a source, the source of
a class, and the pairs of a class and a class that refers to it. `deleteClasses` takes away exactly
the edges that touch a deleted class, and `record` adds exactly the edges from known classes to the
classes of the facts, in whatever order the facts stand.
-/

namespace Recompile

theorem Table.mem_iff_exists_getElem? (t : Table) (key : String) :
    key ∈ t ↔ ∃ value, t[key]? = some value := by
  rw [← Option.isSome_iff_exists, ← Std.ExtTreeMap.mem_iff_isSome_getElem?]

@[simp] theorem Names.contains_eq_false_iff (names : Names) (name : String) :
    names.contains name = false ↔ name ∉ names := by
  rw [← Bool.not_eq_true, Std.ExtTreeSet.contains_iff_mem]

namespace Store

variable (s : Store)

/-- The store knows the class `dependent` to refer to the class `dependency`. -/
def HasEdge (dependency dependent : String) : Prop := (dependency, dependent) ∈ s.dependencies.edges

/-- Edges join known classes only. -/
def Closed : Prop :=
  ∀ dependency dependent, s.HasEdge dependency dependent →
    dependency ∈ s.classes ∧ dependent ∈ s.classes

/-! ## Forgetting -/

theorem getElem?_classes_deleteClasses (gone : Names) (className : String) :
    (s.deleteClasses gone).classes[className]? =
      if className ∈ gone then none else s.classes[className]? := by
  rw [deleteClasses, Std.ExtTreeMap.getElem?_filter']
  by_cases h : className ∈ gone <;> cases s.classes[className]? <;> simp [h]

theorem mem_classes_deleteClasses (gone : Names) (className : String) :
    className ∈ (s.deleteClasses gone).classes ↔ className ∈ s.classes ∧ className ∉ gone := by
  simp only [Table.mem_iff_exists_getElem?, getElem?_classes_deleteClasses]
  by_cases h : className ∈ gone <;> simp [h]

theorem sound_deleteClasses {s : Store} (sound : s.dependencies.Sound) (gone : Names) :
    (s.deleteClasses gone).dependencies.Sound :=
  sound.foldl_purge gone.toList

theorem hasEdge_deleteClasses {s : Store} (sound : s.dependencies.Sound) (gone : Names)
    (dependency dependent : String) :
    (s.deleteClasses gone).HasEdge dependency dependent ↔
      s.HasEdge dependency dependent ∧ dependency ∉ gone ∧ dependent ∉ gone := by
  rw [HasEdge, deleteClasses, sound.mem_edges_foldl_purge]
  simp [HasEdge]

theorem getElem?_sources_deleteSources (gone : Names) (source : String) :
    (s.deleteSources gone).sources[source]? = if source ∈ gone then none else s.sources[source]? := by
  rw [deleteSources, Std.ExtTreeMap.getElem?_filter']
  by_cases h : source ∈ gone <;> cases s.sources[source]? <;> simp [h]

theorem getElem?_sources_addSources (digests : Table) (source : String) :
    (s.addSources digests).sources[source]? = (digests[source]?).or s.sources[source]? :=
  Std.ExtTreeMap.getElem?_union

/-! ## Recording -/

section Record

variable (sourceTree : Path) (facts : List ClassFact)

/-- The classes after recording facts: of two facts about one class the later one counts. -/
theorem getElem?_foldl_recordSource (classes : Table) (className : String) :
    (facts.foldl (recordSource sourceTree) classes)[className]? =
      ((facts.reverse.find? fun fact => fact.className = className).map fun fact =>
        (sourceTree.join fact.source).text).or classes[className]? := by
  induction facts generalizing classes with
  | nil => simp
  | cons fact rest ih =>
    rw [List.foldl_cons, ih, List.reverse_cons, List.find?_append]
    cases rest.reverse.find? fun fact => fact.className = className with
    | some _ => simp
    | none =>
      by_cases h : fact.className = className <;>
        simp [recordSource, Std.ExtTreeMap.getElem?_insert, h]

theorem getElem?_classes_record (className : String) :
    (s.record sourceTree facts).classes[className]? =
      ((facts.reverse.find? fun fact => fact.className = className).map fun fact =>
        (sourceTree.join fact.source).text).or s.classes[className]? :=
  getElem?_foldl_recordSource sourceTree facts s.classes className

theorem mem_classes_record (className : String) :
    className ∈ (s.record sourceTree facts).classes ↔
      (∃ fact ∈ facts, fact.className = className) ∨ className ∈ s.classes := by
  simp only [Table.mem_iff_exists_getElem?, getElem?_classes_record]
  cases h : facts.reverse.find? fun fact => fact.className = className with
  | none =>
    have hnone : ¬ ∃ fact ∈ facts, fact.className = className := by
      simpa [List.find?_eq_none] using h
    simp [hnone]
  | some fact =>
    have hmem := List.mem_of_find?_eq_some h
    have hname := List.find?_some h
    simp only [List.mem_reverse, decide_eq_true_eq] at hmem hname
    have hsome : ∃ fact ∈ facts, fact.className = className := ⟨fact, hmem, hname⟩
    simp [hsome]

@[simp] theorem sources_record : (s.record sourceTree facts).sources = s.sources := rfl

variable {sourceTree facts}

/-- One fact adds the edges from its known dependencies to its class. -/
theorem sound_addEdges {g : Graph} (sound : g.Sound) (names : List String) (className : String) :
    (names.foldl (fun g name => g.addEdge name className) g).Sound := by
  induction names generalizing g with
  | nil => exact sound
  | cons name rest ih => exact ih (sound.addEdge name className)

theorem mem_edges_addEdges {g : Graph} (sound : g.Sound) (names : List String)
    (className a b : String) :
    (a, b) ∈ (names.foldl (fun g name => g.addEdge name className) g).edges ↔
      (a ∈ names ∧ b = className) ∨ (a, b) ∈ g.edges := by
  induction names generalizing g with
  | nil => simp
  | cons name rest ih =>
    rw [List.foldl_cons, ih (sound.addEdge name className), sound.mem_edges_addEdge]
    simp only [List.mem_cons]
    tauto

theorem sound_recordDependencies {g : Graph} (sound : g.Sound) (classes : Table)
    (fact : ClassFact) : (recordDependencies classes g fact).Sound :=
  sound_addEdges sound _ fact.className

theorem sound_foldl_recordDependencies {g : Graph} (sound : g.Sound) (classes : Table)
    (facts : List ClassFact) : (facts.foldl (recordDependencies classes) g).Sound := by
  induction facts generalizing g with
  | nil => exact sound
  | cons fact rest ih => exact ih (sound_recordDependencies sound classes fact)

theorem mem_edges_foldl_recordDependencies {g : Graph} (sound : g.Sound) (classes : Table)
    (facts : List ClassFact) (a b : String) :
    (a, b) ∈ (facts.foldl (recordDependencies classes) g).edges ↔
      (∃ fact ∈ facts, fact.className = b ∧ a ∈ fact.dependencies ∧ a ∈ classes) ∨
        (a, b) ∈ g.edges := by
  induction facts generalizing g with
  | nil => simp
  | cons fact rest ih =>
    rw [List.foldl_cons, ih (sound_recordDependencies sound classes fact), recordDependencies,
      mem_edges_addEdges sound]
    simp only [List.mem_filter, Std.ExtTreeSet.mem_toList, Std.ExtTreeMap.contains_iff_mem,
      List.exists_mem_cons_iff, eq_comm (a := b)]
    grind

theorem sound_record (sound : s.dependencies.Sound) (sourceTree : Path) (facts : List ClassFact) :
    (s.record sourceTree facts).dependencies.Sound :=
  sound_foldl_recordDependencies sound _ facts

theorem hasEdge_record (sound : s.dependencies.Sound) (sourceTree : Path) (facts : List ClassFact)
    (dependency dependent : String) :
    (s.record sourceTree facts).HasEdge dependency dependent ↔
      (∃ fact ∈ facts, fact.className = dependent ∧ dependency ∈ fact.dependencies ∧
        dependency ∈ (s.record sourceTree facts).classes) ∨ s.HasEdge dependency dependent :=
  mem_edges_foldl_recordDependencies sound _ facts dependency dependent

end Record

/-! ## Classes by source -/

theorem mem_classesOf (sources : Names) (className : String) :
    className ∈ s.classesOf sources ↔
      ∃ source, s.classes[className]? = some source ∧ source ∈ sources := by
  simp only [classesOf, Std.ExtTreeSet.mem_ofList, List.contains_iff_mem, Std.ExtTreeMap.mem_keys,
    Table.mem_iff_exists_getElem?, Std.ExtTreeMap.getElem?_filter', Option.filter_eq_some_iff,
    Std.ExtTreeSet.contains_iff_mem]

end Store

end Recompile
