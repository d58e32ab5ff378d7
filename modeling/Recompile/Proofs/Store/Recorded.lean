import Recompile.Proofs.Graph.Views
import Recompile.Proofs.Store.Mutators

/-!
# Recording the facts of a compilation

Recording gives each class of the facts the source that its last fact tells, and adds exactly the
dependencies on classes that are known afterwards. All classes are known before the first dependency
is recorded, so the order of the facts can only matter to the source of a class with several facts.
-/

namespace Recompile.Store

variable {s : Store} {sourceTree : Path} {facts facts' : List ClassFact}

theorem getElem?_classes_record_of_last {earlier later : List ClassFact} {fact : ClassFact}
    (hlast : ∀ other ∈ later, other.className ≠ fact.className) :
    (s.record sourceTree (earlier ++ fact :: later)).classes[fact.className]? =
      some (sourceTree.join fact.source).text := by
  have hlater : (later.reverse.find? fun other => other.className = fact.className) = none := by
    simpa [List.find?_eq_none] using hlast
  rw [getElem?_classes_record, List.reverse_append, List.reverse_cons, List.append_assoc,
    List.find?_append, hlater]
  simp

theorem getElem?_classes_record_of_no_fact {className : String}
    (h : ∀ fact ∈ facts, fact.className ≠ className) :
    (s.record sourceTree facts).classes[className]? = s.classes[className]? := by
  have hnone : (facts.reverse.find? fun fact => fact.className = className) = none := by
    simpa [List.find?_eq_none] using h
  rw [getElem?_classes_record, hnone]
  rfl

/-- What recording the facts makes of a store. -/
structure Recorded (s : Store) (sourceTree : Path) (facts : List ClassFact) (s' : Store) :
    Prop where
  directory : s'.directory = s.directory
  sources : s'.sources = s.sources
  /-- The last fact about a class tells its source. -/
  told : ∀ earlier fact later, facts = earlier ++ fact :: later →
    (∀ other ∈ later, other.className ≠ fact.className) →
      s'.classes[fact.className]? = some (sourceTree.join fact.source).text
  untold : ∀ className, (∀ fact ∈ facts, fact.className ≠ className) →
    s'.classes[className]? = s.classes[className]?
  hasEdge : ∀ dependency dependent, s'.HasEdge dependency dependent ↔
    s.HasEdge dependency dependent ∨ ∃ fact ∈ facts, fact.className = dependent ∧
      dependency ∈ fact.dependencies ∧ dependency ∈ s'.classes

theorem recorded_record (sound : s.dependencies.Sound) :
    s.Recorded sourceTree facts (s.record sourceTree facts) where
  directory := rfl
  sources := rfl
  told _ _ _ heq hlast := heq ▸ getElem?_classes_record_of_last hlast
  untold _ h := getElem?_classes_record_of_no_fact h
  hasEdge _ _ := (s.hasEdge_record sound sourceTree facts _ _).trans or_comm

/-! ## The order of the facts -/

theorem mem_classes_record_perm (h : facts.Perm facts') (className : String) :
    className ∈ (s.record sourceTree facts').classes ↔
      className ∈ (s.record sourceTree facts).classes := by
  rw [mem_classes_record, mem_classes_record]
  simp only [h.mem_iff]

/-- In whatever order the facts stand, the same edges are recorded. -/
theorem sameViews_record_perm (sound : s.dependencies.Sound) (h : facts.Perm facts') :
    Graph.SameViews (s.record sourceTree facts').dependencies
      (s.record sourceTree facts).dependencies := by
  have hedges : ∀ e, e ∈ (s.record sourceTree facts').dependencies.edges ↔
      e ∈ (s.record sourceTree facts).dependencies.edges := by
    rintro ⟨dependency, dependent⟩
    have hedge := s.hasEdge_record sound sourceTree facts dependency dependent
    have hedge' := s.hasEdge_record sound sourceTree facts' dependency dependent
    rw [mem_classes_record_perm h] at hedge'
    simp only [← h.mem_iff, ← hedge] at hedge'
    exact hedge'
  have refines : (s.record sourceTree facts).dependencies.Refines
      (s.record sourceTree facts).dependencies.edges.toFinset :=
    ⟨s.sound_record sound sourceTree facts, fun _ => List.mem_toFinset.symm⟩
  have refines' : (s.record sourceTree facts').dependencies.Refines
      (s.record sourceTree facts).dependencies.edges.toFinset :=
    ⟨s.sound_record sound sourceTree facts', fun e => by rw [hedges, List.mem_toFinset]⟩
  exact refines'.sameViews refines

/-- With one fact for each class, every fact tells the source of its class. -/
theorem getElem?_classes_record_of_mem (distinct : (facts.map ClassFact.className).Nodup)
    {fact : ClassFact} (hfact : fact ∈ facts) :
    (s.record sourceTree facts).classes[fact.className]? =
      some (sourceTree.join fact.source).text := by
  obtain ⟨earlier, later, rfl⟩ := List.append_of_mem hfact
  refine getElem?_classes_record_of_last fun other hother heq => ?_
  rw [List.map_append, List.map_cons, List.nodup_append, List.nodup_cons] at distinct
  exact distinct.2.1.1 (List.mem_map.2 ⟨other, hother, heq⟩)

theorem classes_record_perm (distinct : (facts.map ClassFact.className).Nodup)
    (h : facts.Perm facts') :
    (s.record sourceTree facts').classes = (s.record sourceTree facts).classes := by
  have distinct' : (facts'.map ClassFact.className).Nodup :=
    (h.map ClassFact.className).nodup_iff.1 distinct
  refine Std.ExtTreeMap.ext_getElem? fun className => ?_
  by_cases hfact : ∃ fact ∈ facts, fact.className = className
  · obtain ⟨fact, hfact, rfl⟩ := hfact
    rw [getElem?_classes_record_of_mem distinct hfact,
      getElem?_classes_record_of_mem distinct' (h.mem_iff.1 hfact)]
  · push Not at hfact
    have hfact' : ∀ fact ∈ facts', fact.className ≠ className := fun fact hmem =>
      hfact fact (h.mem_iff.2 hmem)
    rw [getElem?_classes_record_of_no_fact hfact, getElem?_classes_record_of_no_fact hfact']

/-- Recording is exact for every store and every list of facts, and no order of the facts gives other
edges. With one fact for each class, no order gives other sources of the classes either. -/
theorem record_exactly (directory : Path) (sources classes : Table) (history : List Graph.Change)
    (sourceTree : Path) (facts : List ClassFact) :
    let s : Store := ⟨directory, sources, classes, Graph.after history⟩
    s.Recorded sourceTree facts (s.record sourceTree facts) ∧
    ∀ facts' : List ClassFact, facts.Perm facts' →
      Graph.SameViews (s.record sourceTree facts').dependencies
        (s.record sourceTree facts).dependencies ∧
      ((facts.map ClassFact.className).Nodup →
        (s.record sourceTree facts').classes = (s.record sourceTree facts).classes) := by
  intro s
  have sound : s.dependencies.Sound := (Graph.refines_after history).sound
  refine ⟨recorded_record sound, fun facts' h => ⟨sameViews_record_perm sound h, fun distinct => ?_⟩⟩
  exact classes_record_perm distinct h

/-- Two classes that refer to each other; one also refers to itself, to a class that was known before
and to one that is not of the tree. -/
def mutualFacts : List ClassFact :=
  [⟨"A", ⟨"A.java"⟩, .ofList ["A", "B", "Old", "lib.L"]⟩, ⟨"B", ⟨"B.java"⟩, .ofList ["A"]⟩]

/-- A store that knows one class. -/
def oldClass : Store :=
  ⟨⟨"/store"⟩, ∅, {("Old", "/src/Old.java")}, Graph.after [.addEdge "Old" "Old"]⟩

theorem record_exactly_mutual :
    (oldClass.record ⟨"/src"⟩ mutualFacts.reverse).classes =
      (oldClass.record ⟨"/src"⟩ mutualFacts).classes ∧
    (oldClass.record ⟨"/src"⟩ mutualFacts.reverse).dependencies.sortedEdges =
      (oldClass.record ⟨"/src"⟩ mutualFacts).dependencies.sortedEdges ∧
    (oldClass.record ⟨"/src"⟩ mutualFacts).dependencies.edges =
      [("Old", "A"), ("Old", "Old"), ("A", "B"), ("A", "A"), ("B", "A")] := by
  have hperm := (record_exactly ⟨"/store"⟩ ∅ {("Old", "/src/Old.java")} [.addEdge "Old" "Old"]
    ⟨"/src"⟩ mutualFacts).2 mutualFacts.reverse (List.reverse_perm _).symm
  exact ⟨hperm.2 (by decide), hperm.1.sortedEdges_eq, by decide⟩

end Recompile.Store
