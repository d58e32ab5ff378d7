import Mathlib.Tactic.Common
import Recompile.Build
import Recompile.Proofs.Store.Mutators

/-!
# The update of the store in a partial compilation

A store is exact for the facts recorded last if its edges between known classes are the dependencies
that these facts state. The update forgets the stale classes and records the facts of the batch.

An edge to a class that stays is kept exactly when it does not come from a stale class. So the edge
from a class that was compiled again on account of another class of its source to a class that stays
is lost, although both classes are known afterwards. `exact_updated_iff` says exactly when nothing is
lost.
-/

namespace Recompile

namespace Facts

/-- The facts recorded last, after some more are recorded. -/
def recorded (known : Facts) (facts : List ClassFact) : Facts :=
  facts.foldl (fun known fact => known.insert fact.className fact) known

/-- The classes to which a class refers by the fact recorded last. -/
def dependenciesOf (known : Facts) (className : String) : Names :=
  ((known[className]?).map ClassFact.dependencies).getD ∅

theorem getElem?_recorded (known : Facts) (facts : List ClassFact) (className : String) :
    (known.recorded facts)[className]? =
      (facts.reverse.find? fun fact => fact.className = className).or known[className]? := by
  induction facts generalizing known with
  | nil => simp [recorded]
  | cons fact rest ih =>
    have hstep : known.recorded (fact :: rest) =
        recorded (known.insert fact.className fact) rest := rfl
    rw [hstep, ih, List.reverse_cons, List.find?_append]
    cases rest.reverse.find? fun fact => fact.className = className with
    | some _ => simp
    | none =>
      by_cases h : fact.className = className <;> simp [Std.ExtTreeMap.getElem?_insert, h]

/-- Recording facts about other classes leaves what is known about a class. -/
theorem dependenciesOf_recorded_of_not_mem {known : Facts} {facts : List ClassFact}
    {className : String} (h : ∀ fact ∈ facts, fact.className ≠ className) :
    (known.recorded facts).dependenciesOf className = known.dependenciesOf className := by
  have hnone : (facts.reverse.find? fun fact => fact.className = className) = none := by
    simpa [List.find?_eq_none] using h
  simp [dependenciesOf, getElem?_recorded, hnone]

/-- What is known about a class of a batch is one of the facts of the batch. -/
theorem exists_fact_of_mem {facts : List ClassFact} {fact : ClassFact} (h : fact ∈ facts)
    (known : Facts) :
    ∃ last ∈ facts, last.className = fact.className ∧
      (known.recorded facts).dependenciesOf fact.className = last.dependencies := by
  obtain ⟨last, hlast⟩ : ∃ last,
      (facts.reverse.find? fun f => f.className = fact.className) = some last := by
    rw [← Option.isSome_iff_exists, List.find?_isSome]
    exact ⟨fact, by simpa using h, by simp⟩
  refine ⟨last, by simpa using List.mem_of_find?_eq_some hlast, by simpa using List.find?_some hlast,
    ?_⟩
  simp [dependenciesOf, getElem?_recorded, hlast]

end Facts

namespace Store

/-- The edges between known classes are the dependencies that the facts recorded last state. -/
def Exact (s : Store) (known : Facts) : Prop :=
  ∀ dependent ∈ s.classes, ∀ dependency ∈ s.classes,
    (s.HasEdge dependency dependent ↔ dependency ∈ known.dependenciesOf dependent)

instance (s : Store) (dependency dependent : String) : Decidable (s.HasEdge dependency dependent) :=
  inferInstanceAs (Decidable ((dependency, dependent) ∈ s.dependencies.edges))

instance (s : Store) (known : Facts) : Decidable (s.Exact known) :=
  decidable_of_iff (∀ dependent ∈ s.classes.keys, ∀ dependency ∈ s.classes.keys,
      (s.HasEdge dependency dependent ↔ dependency ∈ known.dependenciesOf dependent)) (by
    simp only [Exact, Std.ExtTreeMap.mem_keys])

end Store

namespace Build

variable {store : Store} {p : Plan} {changes : Changes} {sourceTree : Path} {facts : List ClassFact}

/-- The store after a partial compilation that told these facts. -/
def updated (store : Store) (p : Plan) (changes : Changes) (sourceTree : Path)
    (facts : List ClassFact) : Store :=
  ((strip store p changes.deleted).addSources changes.changed).record sourceTree facts

/-- A known class that is not stale. -/
def Stays (store : Store) (p : Plan) (className : String) : Prop :=
  className ∈ store.classes ∧ className ∉ p.stale

theorem mem_classes_updated (className : String) :
    className ∈ (updated store p changes sourceTree facts).classes ↔
      (∃ fact ∈ facts, fact.className = className) ∨ Stays store p className := by
  rw [updated, Store.mem_classes_record]
  exact or_congr_right (store.mem_classes_deleteClasses p.stale className)

/-- An edge is there after the update if it was there and joins classes that are not stale, or if a
fact of the batch states it and its dependency is known. -/
theorem hasEdge_updated (sound : store.dependencies.Sound) (dependency dependent : String) :
    (updated store p changes sourceTree facts).HasEdge dependency dependent ↔
      (∃ fact ∈ facts, fact.className = dependent ∧ dependency ∈ fact.dependencies ∧
        dependency ∈ (updated store p changes sourceTree facts).classes) ∨
      (store.HasEdge dependency dependent ∧ dependency ∉ p.stale ∧ dependent ∉ p.stale) := by
  rw [updated, Store.hasEdge_record]
  · exact or_congr_right (Store.hasEdge_deleteClasses sound p.stale dependency dependent)
  · exact Store.sound_deleteClasses sound p.stale

theorem mem_stale_plan (store : Store) (changes : Changes) (affected : Names) (className : String) :
    className ∈ (plan store changes affected).stale ↔
      ∃ source, store.classes[className]? = some source ∧
        (source ∈ (plan store changes affected).recompile ∨ source ∈ changes.deleted) := by
  rw [plan, Store.mem_classesOf]
  simp only [Std.ExtTreeSet.mem_union_iff]

section Batch

/-- The batch tells about stale classes and new classes only. -/
def Fresh (store : Store) (p : Plan) (facts : List ClassFact) : Prop :=
  ∀ fact ∈ facts, fact.className ∈ store.classes → fact.className ∈ p.stale

/-- Every dependency that the last fact about a class of the batch states becomes an edge, if it is
known. -/
theorem hasEdge_updated_of_fact (sound : store.dependencies.Sound) {known : Facts}
    {fact : ClassFact} (hfact : fact ∈ facts) {dependency : String}
    (hd : dependency ∈ (updated store p changes sourceTree facts).classes)
    (h : dependency ∈ (known.recorded facts).dependenciesOf fact.className) :
    (updated store p changes sourceTree facts).HasEdge dependency fact.className := by
  obtain ⟨last, hlast, hname, heq⟩ := Facts.exists_fact_of_mem hfact known
  rw [hasEdge_updated sound]
  exact .inl ⟨last, hlast, hname, heq ▸ h, hd⟩

variable (fresh : Fresh store p facts)
include fresh

theorem Fresh.ne_of_stays {className : String} (h : Stays store p className) :
    ∀ fact ∈ facts, fact.className ≠ className := by
  rintro fact hfact rfl
  exact h.2 (fresh fact hfact h.1)

/-- An edge to a class that stays is kept unless it comes from a stale class. -/
theorem Fresh.hasEdge_updated_of_stays (sound : store.dependencies.Sound) {dependent : String}
    (h : Stays store p dependent) (dependency : String) :
    (updated store p changes sourceTree facts).HasEdge dependency dependent ↔
      store.HasEdge dependency dependent ∧ dependency ∉ p.stale := by
  rw [hasEdge_updated sound]
  constructor
  · rintro (⟨fact, hfact, hname, -⟩ | ⟨hedge, hstale, -⟩)
    · exact absurd hname (fresh.ne_of_stays h fact hfact)
    · exact ⟨hedge, hstale⟩
  · rintro ⟨hedge, hstale⟩
    exact .inr ⟨hedge, hstale, h.2⟩

/-- Between two classes that stay, the update changes nothing. -/
theorem Fresh.exact_between_stays (sound : store.dependencies.Sound) {known : Facts}
    (exact : store.Exact known) {dependency dependent : String} (hd : Stays store p dependency)
    (hc : Stays store p dependent) :
    (updated store p changes sourceTree facts).HasEdge dependency dependent ↔
      dependency ∈ (known.recorded facts).dependenciesOf dependent := by
  rw [fresh.hasEdge_updated_of_stays sound hc,
    Facts.dependenciesOf_recorded_of_not_mem (fresh.ne_of_stays hc), ← exact _ hc.1 _ hd.1]
  exact and_iff_left hd.2

/-- The update is exact when two things hold: the classes that stay and refer to a class of the batch
keep an edge from it, and a class of the batch has no other edges than the last fact states. -/
theorem Fresh.exact_updated (sound : store.dependencies.Sound) {known : Facts}
    (exact : store.Exact known) :
    (updated store p changes sourceTree facts).Exact (known.recorded facts) ↔
      (∀ dependent, Stays store p dependent → ∀ fact ∈ facts,
        (store.HasEdge fact.className dependent ∧ fact.className ∉ p.stale ↔
          fact.className ∈ known.dependenciesOf dependent)) ∧
      ∀ fact ∈ facts, ∀ dependency ∈ (updated store p changes sourceTree facts).classes,
        (updated store p changes sourceTree facts).HasEdge dependency fact.className →
          dependency ∈ (known.recorded facts).dependenciesOf fact.className := by
  have known_of_fact : ∀ fact ∈ facts,
      fact.className ∈ (updated store p changes sourceTree facts).classes :=
    fun fact hfact => (mem_classes_updated _).2 (.inl ⟨fact, hfact, rfl⟩)
  constructor
  · intro hexact
    refine ⟨fun dependent hc fact hfact => ?_, fun fact hfact dependency hd =>
      (hexact _ (known_of_fact fact hfact) _ hd).1⟩
    have hiff := hexact _ ((mem_classes_updated _).2 (.inr hc)) _ (known_of_fact fact hfact)
    rwa [fresh.hasEdge_updated_of_stays sound hc,
      Facts.dependenciesOf_recorded_of_not_mem (fresh.ne_of_stays hc)] at hiff
  · rintro ⟨hstay, hbatch⟩ dependent hc dependency hd
    rcases (mem_classes_updated _).1 hc with ⟨fact, hfact, rfl⟩ | hc
    · exact ⟨hbatch fact hfact dependency hd, hasEdge_updated_of_fact sound hfact hd⟩
    · rcases (mem_classes_updated _).1 hd with ⟨fact, hfact, rfl⟩ | hd
      · rw [fresh.hasEdge_updated_of_stays sound hc, hstay dependent hc fact hfact,
          Facts.dependenciesOf_recorded_of_not_mem (fresh.ne_of_stays hc)]
      · exact fresh.exact_between_stays sound exact hd hc

/-- With edges between known classes only, and one fact for each class of the batch, the update is
exact when no class that stays refers to a class of the batch. -/
theorem Fresh.exact_updated_of_closed (sound : store.dependencies.Sound) {known : Facts}
    (exact : store.Exact known) (closed : store.Closed)
    (distinct : (facts.map ClassFact.className).Nodup) :
    (updated store p changes sourceTree facts).Exact (known.recorded facts) ↔
      ∀ dependent, Stays store p dependent → ∀ fact ∈ facts,
        fact.className ∉ known.dependenciesOf dependent := by
  -- An old edge at a class of the batch joins known classes, so that class is stale.
  have stale_of_edge : ∀ fact ∈ facts, ∀ other, (store.HasEdge fact.className other ∨
      store.HasEdge other fact.className) → fact.className ∈ p.stale := by
    rintro fact hfact other (h | h)
    · exact fresh fact hfact (closed _ _ h).1
    · exact fresh fact hfact (closed _ _ h).2
  rw [fresh.exact_updated sound exact]
  constructor
  · rintro ⟨hstay, -⟩ dependent hc fact hfact hrefers
    obtain ⟨hedge, hstale⟩ := (hstay dependent hc fact hfact).2 hrefers
    exact hstale (stale_of_edge fact hfact dependent (.inl hedge))
  · intro h
    refine ⟨fun dependent hc fact hfact => iff_of_false ?_ (h dependent hc fact hfact), ?_⟩
    · rintro ⟨hedge, hstale⟩
      exact hstale (stale_of_edge fact hfact dependent (.inl hedge))
    · intro fact hfact dependency _ hedge
      rw [hasEdge_updated sound] at hedge
      obtain ⟨other, hother, hname, hmem, -⟩ | ⟨hedge, -, hstale⟩ := hedge
      · obtain ⟨last, hlast, hlastname, heq⟩ := Facts.exists_fact_of_mem hfact known
        have hsame : last = other :=
          List.inj_on_of_nodup_map distinct hlast hother (hlastname.trans hname.symm)
        rw [heq, hsame]
        exact hmem
      · exact absurd (stale_of_edge fact hfact dependency (.inr hedge)) hstale

end Batch

/-- When the update of a store in a partial compilation is exact, for any sources that are taken to
be affected. An edge to a class that stays is kept unless it comes from a stale class; nothing brings
it back if that class is recorded again. -/
theorem exact_updated_iff (store : Store) (changes : Changes) (affected : Names) (sourceTree : Path)
    (facts : List ClassFact) (known : Facts) (sound : store.dependencies.Sound)
    (exact : store.Exact known)
    (fresh : ∀ fact ∈ facts, ∀ source, store.classes[fact.className]? = some source →
      source ∈ (plan store changes affected).recompile ∨ source ∈ changes.deleted) :
    let p := plan store changes affected
    let after := updated store p changes sourceTree facts
    (∀ dependent, Stays store p dependent → ∀ dependency,
      (after.HasEdge dependency dependent ↔
        store.HasEdge dependency dependent ∧ dependency ∉ p.stale)) ∧
    (after.Exact (known.recorded facts) ↔
      (∀ dependent, Stays store p dependent → ∀ fact ∈ facts,
        (store.HasEdge fact.className dependent ∧ fact.className ∉ p.stale ↔
          fact.className ∈ known.dependenciesOf dependent)) ∧
      ∀ fact ∈ facts, ∀ dependency ∈ after.classes, after.HasEdge dependency fact.className →
        dependency ∈ (known.recorded facts).dependenciesOf fact.className) ∧
    (store.Closed → (facts.map ClassFact.className).Nodup →
      (after.Exact (known.recorded facts) ↔ ∀ dependent, Stays store p dependent →
        ∀ fact ∈ facts, fact.className ∉ known.dependenciesOf dependent)) := by
  have fresh' : Fresh store (plan store changes affected) facts := by
    intro fact hfact hmem
    obtain ⟨source, hsource⟩ := (Table.mem_iff_exists_getElem? _ _).1 hmem
    exact (mem_stale_plan store changes affected _).2 ⟨source, hsource, fresh fact hfact source hsource⟩
  exact ⟨fun _ hc => fresh'.hasEdge_updated_of_stays sound hc, fresh'.exact_updated sound exact,
    fresh'.exact_updated_of_closed sound exact⟩

/-- One source declares two classes; one of them refers to `Base` and the other is what `User` refers
to. -/
def sharedSourceFacts : List ClassFact :=
  [⟨"Base", ⟨"Base.java"⟩, ∅⟩, ⟨"Derived", ⟨"Pair.java"⟩, .ofList ["Base"]⟩,
    ⟨"Plain", ⟨"Pair.java"⟩, ∅⟩, ⟨"User", ⟨"User.java"⟩, .ofList ["Plain"]⟩]

def sharedSourceStore : Store :=
  (Store.new ⟨"/store"⟩).record ⟨"/src"⟩ sharedSourceFacts

/-- Only the source of `Base` has changed. -/
def baseChanged : Changes := ⟨.ofList [("/src/Base.java", "new")], ∅⟩

/-- What depends on `Base` is in the source of `Derived`, so that `Plain` is compiled again too. -/
def baseAffected : Names := .ofList ["/src/Base.java", "/src/Pair.java"]

theorem sharedSourceStore_sound : sharedSourceStore.dependencies.Sound :=
  Store.sound_record _ Graph.sound_empty _ _

theorem exact_updated_iff_sharedSource :
    ((sharedSourceStore.affectedSources baseChanged.seeds).toOption.map (·.toList) =
      some baseAffected.toList) ∧
    sharedSourceStore.Exact (Facts.ofList sharedSourceFacts) ∧
      ¬ (updated sharedSourceStore (plan sharedSourceStore baseChanged baseAffected) baseChanged
        ⟨"/src"⟩ (sharedSourceFacts.take 3)).Exact
          ((Facts.ofList sharedSourceFacts).recorded (sharedSourceFacts.take 3)) := by
  have exact : sharedSourceStore.Exact (Facts.ofList sharedSourceFacts) := by decide +kernel
  have fresh : ∀ fact ∈ sharedSourceFacts.take 3, ∀ source,
      sharedSourceStore.classes[fact.className]? = some source →
        source ∈ (plan sharedSourceStore baseChanged baseAffected).recompile ∨
          source ∈ baseChanged.deleted := by
    have hall : ∀ fact ∈ sharedSourceFacts.take 3,
        ((sharedSourceStore.classes[fact.className]?).all fun source =>
          (plan sharedSourceStore baseChanged baseAffected).recompile.contains source) := by
      decide +kernel
    intro fact hfact source hsource
    simpa [hsource] using Or.inl (hall fact hfact)
  refine ⟨by decide +kernel, exact, fun h => ?_⟩
  have iff := (exact_updated_iff sharedSourceStore baseChanged baseAffected ⟨"/src"⟩
    (sharedSourceFacts.take 3) (Facts.ofList sharedSourceFacts) sharedSourceStore_sound exact
    fresh).2.1
  have hstays : Stays sharedSourceStore (plan sharedSourceStore baseChanged baseAffected) "User" :=
    ⟨by decide +kernel, by decide +kernel⟩
  have hkept := ((iff.1 h).1 "User" hstays ⟨"Plain", ⟨"Pair.java"⟩, ∅⟩ (by
    simp [sharedSourceFacts])).2 (by decide +kernel)
  exact hkept.2 (by decide +kernel)

end Build

end Recompile
