import Recompile.Proofs.Graph.Purged
import Recompile.Proofs.Store.Mutators
import Recompile.Proofs.Store.RoundTrip

/-!
# Stores that operations lead to

A store begins empty and is changed by recording facts, by deleting classes, by adding and deleting
sources, and by being saved and loaded again. Each operation keeps that edges join known classes only,
so this holds of every store that operations lead to.

Deleting classes goes through them one after the other. The order does not matter, so deleting some
classes and then others comes to the same as deleting all of them.
-/

namespace Recompile.Store

variable {s s' : Store}

/-! ## Deleting classes one by one -/

/-- Forgets one class and every dependency that touches it. -/
def forget (s : Store) (className : String) : Store :=
  { s with classes := s.classes.erase className, dependencies := s.dependencies.purge className }

theorem dependencies_foldl_forget (s : Store) (order : List String) :
    (order.foldl forget s).dependencies = order.foldl Graph.purge s.dependencies := by
  induction order generalizing s with
  | nil => rfl
  | cons className rest ih => exact ih (s.forget className)

theorem getElem?_classes_foldl_forget (s : Store) (order : List String) (className : String) :
    (order.foldl forget s).classes[className]? =
      if className ∈ order then none else s.classes[className]? := by
  induction order generalizing s with
  | nil => simp
  | cons first rest ih =>
    rw [List.foldl_cons, ih, forget, Std.ExtTreeMap.getElem?_erase]
    by_cases hrest : className ∈ rest
    · simp [hrest]
    · by_cases hfirst : first = className
      · simp [hrest, hfirst]
      · simp [hrest, hfirst, Ne.symm hfirst]

theorem foldl_forget_eq (s : Store) (order : List String) :
    order.foldl forget s = ⟨s.directory, s.sources, (order.foldl forget s).classes,
      order.foldl Graph.purge s.dependencies⟩ := by
  rw [← dependencies_foldl_forget]
  induction order generalizing s with
  | nil => rfl
  | cons className rest ih => exact ih (s.forget className)

/-- In whatever order the classes are gone through, the same store is left. -/
theorem foldl_forget_eq_deleteClasses (sound : s.dependencies.Sound) {gone : Names}
    (order : List String) (horder : ∀ className, className ∈ order ↔ className ∈ gone) :
    order.foldl forget s = s.deleteClasses gone := by
  have hclasses : (order.foldl forget s).classes = (s.deleteClasses gone).classes := by
    refine Std.ExtTreeMap.ext_getElem? fun className => ?_
    rw [getElem?_classes_foldl_forget, getElem?_classes_deleteClasses]
    simp only [horder]
  have hedges : order.foldl Graph.purge s.dependencies = (s.deleteClasses gone).dependencies :=
    sound.foldl_purge_congr fun className => by rw [horder, Std.ExtTreeSet.mem_toList]
  rw [foldl_forget_eq, hclasses, hedges]
  rfl

theorem deleteClasses_deleteClasses (sound : s.dependencies.Sound) (gone more : Names) :
    (s.deleteClasses gone).deleteClasses more = s.deleteClasses (gone ∪ more) := by
  rw [← foldl_forget_eq_deleteClasses (sound_deleteClasses sound gone) more.toList
      fun _ => Std.ExtTreeSet.mem_toList,
    ← foldl_forget_eq_deleteClasses sound gone.toList fun _ => Std.ExtTreeSet.mem_toList,
    ← List.foldl_append]
  refine foldl_forget_eq_deleteClasses sound _ fun className => ?_
  rw [List.mem_append, Std.ExtTreeSet.mem_toList, Std.ExtTreeSet.mem_toList,
    Std.ExtTreeSet.mem_union_iff]

/-! ## Edges between known classes -/

/-- Each class with its source and each edge is read back as it is written. -/
structure HasPlainNames (s : Store) : Prop where
  classes : ∀ row ∈ s.classes.toList, ReadsBack .first row
  edges : ∀ e ∈ s.dependencies.edges, ReadsBack .first e

/-- One operation leads from a store to another. A store is saved to a place that its path reaches
by names, without going through it or where it is staged. -/
inductive Operation (s : Store) : Store → Prop
  | record (sourceTree : Path) (facts : List ClassFact) : Operation s (s.record sourceTree facts)
  | deleteClasses (gone : Names) : Operation s (s.deleteClasses gone)
  | addSources (digests : Table) : Operation s (s.addSources digests)
  | deleteSources (gone : Names) : Operation s (s.deleteSources gone)
  | reload {s' : Store} {w w' w'' : World} {k : Location} {name : String} (plain : s.HasPlainNames)
    (layout : Disk.Layout w.disk w.cwd (sites s.directory k name))
    (saved : s.save.on w = (.ok (), w'))
    (loaded : (load s.directory).on w' = (.ok s', w'')) : Operation s s'

/-- A store that operations lead to from an empty one. -/
def Reached (directory : Path) : Store → Prop := Relation.ReflTransGen Operation (new directory)

/-- Recording adds edges between known classes only: the dependency is looked up, and the class of
the fact was recorded before. -/
theorem Closed.record (closed : s.Closed) (sound : s.dependencies.Sound) (sourceTree : Path)
    (facts : List ClassFact) : (s.record sourceTree facts).Closed := by
  intro dependency dependent hedge
  rw [hasEdge_record _ sound] at hedge
  obtain ⟨fact, hfact, rfl, -, hknown⟩ | hedge := hedge
  · exact ⟨hknown, (mem_classes_record ..).2 (.inl ⟨fact, hfact, rfl⟩)⟩
  · obtain ⟨hdependency, hdependent⟩ := closed _ _ hedge
    exact ⟨(mem_classes_record ..).2 (.inr hdependency), (mem_classes_record ..).2 (.inr hdependent)⟩

theorem Closed.deleteClasses (closed : s.Closed) (sound : s.dependencies.Sound) (gone : Names) :
    (s.deleteClasses gone).Closed := by
  intro dependency dependent hedge
  obtain ⟨hedge, hdependency, hdependent⟩ := (hasEdge_deleteClasses sound gone _ _).1 hedge
  obtain ⟨hknown, hknown'⟩ := closed _ _ hedge
  exact ⟨(s.mem_classes_deleteClasses gone _).2 ⟨hknown, hdependency⟩,
    (s.mem_classes_deleteClasses gone _).2 ⟨hknown', hdependent⟩⟩

/-- A store whose names the tables can represent has the same classes and edges when it is loaded
again. Its sources do not matter to that. -/
theorem HasPlainNames.of_reload {w w' w'' : World} {k : Location} {name : String}
    (plain : s.HasPlainNames) (layout : Disk.Layout w.disk w.cwd (sites s.directory k name))
    (hsave : s.save.on w = (.ok (), w')) (hload : (load s.directory).on w' = (.ok s', w'')) :
    s'.classes = s.classes ∧ s'.dependencies.Sound ∧
      ∀ e, e ∈ s'.dependencies.edges ↔ e ∈ s.dependencies.edges := by
  obtain ⟨hsaved, hchecks⟩ := (save_saves s layout).of_ok hsave
  obtain ⟨-, cs, ss, es, hcs, -, hes, rfl⟩ :=
    (on_load_of_holds hsaved.tree (reaches_of_saved layout hsaved) hsaved.holds hchecks).1 hload
  obtain ⟨cs', hcs', hclasses⟩ := (exists_ofRows_iff s.classes).2 plain.classes
  obtain ⟨es', hes', hedges⟩ := (exists_ofEdges_iff s.dependencies).2 plain.edges
  obtain rfl := Except.ok.inj (hcs.symm.trans hcs')
  obtain rfl := Except.ok.inj (hes.symm.trans hes')
  exact ⟨hclasses, sound_ofEdges es, hedges⟩

theorem Operation.closed (h : Operation s s') (sound : s.dependencies.Sound) (closed : s.Closed) :
    s'.dependencies.Sound ∧ s'.Closed := by
  cases h with
  | record sourceTree facts => exact ⟨s.sound_record sound _ _, closed.record sound _ _⟩
  | deleteClasses gone => exact ⟨sound_deleteClasses sound gone, closed.deleteClasses sound gone⟩
  | addSources digests => exact ⟨sound, closed⟩
  | deleteSources gone => exact ⟨sound, closed⟩
  | reload plain layout hsave hload =>
    obtain ⟨hclasses, sound', hedges⟩ := plain.of_reload layout hsave hload
    refine ⟨sound', fun dependency dependent hedge => ?_⟩
    rw [hclasses]
    exact closed _ _ ((hedges _).1 hedge)

theorem Reached.closed {directory : Path} (h : Reached directory s) :
    s.dependencies.Sound ∧ s.Closed := by
  induction h with
  | refl => exact ⟨Graph.sound_empty, by simp [Closed, HasEdge, new]⟩
  | tail _ hstep ih => exact hstep.closed ih.1 ih.2

/-- What is left of a store when classes are deleted. -/
structure Without (s : Store) (gone : Names) (s' : Store) : Prop where
  directory : s'.directory = s.directory
  sources : s'.sources = s.sources
  classes : ∀ className, s'.classes[className]? =
    if className ∈ gone then none else s.classes[className]?
  hasEdge : ∀ dependency dependent, s'.HasEdge dependency dependent ↔
    s.HasEdge dependency dependent ∧ dependency ∉ gone ∧ dependent ∉ gone

theorem without_deleteClasses (sound : s.dependencies.Sound) (gone : Names) :
    s.Without gone (s.deleteClasses gone) where
  directory := rfl
  sources := rfl
  classes := s.getElem?_classes_deleteClasses gone
  hasEdge := hasEdge_deleteClasses sound gone

/-- In every store that operations lead to, edges join known classes only. Deleting classes takes away
exactly them and the edges that touch them, in whatever order they are gone through, so deleting some
and then others is deleting all of them. -/
theorem reached_closed {directory : Path} {s : Store} (h : Reached directory s) :
    s.Closed ∧ ∀ gone : Names, s.Without gone (s.deleteClasses gone) ∧
      (∀ order : List String, (∀ className, className ∈ order ↔ className ∈ gone) →
        order.foldl forget s = s.deleteClasses gone) ∧
      ∀ more : Names, (s.deleteClasses gone).deleteClasses more = s.deleteClasses (gone ∪ more) := by
  obtain ⟨sound, closed⟩ := h.closed
  exact ⟨closed, fun gone => ⟨without_deleteClasses sound gone,
    foldl_forget_eq_deleteClasses sound, deleteClasses_deleteClasses sound gone⟩⟩

/-- Two classes, one of which refers to the other. -/
def pairFacts : List ClassFact :=
  [⟨"A", ⟨"A.java"⟩, .ofList ["B"]⟩, ⟨"B", ⟨"B.java"⟩, ∅⟩]

def pairStore : Store := (new ⟨"/m"⟩).record ⟨"/src"⟩ pairFacts

theorem pairStore_hasPlainNames : pairStore.HasPlainNames := ⟨by decide, by decide⟩

/-- The store of two classes is saved and loaded again, and then loses one of them. -/
theorem reached_closed_reload :
    ∃ s, Reached ⟨"/m"⟩ s ∧ s.Closed ∧ s.HasEdge "B" "A" ∧
      (s.deleteClasses (.ofList ["B"])).Closed ∧
      ["B", "B"].foldl forget s = s.deleteClasses (.ofList ["B"]) := by
  have hsaved : ((pairStore.save.on nothing).1 matches .ok _) = true := by decide +kernel
  have hloaded : (((load ⟨"/m"⟩).on (pairStore.save.on nothing).2).1 matches .ok _) = true := by
    decide +kernel
  have plain := pairStore_hasPlainNames
  rcases hsave : pairStore.save.on nothing with ⟨f | _, w'⟩
  · rw [hsave] at hsaved
    cases hsaved
  · rcases hload : (load ⟨"/m"⟩).on w' with ⟨f | s, w''⟩
    · rw [hsave, hload] at hloaded
      cases hloaded
    · have hreached : Reached ⟨"/m"⟩ s :=
        .tail (.single (.record _ _)) (.reload plain nothing_layout hsave hload)
      have hdeleted : Reached ⟨"/m"⟩ (s.deleteClasses (.ofList ["B"])) :=
        hreached.tail (.deleteClasses _)
      have hedge : s.HasEdge "B" "A" :=
        ((plain.of_reload nothing_layout hsave hload).2.2 ("B", "A")).2 (by decide)
      have horder : ∀ className, className ∈ ["B", "B"] ↔
          className ∈ (.ofList ["B"] : Names) := by
        intro className
        simp only [Std.ExtTreeSet.mem_ofList, List.contains_iff_mem, List.mem_cons, or_self,
          List.not_mem_nil, or_false]
      exact ⟨s, hreached, (reached_closed hreached).1, hedge, (reached_closed hdeleted).1,
        ((reached_closed hreached).2 _).2.1 _ horder⟩

/-- A disk with something left where a store is staged: the table of the edges is a link to the one
of the classes. -/
def linkedEdges : World :=
  .start ⟨[(["m.tmp"], .directory), (["m.tmp", "deps.txt"], .link ⟨"classes.txt"⟩)], by decide⟩ [] ∅

/-- The path of this store goes up from a directory that is missing. -/
def pairThroughMissing : Store := (new ⟨"x/../m"⟩).record ⟨"/src"⟩ pairFacts

/-- If the path of a store goes up from a directory that saving makes, what is left where the store is
staged is written through, and the store that is loaded has an edge to an unknown class. -/
theorem not_closed_of_reload_aside :
    Reached ⟨"x/../m"⟩ pairThroughMissing ∧ pairThroughMissing.IsReadable ∧
      ∃ w' s' w'', pairThroughMissing.save.on linkedEdges = (.ok (), w') ∧
        (load pairThroughMissing.directory).on w' = (.ok s', w'') ∧ ¬s'.Closed := by
  have hsaved : ((pairThroughMissing.save.on linkedEdges).1 matches .ok _) = true := by
    decide +kernel
  have hloaded : (match ((load ⟨"x/../m"⟩).on (pairThroughMissing.save.on linkedEdges).2).1 with
      | .ok s => s.dependencies.edges.contains ("B", "A") && !s.classes.contains "A"
      | .error _ => false) = true := by decide +kernel
  refine ⟨.single (.record _ _), by decide, ?_⟩
  rcases hsave : pairThroughMissing.save.on linkedEdges with ⟨f | _, w'⟩
  · rw [hsave] at hsaved
    cases hsaved
  · rcases hload : (load ⟨"x/../m"⟩).on w' with ⟨f | s', w''⟩
    · rw [hsave, hload] at hloaded
      cases hloaded
    · rw [hsave, hload] at hloaded
      simp only [Bool.and_eq_true, List.contains_iff_mem, Bool.not_eq_true',
        ← Bool.not_eq_true, Std.ExtTreeMap.contains_iff_mem] at hloaded
      exact ⟨w', s', w'', rfl, hload, fun closed => hloaded.2 (closed "B" "A" hloaded.1).2⟩

end Recompile.Store
