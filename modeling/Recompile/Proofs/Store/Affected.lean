import Recompile.Proofs.Graph.Closure
import Recompile.Proofs.Store.Mutators

/-!
# Which sources are affected

A class is touched by some sources if steps from a class to a known class that refers to it lead
there from a class of one of these sources. The affected sources are exactly the sources of the
touched classes. They are always found: a touched class is known, so it has a source.
-/

namespace Recompile.Store

variable {s : Store} {changed : Names}

/-- The class `dependent` is known and refers to the class `dependency`. -/
def LiveStep (s : Store) (dependency dependent : String) : Prop :=
  s.HasEdge dependency dependent ∧ dependent ∈ s.classes

/-- The class is reached through known classes from a class of one of the sources. -/
def Touched (s : Store) (changed : Names) (className : String) : Prop :=
  ∃ seed source, s.classes[seed]? = some source ∧ source ∈ changed ∧
    Relation.ReflTransGen s.LiveStep seed className

theorem Touched.known {className : String} (h : s.Touched changed className) :
    className ∈ s.classes := by
  obtain ⟨seed, source, hsource, -, hpath⟩ := h
  cases hpath with
  | refl => exact (Table.mem_iff_exists_getElem? _ _).2 ⟨source, hsource⟩
  | tail _ hstep => exact hstep.2

/-- A class of one of the sources is touched by them. -/
theorem touched_of_source {className source : String} (h : s.classes[className]? = some source)
    (hchanged : source ∈ changed) : s.Touched changed className :=
  ⟨className, source, h, hchanged, .refl⟩

/-- What a class of a touched class is referred to by is touched too, as far as it is known. -/
theorem Touched.step {dependency dependent : String} (h : s.Touched changed dependency)
    (hstep : s.LiveStep dependency dependent) : s.Touched changed dependent := by
  obtain ⟨seed, source, hsource, hchanged, hpath⟩ := h
  exact ⟨seed, source, hsource, hchanged, hpath.tail hstep⟩

theorem mem_affectedClasses (sound : s.dependencies.Sound) (className : String) :
    className ∈ s.affectedClasses changed ↔ s.Touched changed className := by
  have refines : s.dependencies.Refines s.dependencies.edges.toFinset :=
    ⟨sound, fun _ => List.mem_toFinset.symm⟩
  have hstep : Graph.LiveEdge s.dependencies.edges.toFinset (fun name => s.classes.contains name) =
      s.LiveStep := by
    funext dependency dependent
    simp [Graph.LiveEdge, LiveStep, HasEdge]
  rw [affectedClasses, refines.mem_closure_iff, hstep]
  simp only [Std.ExtTreeSet.mem_toList, mem_classesOf]
  constructor
  · rintro ⟨seed, ⟨source, hsource, hchanged⟩, hpath⟩
    exact ⟨seed, source, hsource, hchanged, hpath⟩
  · rintro ⟨seed, source, hsource, hchanged, hpath⟩
    exact ⟨seed, ⟨source, hsource, hchanged⟩, hpath⟩

/-- Looking up the sources of known classes does not fail. -/
theorem mapM_sourceOf {names : List String} (hknown : ∀ name ∈ names, name ∈ s.classes) :
    ∃ sources, names.mapM s.sourceOf = .ok sources ∧
      ∀ source, source ∈ sources ↔ ∃ name ∈ names, s.classes[name]? = some source := by
  induction names with
  | nil => exact ⟨[], rfl, by simp⟩
  | cons name rest ih =>
    obtain ⟨sources, hrest, hmem⟩ := ih fun other h => hknown other (List.mem_cons_of_mem name h)
    obtain ⟨first, hfirst⟩ :=
      (Table.mem_iff_exists_getElem? _ _).1 (hknown name List.mem_cons_self)
    refine ⟨first :: sources, ?_, fun source => ?_⟩
    · rw [List.mapM_cons, hrest]
      simp only [sourceOf, hfirst]
      rfl
    · rw [List.mem_cons, hmem, List.exists_mem_cons_iff, hfirst, Option.some.injEq, eq_comm]

/-- The affected sources are found, and they are the sources of the touched classes. -/
theorem affectedSources_eq_ok (sound : s.dependencies.Sound) (changed : Names) :
    ∃ affected, s.affectedSources changed = .ok affected ∧
      ∀ source, source ∈ affected ↔
        ∃ className, s.Touched changed className ∧ s.classes[className]? = some source := by
  have hknown : ∀ name ∈ (s.affectedClasses changed).toList, name ∈ s.classes := by
    intro name hname
    rw [Std.ExtTreeSet.mem_toList, mem_affectedClasses sound] at hname
    exact hname.known
  obtain ⟨sources, hsources, hmem⟩ := mapM_sourceOf hknown
  refine ⟨.ofList sources, by rw [affectedSources, hsources]; rfl, fun source => ?_⟩
  rw [Std.ExtTreeSet.mem_ofList, List.contains_iff_mem, hmem]
  simp only [Std.ExtTreeSet.mem_toList, mem_affectedClasses sound]

end Recompile.Store
