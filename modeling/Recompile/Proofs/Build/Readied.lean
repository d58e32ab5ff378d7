import Recompile.Proofs.Build.Run
import Recompile.Proofs.Build.Update

/-!
# What a build makes ready

The store that a build is going to save, and the classes whose files it is going to delete or to
publish, come from the store that it has loaded, from the digests of the sources, and from what the
examiner has reported.
-/

namespace Recompile.Build

open Directory Staging World

attribute [local irreducible] Action.wp

variable {tools : Toolchain} {w : World} {t : Target} {storeRoot output sourceTree storeAt : Path}
  {P : ClassFact → Prop}

/-- What the examiner reports of any class files. -/
def Reports (tools : Toolchain) (P : ClassFact → Prop) : Prop :=
  ∀ (classFiles : List Path) (w : World),
    (tools.examine classFiles).wp w (fun facts _ => ∀ fact ∈ facts, P fact) fun _ _ => True

/-- The facts are what the examiner reports of some class files. -/
def Reported (tools : Toolchain) (facts : List ClassFact) : Prop :=
  ∃ classFiles w w', (tools.examine classFiles).on w = (.ok facts, w')

theorem Reported.forall {facts : List ClassFact} (h : Reported tools facts)
    (reports : Reports tools P) : ∀ fact ∈ facts, P fact := by
  obtain ⟨classFiles, w, w', hon⟩ := h
  exact (reports classFiles w).of_ok hon

/-- What is ready, seen from the store that was loaded and from the facts that were reported. -/
def Readied (Q : List ClassFact → Prop) (sourceTree : Path) (store : Store) (changes : Changes)
    (q : Plan) : Ready → Prop
  | .nothing => q.recompile.isEmpty ∧ changes.deleted.isEmpty
  | .pruned s stale => q.recompile.isEmpty ∧ s = strip store q changes.deleted ∧ stale = q.stale
  | .rejected => True
  | .compiled _ s stale produced _ => stale = q.stale ∧
      ∃ facts, Q facts ∧ s = updated store q changes sourceTree facts ∧
        produced = .ofList (facts.map ClassFact.className)

/-- The store that is going to be saved. -/
def Ready.store? : Ready → Option Store
  | .pruned s _ => some s
  | .compiled _ s _ _ _ => some s
  | _ => none

theorem Readied.directory_eq {Q : List ClassFact → Prop} {sourceTree : Path} {store s : Store}
    {changes : Changes} {q : Plan} {ready : Ready} (h : Readied Q sourceTree store changes q ready)
    (hs : ready.store? = some s) : s.directory = store.directory := by
  cases ready with
  | nothing => cases hs
  | rejected => cases hs
  | pruned s' stale =>
    obtain ⟨-, rfl, -⟩ := h
    cases hs
    rfl
  | compiled ws s' stale produced count =>
    obtain ⟨-, facts, -, rfl, -⟩ := h
    cases hs
    rfl

theorem Readied.mono {Q Q' : List ClassFact → Prop} {store : Store} {changes : Changes} {q : Plan}
    {ready : Ready} (h : Readied Q sourceTree store changes q ready)
    (himp : ∀ facts, Q facts → Q' facts) : Readied Q' sourceTree store changes q ready := by
  cases ready with
  | compiled ws s stale produced count =>
    obtain ⟨hstale, facts, hfacts, hrest⟩ := h
    exact ⟨hstale, facts, himp facts hfacts, hrest⟩
  | _ => exact h

theorem recordClasses_reported (store : Store) (digests : Table) (directory : Path) :
    (recordClasses tools store sourceTree digests directory).wp w
      (fun recorded _ => Reported tools recorded.2 ∧
        recorded.1 = (store.addSources digests).record sourceTree recorded.2)
      fun _ _ => True := by
  unfold recordClasses findClassFiles
  simp only [Action.wp_bind, Action.wp_within, Action.wp_phase, Toolchain.wp_runExaminer,
    Action.wp_logAll, Action.wp_pure]
  refine Action.wp_of_forall (fun files w₁ => ?_) fun _ _ => trivial
  exact (Action.wp_iff _).2 ⟨fun facts w₂ hon => ⟨⟨_, _, w₂, hon⟩, trivial⟩, fun _ _ _ => trivial⟩

theorem recordClasses_reports (reports : Reports tools P) (store : Store) (digests : Table)
    (directory : Path) :
    (recordClasses tools store sourceTree digests directory).wp w
      (fun recorded _ => (∀ fact ∈ recorded.2, P fact) ∧
        recorded.1 = (store.addSources digests).record sourceTree recorded.2)
      fun _ _ => True :=
  (recordClasses_reported store digests directory).mono
    (fun _ _ h => ⟨h.1.forall reports, h.2⟩) fun _ _ _ => trivial

theorem compileIn_readied {ws : Workspace} (store : Store) (changes : Changes) (q : Plan) :
    (compileIn tools ws store changes q sourceTree).wp w
      (fun ready _ => Readied (Reported tools) sourceTree store changes q ready)
      fun _ _ => True := by
  unfold compileIn
  rw [Action.wp_bind]
  refine Action.wp_of_forall (fun accepted w₁ => ?_) fun _ _ => trivial
  cases accepted with
  | false =>
    rw [if_neg Bool.false_ne_true, Action.wp_bind]
    exact Action.wp_of_forall (fun _ _ => (Action.wp_pure _).2 trivial) fun _ _ => trivial
  | true =>
    rw [if_pos rfl, Action.wp_bind]
    refine (recordClasses_reported _ changes.changed ws.destination).mono
      (fun recorded w₂ h₂ => ?_) fun _ _ _ => trivial
    exact (Action.wp_pure _).2 ⟨rfl, recorded.2, h₂.1, h₂.2, rfl⟩

/-- What is ready after the store was loaded and the sources were compared with it. -/
theorem prepare_reported :
    (prepare tools t storeAt).wp w
      (fun ready _ => ∃ store table affected, ∃ c : Compared t storeAt w store table affected,
        Readied (Reported tools) t.sourceTree store (.between table store.sources) c.plan ready)
      fun _ _ => True := by
  refine prepare_wp (fun _ _ _ _ => trivial) (fun store table affected c _ _ hempty hdeleted => ?_)
    (fun store table affected c _ _ hempty _ => ?_) fun store table affected c w' _ _ => ?_
  · exact ⟨store, table, affected, c, hempty, hdeleted⟩
  · exact ⟨store, table, affected, c, hempty, rfl, rfl⟩
  · rw [Action.wp_bind]
    refine Action.wp_of_forall (fun ws w₁ => ?_) fun _ _ => trivial
    rw [Action.wp_undoing]
    refine (compileIn_readied store _ _).mono (fun ready _ h => ?_) fun _ w₂ _ =>
      Action.wp_of_forall (fun _ _ => trivial) fun _ _ => trivial
    exact ⟨store, table, affected, c, h⟩

theorem prepare_readied (reports : Reports tools P) :
    (prepare tools t storeAt).wp w
      (fun ready _ => ∃ store table affected, ∃ c : Compared t storeAt w store table affected,
        Readied (∀ fact ∈ ·, P fact) t.sourceTree store (.between table store.sources) c.plan ready)
      fun _ _ => True := by
  refine prepare_reported.mono (fun ready _ h => ?_) fun _ _ _ => trivial
  obtain ⟨store, table, affected, c, h⟩ := h
  exact ⟨store, table, affected, c, h.mono fun _ hfacts => hfacts.forall reports⟩

section Names

variable {store : Store} {changes : Changes} {affected : Names}

theorem proper_of_stale (hproper : HasProperClasses store) :
    ∀ className ∈ (plan store changes affected).stale.toList, ClassName.IsProper className := by
  intro className hmem
  rw [Std.ExtTreeSet.mem_toList, mem_stale_plan] at hmem
  obtain ⟨source, hsource, -⟩ := hmem
  exact hproper className ((Table.mem_iff_exists_getElem? _ _).2 ⟨source, hsource⟩)

variable {facts : List ClassFact}

theorem mem_produced {className : String} :
    className ∈ (Std.ExtTreeSet.ofList (facts.map ClassFact.className) : Names).toList ↔
      className ∈ facts.map ClassFact.className := by
  rw [Std.ExtTreeSet.mem_toList, Std.ExtTreeSet.mem_ofList, List.contains_iff_mem]

theorem proper_of_produced (hproper : ∀ fact ∈ facts, ClassName.IsProper fact.className) :
    ∀ className ∈ (Std.ExtTreeSet.ofList (facts.map ClassFact.className) : Names).toList,
      ClassName.IsProper className := by
  intro className hmem
  obtain ⟨fact, hfact, rfl⟩ := List.mem_map.1 (mem_produced.1 hmem)
  exact hproper fact hfact

end Names

end Recompile.Build
