import Recompile.Changes
import Recompile.Directory.Find
import Recompile.Proofs.Action
import Recompile.Staging
import Recompile.Store.Files

/-!
# What an action depends on

An action is blind if how it ends and what it leaves depend only on the disk, the working directory
and the environment, and if it calls no tool. Everything that a build does between two calls of a
tool is blind, so that a build that is repeated on the same disk does the same.
-/

namespace Recompile

namespace Action

/-- The action depends on the view only and calls no tool. -/
structure Blind {α : Type} (a : Action α) : Prop where
  same : ∀ w w' : World, w.view = w'.view → (a.on w).1 = (a.on w').1 ∧
    (a.on w).2.view = (a.on w').2.view
  calls : ∀ w : World, (a.on w).2.calls = w.calls

namespace Blind

variable {α β : Type}

/-- The answer is the same on every world of one view. -/
theorem answers {a : Action α} (h : a.Blind) {w w' w₁ : World} {result : Except Failure α}
    (hview : w'.view = w.view) (hon : a.on w' = (result, w₁)) : ∃ w₂, a.on w = (result, w₂) := by
  have hsame := (h.same w' w hview).1
  rw [hon] at hsame
  exact ⟨(a.on w).2, Prod.ext hsame.symm rfl⟩

theorem pure (x : α) : Blind (Pure.pure x : Action α) := ⟨fun _ _ h => ⟨rfl, h⟩, fun _ => rfl⟩

theorem throw (f : Failure) : Blind (MonadExcept.throw f : Action α) :=
  ⟨fun _ _ h => ⟨rfl, h⟩, fun _ => rfl⟩

theorem failed (cause : Cause) : Blind (failed cause : Action α) := throw _

theorem bind {a : Action α} {next : α → Action β} (ha : a.Blind) (hnext : ∀ x, (next x).Blind) :
    (a >>= next).Blind := by
  refine ⟨fun w w' hview => ?_, fun w => ?_⟩
  · obtain ⟨hresult, hafter⟩ := ha.same w w' hview
    rw [on_bind, on_bind]
    rcases hw : a.on w with ⟨f | x, w₁⟩ <;> rcases hw' : a.on w' with ⟨f' | x', w₁'⟩ <;>
      rw [hw, hw'] at hresult hafter <;> cases hresult
    · exact ⟨rfl, hafter⟩
    · exact (hnext x).same w₁ w₁' hafter
  · have hcalls := ha.calls w
    rw [on_bind]
    rcases hw : a.on w with ⟨f | x, w₁⟩ <;> rw [hw] at hcalls
    · exact hcalls
    · exact ((hnext x).calls w₁).trans hcalls

theorem tryCatch {a : Action α} {handler : Failure → Action α} (ha : a.Blind)
    (hhandler : ∀ f, (handler f).Blind) : Blind (MonadExcept.tryCatch a handler) := by
  refine ⟨fun w w' hview => ?_, fun w => ?_⟩
  · obtain ⟨hresult, hafter⟩ := ha.same w w' hview
    rw [on_tryCatch, on_tryCatch]
    rcases hw : a.on w with ⟨f | x, w₁⟩ <;> rcases hw' : a.on w' with ⟨f' | x', w₁'⟩ <;>
      rw [hw, hw'] at hresult hafter <;> cases hresult
    · exact (hhandler f).same w₁ w₁' hafter
    · exact ⟨rfl, hafter⟩
  · have hcalls := ha.calls w
    rw [on_tryCatch]
    rcases hw : a.on w with ⟨f | x, w₁⟩ <;> rw [hw] at hcalls
    · exact ((hhandler f).calls w₁).trans hcalls
    · exact hcalls

theorem map {a : Action α} (ha : a.Blind) (f : α → β) : (f <$> a).Blind := by
  rw [map_eq_pure_bind]
  exact ha.bind fun _ => .pure _

/-- What is done with the world may depend on what is seen of it. -/
theorem get_bind {next : World → Action α} (hnext : ∀ w, (next w).Blind)
    (hview : ∀ w w', w.view = w'.view → next w = next w') :
    (MonadState.get >>= next : Action α).Blind := by
  have hon (w : World) : (MonadState.get >>= next : Action α).on w = (next w).on w := by
    rw [on_bind]
    rfl
  refine ⟨fun w w' h => ?_, fun w => ?_⟩
  · rw [hon, hon, ← hview w w' h]
    exact (hnext w).same w w' h
  · rw [hon]
    exact (hnext w).calls w

theorem modify (f : World → World) (hview : ∀ w w', w.view = w'.view → (f w).view = (f w').view)
    (hcalls : ∀ w, (f w).calls = w.calls) : Blind (modify f : Action Unit) :=
  ⟨fun w w' h => ⟨rfl, hview w w' h⟩, hcalls⟩

theorem within {a : Action α} (ha : a.Blind) (step : Step) : (within step a).Blind :=
  ha.tryCatch fun _ => throw _

theorem undoing {undo : Action Unit} {a : Action α} (ha : a.Blind) (hundo : undo.Blind) :
    (undoing undo a).Blind :=
  ha.tryCatch fun _ => hundo.bind fun _ => throw _

theorem finishing {after : Action Unit} {a : Action α} (ha : a.Blind) (hafter : after.Blind) :
    (finishing after a).Blind := by
  unfold Action.finishing
  refine ((ha.map _).tryCatch fun _ => .pure _).bind fun result => hafter.bind fun _ => ?_
  cases result with
  | ok x => exact .pure x
  | error f => exact throw f

theorem ask (question : Disk → Location → Except Fault α) : (ask question).Blind := by
  refine get_bind (fun _ => .pure _) fun w w' h => ?_
  simp only [World.view, View.mk.injEq] at h
  rw [h.1, h.2.1]

theorem query (question : Disk → Location → Except Fault α) : (query question).Blind := by
  refine (ask question).bind fun answer => ?_
  cases answer with
  | ok x => exact .pure x
  | error fault => exact failed _

theorem attempt (operation : Disk → Location → Except Fault Disk) : (attempt operation).Blind := by
  refine (ask operation).bind fun answer => ?_
  cases answer with
  | ok disk =>
    dsimp only
    refine (modify (fun world => { world with disk }) (fun w w' h => ?_) fun _ => rfl).bind
      fun _ => .pure _
    simp only [World.view, View.mk.injEq] at h ⊢
    exact ⟨trivial, h.2⟩
  | error fault => exact .pure _

theorem change (operation : Disk → Location → Except Fault Disk) : (change operation).Blind := by
  refine (attempt operation).bind fun answer => ?_
  cases answer with
  | ok u => exact .pure u
  | error fault => exact failed _

theorem ofExcept (e : Except Failure α) : (ofExcept e).Blind := by
  cases e with
  | ok x => exact .pure x
  | error f => exact throw f

theorem print (text : String) : (print text).Blind := modify _ (fun _ _ h => h) fun _ => rfl

theorem log (level : Log.Level) (target message : String) : (log level target message).Blind :=
  modify _ (fun _ _ h => h) fun _ => rfl

theorem logAll (events : List Log.Event) : (logAll events).Blind :=
  modify _ (fun _ _ h => h) fun _ => rfl

theorem phase {a : Action α} (ha : a.Blind) (name : String) : (phase name a).Blind :=
  ha.finishing (modify _ (fun _ _ h => h) fun _ => rfl)

theorem forM {f : α → Action Unit} (items : List α) (h : ∀ item ∈ items, (f item).Blind) :
    (items.forM f).Blind := by
  induction items with
  | nil => exact .pure ()
  | cons item rest ih =>
    exact (h item List.mem_cons_self).bind fun _ => ih fun other hother =>
      h other (List.mem_cons_of_mem item hother)

theorem absolute (p : Path) : (absolute p).Blind := by
  refine get_bind (fun w => ?_) fun w w' h => ?_
  · split_ifs
    · exact (query _).bind fun _ => .pure _
    · exact .pure _
  · simp only [World.view, View.mk.injEq] at h
    simp only [h.2.1]

theorem readBytes (p : Path) : (readBytes p).Blind := query _

theorem readText (p : Path) : (readText p).Blind := by
  refine (readBytes p).bind fun bytes => ?_
  split
  · exact .pure _
  · exact failed _

end Blind

end Action

open Action

namespace Directory

theorem createFirst_blind (paths : List Path) : (createFirst paths).Blind := by
  have hexisting (p : Path) (answer : Except Fault Unit) :
      (createFirst.existing p answer).Blind := by
    unfold createFirst.existing
    split
    · exact .pure _
    · refine .get_bind (fun w => ?_) fun w w' h => ?_
      · split_ifs
        · exact .pure _
        · exact .failed _
      · simp only [World.view, View.mk.injEq] at h
        simp only [h.1, h.2.1]
  induction paths with
  | nil => exact .pure _
  | cons p above ih =>
    unfold createFirst
    refine (Blind.attempt _).bind fun answer => ?_
    split
    · exact .pure _
    · exact ih.bind fun _ => (Blind.attempt _).bind fun answer => hexisting p answer
    · exact hexisting p _

theorem create_blind (p : Path) : (create p).Blind := createFirst_blind _

theorem removeTree_blind (p : Path) : (removeTree p).Blind := by
  refine (Blind.query _).bind fun entry => ?_
  split
  · exact .change _
  · exact .failed _
  · refine (Blind.change _).bind fun _ => (Blind.attempt _).bind fun answer => ?_
    split
    · exact .pure _
    · exact .pure _
    · exact .failed _

theorem removeAny_blind (p : Path) : (removeAny p).Blind := by
  refine (Blind.ask _).bind fun answer => ?_
  split
  · exact removeTree_blind p
  · exact .change _
  · exact .pure _
  · exact .failed _

theorem findFiles_blind (directory : Path) (extension : String) :
    (findFiles directory extension).Blind := by
  refine .get_bind (fun w => .ofExcept _) fun w w' h => ?_
  simp only [World.view, View.mk.injEq] at h
  simp only [h.1, h.2.1]

theorem copyFile_blind (source target : Path) : (copyFile source target).Blind := by
  refine (Blind.query _).bind fun entry => ?_
  split
  · refine (Blind.query _).bind fun sourcePlace => (Blind.query _).bind fun created => ?_
    refine .modify _ (fun w w' h => ?_) fun _ => rfl
    simp only [World.view, View.mk.injEq] at h ⊢
    exact ⟨trivial, h.2⟩
  · exact .failed _

theorem temporary_blind : temporary.Blind := by
  refine .get_bind (fun w => ?_) fun w w' h => ?_
  · dsimp only
    split_ifs
    · exact .pure _
    · exact (Blind.query _).bind fun _ => .pure _
  · simp only [World.view, View.mk.injEq] at h
    simp only [h.2.1, h.2.2]

theorem makeScratchFrom_blind (parent : Path) (limit n : Nat) :
    (makeScratchFrom parent limit n).Blind := by
  induction limit generalizing n with
  | zero => exact .failed _
  | succ limit ih =>
    unfold makeScratchFrom
    refine (Blind.attempt _).bind fun answer => ?_
    split
    · exact .pure _
    · exact ih _
    · exact .failed _

theorem makeScratch_blind : makeScratch.Blind := by
  refine .within (temporary_blind.bind fun parent => ?_) _
  refine .get_bind (fun w => makeScratchFrom_blind _ _ _) fun w w' h => ?_
  simp only [World.view, View.mk.injEq] at h
  simp only [h.1]

theorem discard_blind (directory : Path) : (discard directory).Blind :=
  (removeTree_blind directory).tryCatch fun _ => .pure _

end Directory

namespace Staging

open Directory

theorem copyClassFiles_blind (source target : Path) (classes : List String) :
    (copyClassFiles source target classes).Blind := by
  refine .forM classes fun className _ => (Blind.log _ _ _).bind fun _ => ?_
  generalize ClassName.artifact className = file
  generalize target.join file = written
  dsimp only
  have hcopy := (copyFile_blind (source.join file) written).within
    (.copyingClass (source.join file) written)
  cases written.parent with
  | some directory => exact ((create_blind directory).within _).bind fun _ => hcopy
  | none => exact hcopy

theorem deleteClassFiles_blind (directory : Path) (classes : List String) :
    (deleteClassFiles directory classes).Blind :=
  .forM classes fun _ _ => (Blind.log _ _ _).bind fun _ => (Blind.change _).within _

theorem discard_blind (w : Workspace) : w.discard.Blind :=
  (Directory.discard_blind _).bind fun _ => Directory.discard_blind _

theorem stage_blind (output : Path) (classes : List String) :
    (Workspace.stage output classes).Blind := by
  have hmake : Workspace.make.Blind := makeScratch_blind.bind fun classpath =>
    .undoing (makeScratch_blind.bind fun _ => .pure _) (Directory.discard_blind classpath)
  exact hmake.bind fun w =>
    ((copyClassFiles_blind _ _ _).undoing (discard_blind w)).bind fun _ => .pure _

end Staging

namespace Store

theorem reset_blind (directory : Path) : (reset directory).Blind :=
  .within ((Directory.removeAny_blind _).bind fun _ => (Directory.create_blind _).bind fun _ =>
    .forM _ fun _ _ => .change _) _

theorem readTable_blind (table : Path) (cut : Cut) : (readTable table cut).Blind := by
  refine ((Blind.readText table).within _).bind fun text => ?_
  split
  · exact .pure _
  · exact .failed _

theorem load_blind (directory : Path) : (load directory).Blind :=
  (readTable_blind _ _).bind fun _ => (readTable_blind _ _).bind fun _ =>
    (readTable_blind _ _).bind fun _ => .pure _

theorem save_blind (s : Store) : s.save.Blind := by
  have hwrite (table : Path) (rows : List (String × String)) : (writeTable table rows).Blind :=
    (Blind.change _).within _
  exact (reset_blind _).bind fun _ => (hwrite _ _).bind fun _ => (hwrite _ _).bind fun _ =>
    (hwrite _ _).bind fun _ => ((Directory.removeAny_blind _).within _).bind fun _ =>
      (Blind.change _).within _

end Store

namespace Changes

theorem detect_blind (sources : Names) (previous : Table) : (detect sources previous).Blind := by
  have hdigests (l : List String) : (digests l).Blind := by
    induction l with
    | nil => exact .pure _
    | cons source rest ih =>
      exact (((Blind.readBytes _).within _).bind fun _ => .pure _).bind fun _ =>
        ih.bind fun _ => .pure _
  exact (hdigests _).bind fun _ => (Blind.forM _ fun _ _ => .log _ _ _).bind fun _ =>
    (Blind.log _ _ _).bind fun _ => .pure _

end Changes

end Recompile
