import Recompile.Build
import Recompile.Proofs.Blind
import Recompile.Proofs.Toolchain

/-!
# Builds that are repeated

An action replays if on the same disk, from the same working directory and with the same environment
it does the same up to its first call of a tool, and that call is the same. A build replays, whatever
the tools do, as long as they leave the record of the calls alone, and it calls the compiler first.
-/

namespace Recompile

/-- The tools do not take calls back. -/
structure Toolchain.KeepsRecord (tools : Toolchain) : Prop where
  compile : ∀ (sources : List String) (classpath destination : Path) (w : World),
    w.calls <+: ((tools.compile sources classpath destination).on w).2.calls
  examine : ∀ (classFiles : List Path) (w : World),
    w.calls <+: ((tools.examine classFiles).on w).2.calls

/-- A call of the compiler. -/
def Call.IsCompile : Call → Prop
  | .compile .. => True
  | .examine .. => False

namespace Action

variable {α β : Type}

/-- The action takes no call back. -/
def Grows (a : Action α) : Prop := ∀ w, w.calls <+: (a.on w).2.calls

theorem Blind.grows {a : Action α} (h : a.Blind) : a.Grows := fun w =>
  (h.calls w).symm ▸ List.prefix_refl _

namespace Grows

theorem on_bind {a : Action α} {next : α → Action β} (hnext : ∀ x, (next x).Grows) (w : World) :
    (a.on w).2.calls <+: ((a >>= next).on w).2.calls := by
  rw [Action.on_bind]
  rcases a.on w with ⟨f | x, w₁⟩
  · exact List.prefix_refl _
  · exact hnext x w₁

theorem bind {a : Action α} {next : α → Action β} (ha : a.Grows) (hnext : ∀ x, (next x).Grows) :
    (a >>= next).Grows := fun w => (ha w).trans (on_bind hnext w)

theorem phase {a : Action α} (ha : a.Grows) (name : String) : (phase name a).Grows := by
  intro w
  have hphase : (Action.phase name a).wp w (fun _ w' => w.calls <+: w'.calls)
      fun _ w' => w.calls <+: w'.calls := by
    have hgrows := ha w
    rw [wp_phase, wp_iff]
    constructor <;> intro _ w' hon <;> rw [hon] at hgrows <;> exact hgrows
  exact hphase.always

end Grows

/-- Up to the first call of a tool, that call included, the action depends on the view only. The
call is one of the `first` ones. -/
structure Replays (first : Call → Prop) (a : Action α) : Prop where
  grows : a.Grows
  same : ∀ w w' : World, w.view = w'.view →
    ((a.on w).1 = (a.on w').1 ∧ (a.on w).2.view = (a.on w').2.view ∧
      (a.on w).2.calls = w.calls ∧ (a.on w').2.calls = w'.calls) ∨
    ∃ call, first call ∧ w.calls ++ [call] <+: (a.on w).2.calls ∧
      w'.calls ++ [call] <+: (a.on w').2.calls

variable {first : Call → Prop}

theorem Blind.replays {a : Action α} (h : a.Blind) : a.Replays first := by
  refine ⟨h.grows, fun w w' hview => .inl ?_⟩
  obtain ⟨hresult, hafter⟩ := h.same w w' hview
  exact ⟨hresult, hafter, h.calls w, h.calls w'⟩

namespace Replays

theorem calls_eq_or {a : Action α} (h : a.Replays first) (w : World) :
    (a.on w).2.calls = w.calls ∨
      ∃ call, first call ∧ w.calls ++ [call] <+: (a.on w).2.calls := by
  rcases h.same w w rfl with ⟨-, -, hnone, -⟩ | ⟨call, hfirst, hcall, -⟩
  · exact .inl hnone
  · exact .inr ⟨call, hfirst, hcall⟩

/-- In a world that looks the same the first call is the same. -/
theorem again {a : Action α} (h : a.Replays first) {w w' : World} (hview : w.view = w'.view)
    {call : Call} (hcall : w.calls ++ [call] <+: (a.on w).2.calls) :
    w'.calls ++ [call] <+: (a.on w').2.calls := by
  rcases h.same w w' hview with ⟨-, -, hnone, -⟩ | ⟨call', -, hcall', hagain⟩
  · have hlength := hcall.length_le
    rw [hnone, List.length_append, List.length_singleton] at hlength
    omega
  · have hsame : w.calls ++ [call] = w.calls ++ [call'] :=
      (List.prefix_of_prefix_length_le hcall hcall' (by simp)).eq_of_length (by simp)
    obtain rfl : call = call' := by simpa using hsame
    exact hagain

theorem pure (x : α) : Replays first (Pure.pure x : Action α) := (Blind.pure x).replays

theorem throw (f : Failure) : Replays first (MonadExcept.throw f : Action α) := (Blind.throw f).replays

theorem bind {a : Action α} {next : α → Action β} (ha : a.Replays first)
    (hnext : ∀ x, (next x).Replays first) : (a >>= next).Replays first := by
  have hgrows := Grows.on_bind (a := a) fun x => (hnext x).grows
  refine ⟨ha.grows.bind fun x => (hnext x).grows, fun w w' hview => ?_⟩
  rcases ha.same w w' hview with ⟨hresult, hafter, hcalls, hcalls'⟩ | ⟨call, hfirst, hcall, hcall'⟩
  · rw [on_bind, on_bind]
    rcases hw : a.on w with ⟨f | x, w₁⟩ <;> rcases hw' : a.on w' with ⟨f' | x', w₁'⟩ <;>
      rw [hw, hw'] at hresult hafter <;> cases hresult <;> rw [hw] at hcalls <;> rw [hw'] at hcalls'
    · exact .inl ⟨rfl, hafter, hcalls, hcalls'⟩
    · have hrest := (hnext x).same w₁ w₁' hafter
      rwa [hcalls, hcalls'] at hrest
  · exact .inr ⟨call, hfirst, hcall.trans (hgrows w), hcall'.trans (hgrows w')⟩

/-- What comes after an action that has called a tool need not replay. -/
theorem bind_of_calls {a : Action α} {next : α → Action β} (ha : a.Replays first)
    (hcalls : ∀ w, (a.on w).2.calls ≠ w.calls) (hnext : ∀ x, (next x).Grows) :
    (a >>= next).Replays first := by
  have hgrows := Grows.on_bind (a := a) hnext
  refine ⟨ha.grows.bind hnext, fun w w' hview => ?_⟩
  rcases ha.same w w' hview with ⟨-, -, hnone, -⟩ | ⟨call, hfirst, hcall, hcall'⟩
  · exact absurd hnone (hcalls w)
  · exact .inr ⟨call, hfirst, hcall.trans (hgrows w), hcall'.trans (hgrows w')⟩

theorem tryCatch {a : Action α} {handler : Failure → Action α} (ha : a.Replays first)
    (hhandler : ∀ f, (handler f).Replays first) : Replays first (MonadExcept.tryCatch a handler) := by
  have hgrows (w : World) :
      (a.on w).2.calls <+: ((MonadExcept.tryCatch a handler : Action α).on w).2.calls := by
    rw [on_tryCatch]
    rcases a.on w with ⟨f | x, w₁⟩
    · exact (hhandler f).grows w₁
    · exact List.prefix_refl _
  refine ⟨fun w => (ha.grows w).trans (hgrows w), fun w w' hview => ?_⟩
  rcases ha.same w w' hview with ⟨hresult, hafter, hcalls, hcalls'⟩ | ⟨call, hfirst, hcall, hcall'⟩
  · rw [on_tryCatch, on_tryCatch]
    rcases hw : a.on w with ⟨f | x, w₁⟩ <;> rcases hw' : a.on w' with ⟨f' | x', w₁'⟩ <;>
      rw [hw, hw'] at hresult hafter <;> cases hresult <;> rw [hw] at hcalls <;> rw [hw'] at hcalls'
    · have hrest := (hhandler f).same w₁ w₁' hafter
      rwa [hcalls, hcalls'] at hrest
    · exact .inl ⟨rfl, hafter, hcalls, hcalls'⟩
  · exact .inr ⟨call, hfirst, hcall.trans (hgrows w), hcall'.trans (hgrows w')⟩

theorem map {a : Action α} (ha : a.Replays first) (f : α → β) : (f <$> a).Replays first := by
  rw [map_eq_pure_bind]
  exact ha.bind fun _ => pure _

theorem get_bind {next : World → Action α} (hnext : ∀ w, (next w).Replays first)
    (hview : ∀ w w', w.view = w'.view → next w = next w') :
    (MonadState.get >>= next : Action α).Replays first := by
  have hon (w : World) : (MonadState.get >>= next : Action α).on w = (next w).on w := by
    rw [on_bind]
    rfl
  refine ⟨fun w => ?_, fun w w' h => ?_⟩
  · rw [hon]
    exact (hnext w).grows w
  · rw [hon, hon, ← hview w w' h]
    exact (hnext w).same w w' h

theorem undoing {undo : Action Unit} {a : Action α} (ha : a.Replays first) (hundo : undo.Blind) :
    (undoing undo a).Replays first :=
  ha.tryCatch fun _ => (hundo.bind fun _ => .throw _).replays

theorem finishing {after : Action Unit} {a : Action α} (ha : a.Replays first) (hafter : after.Blind) :
    (finishing after a).Replays first := by
  unfold Action.finishing
  refine ((ha.map _).tryCatch fun _ => pure _).bind fun result => hafter.replays.bind fun _ => ?_
  cases result with
  | ok x => exact pure x
  | error f => exact throw f

theorem phase {a : Action α} (ha : a.Replays first) (name : String) : (phase name a).Replays first :=
  ha.finishing (.modify _ (fun _ _ h => h) fun _ => rfl)

end Replays

end Action

open Action

namespace Toolchain

variable {tools : Toolchain}

theorem runCompiler_replays (record : tools.KeepsRecord) (sources : List String)
    (classpath destination : Path) :
    (tools.runCompiler sources classpath destination).Replays Call.IsCompile := by
  have hcall (w : World) : w.calls ++ [.compile sources classpath destination w.disk] <+:
      ((tools.runCompiler sources classpath destination).on w).2.calls :=
    record.compile sources classpath destination
      (w.called (.compile sources classpath destination w.disk))
  refine ⟨fun w => (List.prefix_append _ _).trans (hcall w), fun w w' hview => .inr ?_⟩
  simp only [World.view, View.mk.injEq] at hview
  refine ⟨.compile sources classpath destination w.disk, trivial, hcall w, ?_⟩
  rw [hview.1]
  exact hcall w'

theorem runExaminer_grows (record : tools.KeepsRecord) (classFiles : List Path) :
    (tools.runExaminer classFiles).Grows := by
  intro w
  have hcall : w.calls ++ [.examine classFiles w.disk] <+:
      ((tools.runExaminer classFiles).on w).2.calls :=
    record.examine classFiles (w.called (.examine classFiles w.disk))
  exact (List.prefix_append _ _).trans hcall

/-- What follows the call of the compiler need not replay. -/
theorem compile_bind_replays {α : Type} (record : tools.KeepsRecord) (sources : List String)
    (classpath destination : Path) {next : Bool → Action α}
    (hnext : ∀ accepted, (next accepted).Grows) :
    (phase "compile" (tools.runCompiler sources classpath destination) >>= next).Replays
      Call.IsCompile := by
  have hcompile := (tools.runCompiler_replays record sources classpath destination).phase "compile"
  refine hcompile.bind_of_calls (fun w hnone => ?_) hnext
  have hcall : (phase "compile" (tools.runCompiler sources classpath destination)).wp w
      (fun _ w' => w.calls.length < w'.calls.length) fun _ w' =>
        w.calls.length < w'.calls.length := by
    have hgrows (w' : World)
        (h : (w.called (.compile sources classpath destination w.disk)).calls <+: w'.calls) :
        w.calls.length < w'.calls.length := by
      simpa [World.called, Nat.succ_le_iff] using h.length_le
    rw [wp_phase, wp_runCompiler, wp_iff]
    have hcompile := record.compile sources classpath destination
      (w.called (.compile sources classpath destination w.disk))
    constructor <;> intro _ w' hon <;> rw [hon] at hcompile <;> exact hgrows w' hcompile
  exact absurd (congrArg List.length hnone) hcall.always.ne'

end Toolchain

theorem Directory.clean_blind (p : Path) : (Directory.clean p).Blind := by
  refine (Blind.ask _).bind fun answer => ?_
  split
  · refine ((Blind.query _).within _).bind fun entries => ?_
    exact .forM _ fun e _ => (removeAny_blind _).within _
  · exact .failed _
  · exact (create_blind p).within _
  · exact (Blind.failed _).within _

namespace Build

variable {tools : Toolchain}

theorem log_blind (level : Log.Level) (message : String) : (log level message).Blind :=
  .log level _ message

theorem locate_blind (output sourceTree : Path) : (locate output sourceTree).Blind :=
  ((Blind.absolute _).within _).bind fun _ => ((Blind.absolute _).within _).bind fun _ =>
    ((Directory.findFiles_blind _ _).within _).bind fun _ => .pure _

theorem recordClasses_grows (record : tools.KeepsRecord) (store : Store) (sourceTree : Path)
    (digests : Table) (classDirectory : Path) :
    (recordClasses tools store sourceTree digests classDirectory).Grows := by
  refine ((Directory.findFiles_blind _ _).within _).grows.bind fun files => ?_
  refine ((tools.runExaminer_grows record _).phase _).bind fun facts => ?_
  exact (Blind.logAll _).grows.bind fun _ => (Blind.pure _).grows

theorem full_replays (record : tools.KeepsRecord) (t : Target) (storeAt : Path) :
    (full tools t storeAt).Replays Call.IsCompile := by
  have hrecord (digests : Table) : (recordAll tools t digests storeAt).Grows := by
    refine (Store.reset_blind _).grows.bind fun _ => ?_
    refine (recordClasses_grows record _ _ _ _).bind fun recorded => ?_
    exact ((Store.save_blind _).phase _).grows
  unfold full compileAll
  simp only [bind_assoc]
  refine (Directory.clean_blind _).replays.bind fun _ => ?_
  refine ((Changes.detect_blind _ _).phase _).replays.bind fun changes => ?_
  refine Toolchain.compile_bind_replays record _ _ _ fun accepted => Grows.bind ?_ fun answer => ?_
  · split_ifs <;> exact (Blind.pure _).grows
  · cases answer with
    | none => exact (Blind.pure _).grows
    | some digests =>
      exact (hrecord digests).bind fun _ => ((log_blind _ _).bind fun _ => .pure _).grows

theorem compileIn_replays (record : tools.KeepsRecord) (ws : Staging.Workspace) (store : Store)
    (changes : Changes) (p : Plan) (sourceTree : Path) :
    (compileIn tools ws store changes p sourceTree).Replays Call.IsCompile := by
  refine Toolchain.compile_bind_replays record _ _ _ fun accepted => ?_
  split_ifs
  · exact (recordClasses_grows record _ _ _ _).bind fun _ => (Blind.pure _).grows
  · exact ((Staging.discard_blind ws).bind fun _ => .pure _).grows

theorem prepare_replays (record : tools.KeepsRecord) (t : Target) (storeAt : Path) :
    (prepare tools t storeAt).Replays Call.IsCompile := by
  refine (Store.load_blind _).replays.bind fun store => ?_
  refine ((Changes.detect_blind _ _).phase _).replays.bind fun changes => ?_
  have hclosure : (do
      Action.logAll (store.affectedLog changes.seeds)
      Action.ofExcept (store.affectedSources changes.seeds) : Action Names).Blind :=
    (Blind.logAll _).bind fun _ => .ofExcept _
  refine (hclosure.phase _).replays.bind fun affected => ?_
  dsimp only
  split_ifs
  · exact .pure _
  · exact (log_blind _ _).replays.bind fun _ => .pure _
  · refine (Blind.print _).replays.bind fun _ => ?_
    refine ((Staging.stage_blind _ _).phase _).replays.bind fun ws => ?_
    exact (compileIn_replays record _ _ _ _ _).undoing (Staging.discard_blind ws)

theorem survey_replays (record : tools.KeepsRecord) (storeRoot output sourceTree : Path) :
    (survey tools storeRoot output sourceTree).Replays Call.IsCompile := by
  refine (locate_blind _ _).replays.bind fun t => ?_
  split_ifs
  · exact .pure _
  refine (log_blind _ _).replays.bind fun _ => .get_bind (fun w => ?_) fun w w' h => ?_
  · split_ifs
    · exact (prepare_replays record _ _).bind fun _ => .pure _
    · exact .pure _
  · simp only [World.view, View.mk.injEq] at h
    simp only [h.1, h.2.1]

theorem commit_blind (output : Path) (ready : Ready) : (commit output ready).Blind := by
  cases ready with
  | nothing => exact (Blind.print _).bind fun _ => .pure _
  | pruned store stale =>
    exact ((Store.save_blind _).phase _).bind fun _ =>
      (Staging.deleteClassFiles_blind _ _).bind fun _ => (Blind.print _).bind fun _ => .pure _
  | rejected => exact .pure _
  | compiled ws store stale produced count =>
    refine .finishing ?_ (Staging.discard_blind ws)
    refine ((Store.save_blind _).phase _).bind fun _ => ?_
    refine (Blind.phase ?_ _).bind fun _ => (log_blind _ _).bind fun _ => .pure _
    exact (Staging.deleteClassFiles_blind _ _).bind fun _ => Staging.copyClassFiles_blind _ _ _

/-- The first call of a tool in a build depends on the disk, the working directory and the
environment only. -/
theorem run_replays (record : tools.KeepsRecord) (storeRoot output sourceTree : Path) :
    (run tools storeRoot output sourceTree).Replays Call.IsCompile := by
  refine (survey_replays record _ _ _).bind fun job => ?_
  cases job with
  | empty => exact (Blind.print _).replays.bind fun _ => .pure _
  | full t storeAt => exact (Blind.print _).replays.bind fun _ => full_replays record t storeAt
  | incremental output ready => exact (commit_blind output ready).replays

end Build

end Recompile
