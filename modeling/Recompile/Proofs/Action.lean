import Mathlib.Tactic.Common
import Recompile.World

/-!
# Reasoning about actions

`Action.wp` says of an action in a world what holds when it ends with a value and what holds when it
fails. It is computed from the parts of an action: one equation for each way to build an action.
-/

namespace Recompile

/-- The program runs where it ran before, with the same environment. -/
structure World.Settled (w w' : World) : Prop where
  cwd : w'.cwd = w.cwd
  environment : w'.environment = w.environment

/-- The program runs where it ran before, with the same environment and no call of a tool between. -/
structure World.Steady (w w' : World) : Prop where
  cwd : w'.cwd = w.cwd
  environment : w'.environment = w.environment
  calls : w'.calls = w.calls

/-- Only what is printed, logged and traced may have changed. -/
structure World.Quiet (w w' : World) : Prop extends World.Steady w w' where
  disk : w'.disk = w.disk

/-- What the actions of the program depend on. -/
structure View where
  disk : Disk
  cwd : Location
  environment : Table

namespace World

def view (w : World) : View := ⟨w.disk, w.cwd, w.environment⟩

theorem Quiet.view {w w' : World} (h : Quiet w w') : w'.view = w.view := by
  rw [World.view, h.disk, h.cwd, h.environment, World.view]

theorem Settled.refl (w : World) : Settled w w := ⟨rfl, rfl⟩

theorem Settled.trans {w₁ w₂ w₃ : World} (h : Settled w₁ w₂) (h' : Settled w₂ w₃) :
    Settled w₁ w₃ := ⟨h'.cwd.trans h.cwd, h'.environment.trans h.environment⟩

theorem Steady.settled {w w' : World} (h : Steady w w') : Settled w w' := ⟨h.cwd, h.environment⟩

theorem Steady.refl (w : World) : Steady w w := ⟨rfl, rfl, rfl⟩

theorem Steady.trans {w₁ w₂ w₃ : World} (h : Steady w₁ w₂) (h' : Steady w₂ w₃) : Steady w₁ w₃ :=
  ⟨h'.cwd.trans h.cwd, h'.environment.trans h.environment, h'.calls.trans h.calls⟩

theorem Quiet.refl (w : World) : Quiet w w := ⟨.refl w, rfl⟩

theorem Quiet.trans {w₁ w₂ w₃ : World} (h : Quiet w₁ w₂) (h' : Quiet w₂ w₃) : Quiet w₁ w₃ :=
  ⟨h.toSteady.trans h'.toSteady, h'.disk.trans h.disk⟩

end World

namespace World

/-- The world after a phase of the trace has ended. -/
def traced (w : World) (name : String) : World :=
  { w with trace := w.trace.map fun t => { t with events := t.events ++ [name] } }

theorem quiet_traced (w : World) (name : String) : Quiet w (w.traced name) := ⟨⟨rfl, rfl, rfl⟩, rfl⟩

end World

namespace Action

variable {α β : Type}

/-- How an action ends in a world, and the world afterwards. -/
def on (a : Action α) (w : World) : Except Failure α × World := a w

/-- The action ends with a value for which `ok` holds in the world afterwards, or with a failure for
which `fail` holds there. -/
def wp (a : Action α) (w : World) (ok : α → World → Prop) (fail : Failure → World → Prop) : Prop :=
  match a.on w with
  | (.ok x, w') => ok x w'
  | (.error failure, w') => fail failure w'

section Rules

variable {w : World} {ok : α → World → Prop} {fail : Failure → World → Prop}

theorem wp_iff (a : Action α) :
    a.wp w ok fail ↔
      (∀ x w', a.on w = (.ok x, w') → ok x w') ∧
        ∀ f w', a.on w = (.error f, w') → fail f w' := by
  unfold wp
  rcases a.on w with ⟨_ | _, _⟩ <;> simp

theorem wp_of_ok {a : Action α} {x : α} {w' : World} (h : a.on w = (.ok x, w')) :
    a.wp w ok fail ↔ ok x w' := by simp [wp, h]

theorem wp_of_error {a : Action α} {f : Failure} {w' : World} (h : a.on w = (.error f, w')) :
    a.wp w ok fail ↔ fail f w' := by simp [wp, h]

theorem wp.mono {ok' : α → World → Prop} {fail' : Failure → World → Prop} {a : Action α}
    (h : a.wp w ok fail) (hok : ∀ x w', ok x w' → ok' x w')
    (hfail : ∀ f w', fail f w' → fail' f w') : a.wp w ok' fail' := by
  rw [wp_iff] at h ⊢
  exact ⟨fun x w' e => hok x w' (h.1 x w' e), fun f w' e => hfail f w' (h.2 f w' e)⟩

theorem wp.and {ok' : α → World → Prop} {fail' : Failure → World → Prop} {a : Action α}
    (h : a.wp w ok fail) (h' : a.wp w ok' fail') :
    a.wp w (fun x w' => ok x w' ∧ ok' x w') fun f w' => fail f w' ∧ fail' f w' := by
  rw [wp_iff] at h h' ⊢
  exact ⟨fun x w' e => ⟨h.1 x w' e, h'.1 x w' e⟩, fun f w' e => ⟨h.2 f w' e, h'.2 f w' e⟩⟩

theorem wp.of_ok {a : Action α} {x : α} {w' : World} (h : a.wp w ok fail)
    (e : a.on w = (.ok x, w')) : ok x w' :=
  ((wp_iff a).1 h).1 x w' e

theorem wp.of_error {a : Action α} {f : Failure} {w' : World} (h : a.wp w ok fail)
    (e : a.on w = (.error f, w')) : fail f w' :=
  ((wp_iff a).1 h).2 f w' e

/-- An action that cannot fail and leaves one world ends there. -/
theorem on_of_wp {a : Action Unit} {w₁ : World} (h : a.wp w (fun _ w' => w' = w₁) fun _ _ => False) :
    a.on w = (.ok (), w₁) := by
  rcases e : a.on w with ⟨f | _, w'⟩
  · exact (h.of_error e).elim
  · rw [h.of_ok e]

theorem wp_of_forall {a : Action α} (hok : ∀ x w', ok x w') (hfail : ∀ f w', fail f w') :
    a.wp w ok fail :=
  (wp_iff a).2 ⟨fun x w' _ => hok x w', fun f w' _ => hfail f w'⟩

/-- What holds after an action however it ends. -/
theorem wp.always {a : Action α} {P : World → Prop} (h : a.wp w (fun _ => P) fun _ => P) :
    P (a.on w).2 := by
  rcases e : a.on w with ⟨_ | _, _⟩
  · exact h.of_error e
  · exact h.of_ok e

@[simp] theorem wp_pure (x : α) : (pure x : Action α).wp w ok fail ↔ ok x w := Iff.rfl

theorem on_bind (a : Action α) (next : α → Action β) (w : World) :
    (a >>= next).on w = match a.on w with
      | (.ok x, w') => (next x).on w'
      | (.error f, w') => (.error f, w') := by
  change ExceptT.bindCont next (a.on w).1 (a.on w).2 = _
  rcases a.on w with ⟨_ | _, _⟩ <;> rfl

@[simp] theorem wp_bind {ok : β → World → Prop} (a : Action α) (next : α → Action β) :
    (a >>= next).wp w ok fail ↔ a.wp w (fun x w' => (next x).wp w' ok fail) fail := by
  simp only [wp, on_bind]
  rcases a.on w with ⟨_ | _, _⟩ <;> rfl

@[simp] theorem wp_map {ok : β → World → Prop} (f : α → β) (a : Action α) :
    (f <$> a).wp w ok fail ↔ a.wp w (fun x w' => ok (f x) w') fail := by
  rw [map_eq_pure_bind, wp_bind]
  rfl

theorem on_tryCatch (a : Action α) (handler : Failure → Action α) (w : World) :
    (tryCatch a handler).on w = match a.on w with
      | (.ok x, w') => (.ok x, w')
      | (.error f, w') => (handler f).on w' := by
  simp only [on, tryCatch, tryCatchThe, MonadExceptOf.tryCatch, ExceptT.tryCatch, ExceptT.mk, bind,
    StateT.bind]
  rcases a w with ⟨_ | _, _⟩ <;> rfl

@[simp] theorem wp_tryCatch (a : Action α) (handler : Failure → Action α) :
    (tryCatch a handler).wp w ok fail ↔ a.wp w ok fun f w' => (handler f).wp w' ok fail := by
  simp only [wp, on_tryCatch]
  rcases a.on w with ⟨_ | _, _⟩ <;> rfl

@[simp] theorem wp_throw (f : Failure) : (throw f : Action α).wp w ok fail ↔ fail f w := Iff.rfl

@[simp] theorem wp_failed (cause : Cause) :
    (failed cause : Action α).wp w ok fail ↔ fail cause w := Iff.rfl

@[simp] theorem wp_get {ok : World → World → Prop} :
    (get : Action World).wp w ok fail ↔ ok w w := Iff.rfl

@[simp] theorem wp_modify {ok : Unit → World → Prop} (f : World → World) :
    (modify f : Action Unit).wp w ok fail ↔ ok () (f w) := Iff.rfl

@[simp] theorem wp_ofExcept (e : Except Failure α) :
    (ofExcept e).wp w ok fail ↔ match e with
      | .ok x => ok x w
      | .error f => fail f w := by
  cases e <;> rfl

@[simp] theorem wp_within (step : Step) (a : Action α) :
    (within step a).wp w ok fail ↔ a.wp w ok fun f w' => fail (f.within step) w' := by
  simp [within]

@[simp] theorem wp_ask {ok : Except Fault α → World → Prop}
    (question : Disk → Location → Except Fault α) :
    (ask question).wp w ok fail ↔ ok (question w.disk w.cwd) w := Iff.rfl

@[simp] theorem wp_query (question : Disk → Location → Except Fault α) :
    (query question).wp w ok fail ↔ match question w.disk w.cwd with
      | .ok x => ok x w
      | .error fault => fail (Cause.fault fault) w := by
  simp only [query, wp_bind, wp_ask]
  cases question w.disk w.cwd <;> rfl

@[simp] theorem wp_attempt {ok : Except Fault Unit → World → Prop}
    (operation : Disk → Location → Except Fault Disk) :
    (attempt operation).wp w ok fail ↔ match operation w.disk w.cwd with
      | .ok disk => ok (.ok ()) { w with disk }
      | .error fault => ok (.error fault) w := by
  simp only [attempt, wp_bind, wp_ask]
  cases operation w.disk w.cwd <;> rfl

@[simp] theorem wp_change {ok : Unit → World → Prop}
    (operation : Disk → Location → Except Fault Disk) :
    (change operation).wp w ok fail ↔ match operation w.disk w.cwd with
      | .ok disk => ok () { w with disk }
      | .error fault => fail (Cause.fault fault) w := by
  simp only [change, wp_bind, wp_attempt]
  cases operation w.disk w.cwd <;> rfl

theorem wp_undoing (undo : Action Unit) (a : Action α) :
    (undoing undo a).wp w ok fail ↔
      a.wp w ok fun f w' => undo.wp w' (fun _ w'' => fail f w'') fail := by
  simp [undoing]

theorem wp_finishing (after : Action Unit) (a : Action α) :
    (finishing after a).wp w ok fail ↔
      a.wp w (fun x w' => after.wp w' (fun _ w'' => ok x w'') fail)
        fun f w' => after.wp w' (fun _ w'' => fail f w'') fail := by
  simp [finishing]

@[simp] theorem wp_phase (name : String) (a : Action α) :
    (phase name a).wp w ok fail ↔
      a.wp w (fun x w' => ok x (w'.traced name)) fun f w' => fail f (w'.traced name) := by
  rw [phase, wp_finishing]
  rfl

@[simp] theorem wp_print {ok : Unit → World → Prop} (text : String) :
    (print text).wp w ok fail ↔ ok () { w with out := w.out ++ text.toUTF8 } := Iff.rfl

@[simp] theorem wp_log {ok : Unit → World → Prop} (level : Log.Level) (target message : String) :
    (log level target message).wp w ok fail ↔
      ok () { w with log := w.log ++ [⟨level, target, message⟩] } := Iff.rfl

@[simp] theorem wp_logAll {ok : Unit → World → Prop} (events : List Log.Event) :
    (logAll events).wp w ok fail ↔ ok () { w with log := w.log ++ events } := Iff.rfl

/-- Actions that begin alike and go on alike from there. -/
theorem on_bind_congr {a a' : Action α} {next next' : α → Action β} (hon : a.on w = a'.on w)
    (hnext : a.wp w (fun x w' => (next x).on w' = (next' x).on w') fun _ _ => True) :
    (a >>= next).on w = (a' >>= next').on w := by
  rw [on_bind, on_bind, ← hon]
  rcases e : a.on w with ⟨f | x, w'⟩
  · rfl
  · exact hnext.of_ok e

theorem on_bind_left {a a' : Action α} {next : α → Action β} (hon : a.on w = a'.on w) :
    (a >>= next).on w = (a' >>= next).on w := by rw [on_bind, on_bind, hon]

/-- An action with a known result does as much as one that gives that result afterwards. -/
theorem on_eq_map {a : Action α} {x : α} (h : a.wp w (fun y _ => y = x) fun _ _ => True) :
    a.on w = ((fun _ => x) <$> a).on w := by
  rw [map_eq_pure_bind, on_bind]
  rcases e : a.on w with ⟨f | y, w'⟩
  · rfl
  · rw [← h.of_ok e]
    rfl

theorem on_finishing_congr {after : Action Unit} {a a' : Action α} (hon : a.on w = a'.on w) :
    (finishing after a).on w = (finishing after a').on w := by
  unfold finishing
  refine on_bind_left ?_
  rw [on_tryCatch, on_tryCatch, map_eq_pure_bind, map_eq_pure_bind, on_bind, on_bind, hon]

theorem on_phase_congr {name : String} {a a' : Action α} (hon : a.on w = a'.on w) :
    (phase name a).on w = (phase name a').on w := on_finishing_congr hon

/-- A list of actions keeps what each of them keeps. -/
theorem wp_forM {I : World → Prop} {fail : Failure → World → Prop} (f : α → Action Unit)
    (items : List α) (step : ∀ item ∈ items, ∀ w, I w → (f item).wp w (fun _ => I) fail)
    (init : I w) : (items.forM f).wp w (fun _ => I) fail := by
  induction items generalizing w with
  | nil => exact init
  | cons item rest ih =>
    rw [List.forM, wp_bind]
    refine (step item List.mem_cons_self w init).mono (fun _ w' h => ?_) fun _ _ => id
    exact ih (fun other h => step other (List.mem_cons_of_mem item h)) h

/-- What holds after each beginning of a list of actions holds after all of them. -/
theorem wp_forM_prefix {I : List α → World → Prop} {fail : Failure → World → Prop}
    {f : α → Action Unit} {items : List α}
    (step : ∀ done item rest, items = done ++ item :: rest → ∀ w, I done w →
      ([item].forM f).wp w (fun _ => I (done ++ [item])) fail)
    (init : I [] w) : (items.forM f).wp w (fun _ => I items) fail := by
  have hrest : ∀ rest done w, items = done ++ rest → I done w →
      (rest.forM f).wp w (fun _ => I items) fail := by
    intro rest
    induction rest with
    | nil =>
      intro done w heq h
      rw [List.append_nil] at heq
      exact heq ▸ h
    | cons item rest ih =>
      intro done w heq h
      rw [List.forM, wp_bind]
      have hstep := step done item rest heq w h
      rw [List.forM, wp_bind] at hstep
      exact hstep.mono (fun _ w' h' => ih (done ++ [item]) w' (by simp [heq]) h') fun _ _ => id
  exact hrest items [] w rfl init

end Rules

end Action

end Recompile
