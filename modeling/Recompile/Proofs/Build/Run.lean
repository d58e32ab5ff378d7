import Recompile.Proofs.Build.Prepare

/-!
# A build by its parts

What is to be shown of a build is shown of its parts: a build that finds sources and no store is a
full build, and one that finds a store loads it, compares the sources with it, and goes on from
there. Up to that point nothing on the disk has changed.
-/

namespace Recompile.Build

open Staging World

attribute [local irreducible] Action.wp

variable {tools : Toolchain} {w : World} {t : Target} {storeRoot output sourceTree storeAt : Path}

/-- The store that was loaded, the digests of the sources, and the sources that are affected by what
has changed since the store was saved. -/
structure Compared (t : Target) (storeAt : Path) (w : World) (store : Store) (table : Table)
    (affected : Names) : Prop where
  load : (Store.load storeAt).on w = (.ok store, w)
  digest : Changes.IsDigest w.disk w.cwd t.sources.toList table
  affected : store.affectedSources (Changes.between table store.sources).seeds = .ok affected

namespace Compared

variable {store : Store} {table : Table} {affected : Names}

theorem directory_eq (h : Compared t storeAt w store table affected) : store.directory = storeAt :=
  (Store.load_quiet.of_ok h.load).2

/-- A build compares the sources with the store in one way. -/
theorem unique {store' : Store} {table' : Table} {affected' : Names}
    (c : Compared t storeAt w store table affected)
    (c' : Compared t storeAt w store' table' affected') :
    store = store' ∧ table = table' ∧ affected = affected' := by
  have hload := c.load.symm.trans c'.load
  simp only [Prod.mk.injEq, Except.ok.injEq, and_true] at hload
  subst hload
  obtain rfl := c.digest.unique c'.digest
  exact ⟨rfl, rfl, Except.ok.inj (c.affected.symm.trans c'.affected)⟩

theorem of_quiet {w₁ : World} (hquiet : w.Quiet w₁)
    (c : Compared t storeAt w₁ store table affected) :
    Compared t storeAt w store table affected := by
  obtain ⟨w', hload⟩ := (Store.load_blind storeAt).answers hquiet.view c.load
  obtain ⟨rfl, -⟩ := Store.load_quiet.of_ok hload
  refine ⟨hload, ?_, c.affected⟩
  rw [← hquiet.disk, ← hquiet.cwd]
  exact c.digest

/-- What is to be done about the changes. -/
def plan (_ : Compared t storeAt w store table affected) : Plan :=
  Build.plan store (.between table store.sources) affected

end Compared

section Prepare

variable {ok : Ready → World → Prop} {fail : Failure → World → Prop}

/-- What a build makes ready. It fails before it stages only if the sources cannot be compared with
the store. -/
theorem prepare_wp
    (hfail : ∀ f w', w.Quiet w' →
      (∀ store table affected, ¬ Compared t storeAt w store table affected) → fail f w')
    (hnothing : ∀ store table affected (c : Compared t storeAt w store table affected) w',
      w.Quiet w' → c.plan.recompile.isEmpty →
        (Changes.between table store.sources).deleted.isEmpty → ok .nothing w')
    (hpruned : ∀ store table affected (c : Compared t storeAt w store table affected) w',
      w.Quiet w' → c.plan.recompile.isEmpty →
        ¬ (Changes.between table store.sources).deleted.isEmpty →
        ok (.pruned (strip store c.plan (Changes.between table store.sources).deleted)
          c.plan.stale) w')
    (hstaged : ∀ store table affected (c : Compared t storeAt w store table affected) w',
      w.Quiet w' → ¬ c.plan.recompile.isEmpty →
        (do
          let ws ← Action.phase "stage" (Workspace.stage t.output (unaffected store c.plan))
          Action.undoing ws.discard (compileIn tools ws store (.between table store.sources) c.plan
            t.sourceTree)).wp w' ok fail) :
    (prepare tools t storeAt).wp w ok fail := by
  unfold prepare
  rw [Action.wp_bind]
  rcases hload : (Store.load storeAt).on w with ⟨f | store, w₁⟩
  · rw [Action.wp_of_error hload, Store.load_quiet.of_error hload]
    exact hfail f w (.refl w) fun _ _ _ c => by simp [c.load] at hload
  obtain ⟨rfl, -⟩ := Store.load_quiet.of_ok hload
  rw [Action.wp_of_ok hload, Action.wp_bind, Action.wp_phase]
  refine (Changes.detect_reads t.sources store.sources).mono (fun changes w₂ h₂ => ?_)
    fun f w₂ h₂ => hfail f _ (h₂.1 ▸ quiet_traced w₂ _) fun _ _ _ c => ?_
  on_goal 2 =>
    obtain ⟨-, source, hsource, fault, hfault⟩ := h₂
    obtain ⟨bytes, hbytes, -⟩ := c.digest.read source hsource
    simp [hbytes] at hfault
  obtain ⟨hquiet, table, htable, rfl⟩ := h₂
  have hdetected := hquiet.trans (quiet_traced w₂ "detect")
  simp only [Action.wp_bind, Action.wp_phase, Action.wp_logAll, Action.wp_ofExcept]
  generalize hlogged : ({ w₂.traced "detect" with log := _ } : World).traced "closure" = w₃
  have hquiet₃ : w₁.Quiet w₃ := by
    rw [← hlogged]
    exact hdetected.trans ⟨⟨rfl, rfl, rfl⟩, rfl⟩
  cases haffected : store.affectedSources (Changes.between table store.sources).seeds with
  | error f =>
    refine hfail f w₃ hquiet₃ fun store' table' affected' c => ?_
    obtain rfl : store = store' := by simpa using hload.symm.trans c.load
    obtain rfl := htable.unique c.digest
    exact absurd (haffected.symm.trans c.affected) (by simp)
  | ok affected =>
    have compared : Compared t storeAt w₁ store table affected := ⟨hload, htable, haffected⟩
    dsimp only
    split_ifs with hempty hdeleted
    · exact (Action.wp_pure _).2 (hnothing store table affected compared w₃ hquiet₃ hempty hdeleted)
    · rw [log, Action.wp_bind, Action.wp_log]
      exact (Action.wp_pure _).2 (hpruned store table affected compared _
        (hquiet₃.trans ⟨⟨rfl, rfl, rfl⟩, rfl⟩) hempty hdeleted)
    · rw [Action.wp_bind, Action.wp_print]
      exact hstaged store table affected compared _ (hquiet₃.trans ⟨⟨rfl, rfl, rfl⟩, rfl⟩) hempty

end Prepare

section Run

variable {ok : Outcome → World → Prop} {fail : Failure → World → Prop}

theorem run_wp (hfail : ∀ f, fail f w)
    (hempty : ∀ t, (locate output sourceTree).on w = (.ok t, w) → t.sources.isEmpty = true →
      ∀ w', w.Quiet w' → ok .noSources w')
    (hfull : ∀ t, (locate output sourceTree).on w = (.ok t, w) → t.sources.isEmpty = false →
      Store.isAt w.disk w.cwd (storeFor storeRoot sourceTree w.cwd) = false → ∀ w', w.Quiet w' →
        (full tools t (storeFor storeRoot sourceTree w.cwd)).wp w' ok fail)
    (hincremental : ∀ t, (locate output sourceTree).on w = (.ok t, w) →
      Store.isAt w.disk w.cwd (storeFor storeRoot sourceTree w.cwd) = true → ∀ w', w.Quiet w' →
        (prepare tools t (storeFor storeRoot sourceTree w.cwd)).wp w'
          (fun ready w'' => (commit t.output ready).wp w'' ok fail) fail) :
    (run tools storeRoot output sourceTree).wp w ok fail := by
  unfold run survey
  rw [Action.wp_bind, Action.wp_bind]
  have hlocate := @locate_quiet w output sourceTree
  rcases hon : (locate output sourceTree).on w with ⟨f | t, w₁⟩
  · rw [Action.wp_of_error hon, hlocate.of_error hon]
    exact hfail f
  obtain ⟨rfl, -, htree⟩ := hlocate.of_ok hon
  have hstore : Store.directoryOf storeRoot t.sourceTree = storeFor storeRoot sourceTree w₁.cwd := by
    rw [htree, storeFor]
  rw [Action.wp_of_ok hon]
  by_cases hsources : t.sources.isEmpty = true
  · rw [if_pos hsources, Action.wp_pure, carryOut, Action.wp_bind, Action.wp_print]
    exact (Action.wp_pure _).2 (hempty t hon hsources _ ⟨⟨rfl, rfl, rfl⟩, rfl⟩)
  · rw [if_neg hsources]
    simp only [log, Action.wp_bind, Action.wp_log, Action.wp_get, hstore]
    rw [Bool.not_eq_true] at hsources
    split_ifs with hat
    · rw [Action.wp_bind]
      simp only [Action.wp_pure, carryOut]
      exact hincremental t hon hat _ ⟨⟨rfl, rfl, rfl⟩, rfl⟩
    · rw [Action.wp_pure, carryOut, Action.wp_bind, announceFull, Action.wp_print]
      exact hfull t hon hsources (by simpa using hat) _ ⟨⟨rfl, rfl, rfl⟩, rfl⟩

end Run

end Recompile.Build
