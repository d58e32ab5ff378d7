import Recompile.Directory.Remove
import Recompile.Proofs.Action
import Recompile.Proofs.Disk.Operation

/-!
# Removing and making directories

However a removal ends, what is left on the disk was there before. However making a directory ends,
only directories were added, at places where nothing was.
-/

namespace Recompile

/-- The program goes on where it was, and what is left on the disk was there before. -/
structure World.Shrunk (w w' : World) : Prop extends World.Steady w w' where
  keeps : w'.disk.Keeps w.disk
  tree : w.disk.IsTree → w'.disk.IsTree

/-- Directories were added at places where nothing was, and nothing else has changed. -/
def Disk.DirectoriesAdded (d d' : Disk) : Prop :=
  ∀ l, d'.find? l = d.find? l ∨ d.find? l = none ∧ d'.find? l = some .directory

/-- The program goes on where it was, and only directories were added to the disk. -/
structure World.Spread (w w' : World) : Prop extends World.Steady w w' where
  added : w.disk.DirectoriesAdded w'.disk
  tree : w.disk.IsTree → w'.disk.IsTree

namespace World

theorem Shrunk.refl (w : World) : Shrunk w w := ⟨.refl w, .refl w.disk, id⟩

theorem Shrunk.trans {w₁ w₂ w₃ : World} (h : Shrunk w₁ w₂) (h' : Shrunk w₂ w₃) : Shrunk w₁ w₃ :=
  ⟨h.toSteady.trans h'.toSteady, h'.keeps.trans h.keeps, h'.tree ∘ h.tree⟩

theorem Spread.refl (w : World) : Spread w w := ⟨.refl w, fun _ => .inl rfl, id⟩

theorem Spread.trans {w₁ w₂ w₃ : World} (h : Spread w₁ w₂) (h' : Spread w₂ w₃) : Spread w₁ w₃ := by
  refine ⟨h.toSteady.trans h'.toSteady, fun l => ?_, h'.tree ∘ h.tree⟩
  rcases h'.added l with h₂ | ⟨hnone, hdir⟩
  · rw [h₂]
    exact h.added l
  · rcases h.added l with h₁ | ⟨-, hdir'⟩
    · exact .inr ⟨h₁ ▸ hnone, hdir⟩
    · rw [hdir'] at hnone
      cases hnone

end World

theorem Disk.DirectoriesAdded.keeps {d d' : Disk} (h : d.DirectoriesAdded d') : d.Keeps d' := by
  refine .of_subset fun l e he => ?_
  rcases h l with hl | ⟨hnone, -⟩
  · rw [hl, he]
  · rw [he] at hnone
    cases hnone

namespace Directory

open World

variable {w : World}

theorem removeTree_shrunk (p : Path) :
    (removeTree p).wp w (fun _ => Shrunk w) fun _ => Shrunk w := by
  unfold removeTree
  simp only [Action.wp_bind, Action.wp_query]
  cases hlook : w.disk.lookAt w.cwd p with
  | error fault => exact .refl w
  | ok e =>
    cases e with
    | file => exact .refl w
    | link target =>
      simp only [Action.wp_change]
      cases hremove : w.disk.removeFile w.cwd p with
      | error fault => exact .refl w
      | ok d => exact ⟨⟨rfl, rfl, rfl⟩, Disk.removeFile_keeps hremove, fun tree => Disk.removeFile_tree tree hremove⟩
    | directory =>
      simp only [Action.wp_bind, Action.wp_change]
      cases hclear : (do return w.disk.clear (← w.disk.resolve w.cwd false p) : Except Fault Disk) with
      | error fault => exact .refl w
      | ok d =>
        obtain ⟨l, -, hd⟩ := Except.bind_eq_ok_iff.1 hclear
        cases hd
        have hfirst : Shrunk w { w with disk := w.disk.clear l } :=
          ⟨⟨rfl, rfl, rfl⟩, w.disk.clear_keeps l, fun tree => tree.clear l⟩
        simp only [Action.wp_attempt]
        cases hremove : (w.disk.clear l).removeDirectory w.cwd p with
        | error fault => cases fault <;> exact hfirst
        | ok d' =>
          exact hfirst.trans ⟨⟨rfl, rfl, rfl⟩, Disk.removeDirectory_keeps hremove,
            fun tree => Disk.removeDirectory_tree tree hremove⟩

theorem removeAny_shrunk (p : Path) :
    (removeAny p).wp w (fun _ => Shrunk w) fun _ => Shrunk w := by
  have hfile : (Action.change fun d cwd => d.removeFile cwd p).wp w (fun _ => Shrunk w)
      fun _ => Shrunk w := by
    rw [Action.wp_change]
    cases hremove : w.disk.removeFile w.cwd p with
    | error fault => exact .refl w
    | ok d => exact ⟨⟨rfl, rfl, rfl⟩, Disk.removeFile_keeps hremove, fun tree => Disk.removeFile_tree tree hremove⟩
  unfold removeAny
  simp only [Action.wp_bind, Action.wp_ask]
  cases hlook : w.disk.lookAt w.cwd p with
  | error fault => cases fault <;> exact .refl w
  | ok e =>
    cases e with
    | directory => exact removeTree_shrunk p
    | file => exact hfile
    | link => exact hfile

theorem makeDirectory_added {d d' : Disk} {cwd : Location} {p : Path}
    (h : d.makeDirectory cwd p = .ok d') : d.DirectoriesAdded d' := by
  obtain ⟨l, name, slash, -, hnone, rfl⟩ := Disk.makeDirectory_eq_ok_iff.1 h
  intro m
  rw [Disk.find?_put _ (by simp)]
  by_cases hm : m = l ++ [name]
  · exact .inr ⟨hm ▸ hnone, by simp [hm]⟩
  · exact .inl (by simp [hm])

/-- An answer to making a directory is accepted without a change of the disk. -/
theorem existing_quiet (p : Path) (answer : Except Fault Unit) :
    (createFirst.existing p answer).wp w
      (fun _ w' => w' = w ∧ (answer = .ok () ∨ w.disk.isDirectory w.cwd p = true))
      fun _ w' => w' = w := by
  cases answer with
  | ok u => exact ⟨rfl, .inl rfl⟩
  | error fault =>
    simp only [createFirst.existing, Action.wp_bind, Action.wp_get]
    split_ifs with h
    · exact ⟨rfl, .inr h⟩
    · exact rfl

theorem createFirst_spread (paths : List Path) :
    (createFirst paths).wp w (fun _ => Spread w) fun _ => Spread w := by
  induction paths generalizing w with
  | nil => exact .refl w
  | cons p above ih =>
    have hattempt (w₁ : World) (h₁ : Spread w w₁) :
        (Action.attempt fun d cwd => d.makeDirectory cwd p).wp w₁
          (fun answer w₂ => (createFirst.existing p answer).wp w₂ (fun _ => Spread w)
            fun _ => Spread w) fun _ => Spread w := by
      rw [Action.wp_attempt]
      cases hmake : w₁.disk.makeDirectory w₁.cwd p with
      | ok d =>
        have h₂ : Spread w { w₁ with disk := d } :=
          h₁.trans ⟨⟨rfl, rfl, rfl⟩, makeDirectory_added hmake,
            fun tree => Disk.makeDirectory_tree tree hmake⟩
        exact (existing_quiet p (.ok ())).mono (fun _ _ h => h.1 ▸ h₂) fun _ _ h => h ▸ h₂
      | error fault =>
        exact (existing_quiet p (.error fault)).mono (fun _ _ h => h.1 ▸ h₁) fun _ _ h => h ▸ h₁
    unfold createFirst
    simp only [Action.wp_bind, Action.wp_attempt]
    cases hmake : w.disk.makeDirectory w.cwd p with
    | ok d => exact ⟨⟨rfl, rfl, rfl⟩, makeDirectory_added hmake,
        fun tree => Disk.makeDirectory_tree tree hmake⟩
    | error fault =>
      by_cases hfault : fault = .noEntry
      · subst hfault
        simp only [Action.wp_bind]
        exact ih.mono (fun _ w₁ h₁ => hattempt w₁ h₁) fun _ _ => id
      · have hexisting : (createFirst.existing p (.error fault)).wp w (fun _ => Spread w)
            fun _ => Spread w :=
          (existing_quiet p (.error fault)).mono (fun _ _ h => h.1 ▸ .refl w) fun _ _ h =>
            h ▸ .refl w
        cases fault <;> first | exact absurd rfl hfault | exact hexisting

theorem create_spread (p : Path) : (create p).wp w (fun _ => Spread w) fun _ => Spread w :=
  createFirst_spread p.selfAndAbove

end Directory

end Recompile
