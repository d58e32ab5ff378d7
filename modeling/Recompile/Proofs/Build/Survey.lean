import Recompile.Build
import Recompile.Proofs.Changes
import Recompile.Proofs.Directory.Find

/-!
# What a build finds to do

Locating the sources changes nothing, and where the store of a source tree is depends only on the
working directory. A build goes on from the store exactly if there is one.
-/

namespace Recompile.Build

open World

attribute [local irreducible] Action.wp

variable {tools : Toolchain} {w : World} {storeRoot output sourceTree : Path}

theorem absolute_reads (p : Path) :
    (Action.absolute p).wp w (fun q w' => w' = w ∧ q = p.absolute w.cwd) fun _ w' => w' = w := by
  unfold Action.absolute
  simp only [Action.wp_bind, Action.wp_get]
  split_ifs with habsolute
  · rw [Action.wp_bind, Action.wp_query]
    split <;> simp
  · simp

theorem locate_quiet :
    (locate output sourceTree).wp w
      (fun t w' => w' = w ∧ t.output = output.absolute w.cwd ∧
        t.sourceTree = sourceTree.absolute w.cwd)
      fun _ w' => w' = w := by
  unfold locate Directory.findSources
  simp only [Action.wp_bind, Action.wp_within, Action.wp_pure]
  have houtput := absolute_reads (w := w) output
  refine houtput.mono (fun q w₁ h₁ => ?_) fun _ _ h => h
  obtain ⟨rfl, rfl⟩ := h₁
  have hsources := absolute_reads (w := w₁) sourceTree
  refine hsources.mono (fun q w₂ h₂ => ?_) fun _ _ h => h
  obtain ⟨rfl, rfl⟩ := h₂
  exact Directory.findFiles_quiet.mono (fun _ _ h => ⟨h.1, rfl, rfl⟩) fun _ _ h => h

/-- The place of the store that a build of a source tree finds from a working directory. -/
def storeFor (storeRoot sourceTree : Path) (cwd : Location) : Path :=
  Store.directoryOf storeRoot (sourceTree.absolute cwd)

/-- What a build finds to do, by whether there is a store. -/
def Fits (storeRoot sourceTree : Path) (w : World) : Job → World → Prop
  | .empty, w' => w' = w
  | .full t storeAt, w' => w.Quiet w' ∧ t.sourceTree = sourceTree.absolute w.cwd ∧
      storeAt = storeFor storeRoot sourceTree w.cwd ∧ Store.isAt w.disk w.cwd storeAt = false
  | .incremental _ _, _ => Store.isAt w.disk w.cwd (storeFor storeRoot sourceTree w.cwd) = true

theorem survey_fits :
    (survey tools storeRoot output sourceTree).wp w (Fits storeRoot sourceTree w)
      fun _ _ => True := by
  unfold survey
  rw [Action.wp_bind]
  have hlocate := @locate_quiet w output sourceTree
  refine hlocate.mono (fun t w₁ h₁ => ?_) fun _ _ _ => trivial
  obtain ⟨rfl, -, htree⟩ := h₁
  have hstore : Store.directoryOf storeRoot t.sourceTree =
      storeFor storeRoot sourceTree w₁.cwd := by rw [htree, storeFor]
  split_ifs with hempty
  · exact (Action.wp_pure _).2 rfl
  · simp only [log, Action.wp_bind, Action.wp_log, Action.wp_get, hstore]
    split_ifs with hat
    · rw [Action.wp_bind]
      exact (Action.wp_iff _).2 ⟨fun _ _ _ => (Action.wp_pure _).2 hat, fun _ _ _ => trivial⟩
    · exact (Action.wp_pure _).2 ⟨⟨⟨rfl, rfl, rfl⟩, rfl⟩, htree, rfl, by simpa using hat⟩

/-- With sources and no store there is a full build to do. -/
theorem survey_of_locate {t : Target} {w₁ : World}
    (hlocate : (locate output sourceTree).on w = (.ok t, w₁)) (hsources : t.sources.isEmpty = false)
    (hat : Store.isAt w.disk w.cwd (storeFor storeRoot sourceTree w.cwd) = false) :
    ∃ w₂, (survey tools storeRoot output sourceTree).on w =
      (.ok (.full t (storeFor storeRoot sourceTree w.cwd)), w₂) := by
  obtain ⟨rfl, -, htree⟩ := locate_quiet.of_ok hlocate
  have hstore : Store.directoryOf storeRoot t.sourceTree =
      storeFor storeRoot sourceTree w₁.cwd := by rw [htree, storeFor]
  have hspec : (survey tools storeRoot output sourceTree).wp w₁
      (fun job _ => job = .full t (storeFor storeRoot sourceTree w₁.cwd)) fun _ _ => False := by
    unfold survey
    rw [Action.wp_bind, Action.wp_of_ok hlocate, if_neg (by simp [hsources])]
    simp only [log, Action.wp_bind, Action.wp_log, Action.wp_get, hstore, hat]
    exact (Action.wp_pure _).2 rfl
  rcases hon : (survey tools storeRoot output sourceTree).on w₁ with ⟨f | job, w₂⟩
  · exact (hspec.of_error hon).elim
  · exact ⟨w₂, by rw [hspec.of_ok hon]⟩

end Recompile.Build
