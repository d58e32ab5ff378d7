import Recompile.Build
import Recompile.Proofs.Changes
import Recompile.Proofs.Directory.Find

/-!
# Calling the tools of a build

The compiler and the examiner are called with a directory that is there, so that what they change is
below that directory. Recording what the examiner reports changes nothing more.
-/

namespace Recompile.Build

open World

attribute [local irreducible] Action.wp

variable {tools : Toolchain} {w : World} {l : Location}

theorem compile_bounded (inside : tools.StaysInside) (sources : List String) (classpath : Path)
    {destination : Path} (hresolve : w.disk.resolve w.cwd true destination = .ok l)
    (hdir : w.disk.find? l = some .directory) :
    (Action.phase "compile" (tools.runCompiler sources classpath destination)).wp w
      (fun _ => w.Bounded l) fun _ => w.Bounded l := by
  have hdone (w' : World)
      (h : (w.called (.compile sources classpath destination w.disk)).Confined l w') :
      w.Bounded l (w'.traced "compile") := h.bounded.congr rfl rfl
  rw [Action.wp_phase, Toolchain.wp_runCompiler]
  have hcompile := inside.compile sources classpath destination
    (w.called (.compile sources classpath destination w.disk)) l hresolve hdir
  exact hcompile.mono (fun _ => hdone) fun _ => hdone

/-- The directory whose class files are recorded, if it can be listed, is at `l`. -/
theorem recordClasses_bounded (inside : tools.StaysInside) (store : Store) (sourceTree : Path)
    (digests : Table) {directory : Path} (tree : w.disk.IsTree)
    (hplace : ∀ x, w.disk.resolve w.cwd true directory = .ok x → x = l) :
    (recordClasses tools store sourceTree digests directory).wp w
      (fun recorded w' => w.Bounded l w' ∧
        recorded.1 = (store.addSources digests).record sourceTree recorded.2)
      fun _ => w.Bounded l := by
  unfold recordClasses Directory.findClassFiles
  simp only [Action.wp_bind, Action.wp_within, Action.wp_phase, Toolchain.wp_runExaminer,
    Action.wp_logAll, Action.wp_pure]
  have hfind := @Directory.findFiles_quiet "class" directory w
  refine hfind.mono (fun files w₁ h₁ => ?_) fun _ w' h => ?_
  · obtain ⟨rfl, hbelow, x, hx, hdir⟩ := h₁
    obtain rfl := hplace x hx
    have hexamine := inside.examine (Path.sorted files) directory
      (w₁.called (.examine (Path.sorted files) w₁.disk)) x hx hdir
      fun file hfile => hbelow tree file (List.mem_mergeSort.1 hfile)
    refine hexamine.mono (fun facts w' h => ?_) fun _ w' h => h.bounded.congr rfl rfl
    exact ⟨h.bounded.congr rfl rfl, trivial⟩
  · rw [h]
    exact .refl l w

end Recompile.Build
