import Recompile.Directory.Scratch
import Recompile.Proofs.Directory.Reached

/-!
# Making a scratch directory

A scratch directory is new. Its path is one name pushed onto the path of the directory for temporary
files, so that it stays reachable whatever happens in it, and without it the disk is as before.
-/

namespace Recompile.Directory

open Disk

attribute [local irreducible] Action.wp

variable {w w' : World} {p : Path} {l : Location}

theorem isName_scratchName (n : Nat) : Path.IsName (scratchName n) := by
  have hfirst : 't' ∈ (scratchName n).toList := by simp [scratchName]
  have hletter : ∀ k < 26, Char.ofNat ('a'.toNat + k) ≠ '/' := by decide
  refine .of_mem hfirst (by decide) ?_
  simp only [scratchName, String.toList_append, String.toList_ofList, List.mem_append,
    List.mem_map, not_or]
  refine ⟨by decide, ?_⟩
  rintro ⟨i, -, hi⟩
  exact hletter _ (Nat.mod_lt _ (by decide)) hi

/-- The directory for temporary files, as it is found from a working directory. -/
def temporaryFor (cwd : Location) (environment : Table) : Path :=
  let directory : Path := ⟨(environment["TMPDIR"]?).getD "/tmp"⟩
  if directory.isAbsolute then directory else cwd.toPath.join directory

theorem temporary_quiet :
    temporary.wp w (fun p w' => w' = w ∧ p = temporaryFor w.cwd w.environment) fun _ w' => w' = w := by
  unfold temporary temporaryFor
  simp only [Action.wp_bind, Action.wp_get]
  split_ifs with habsolute
  · simp
  · rw [Action.wp_bind, Action.wp_query]
    split <;> simp

/-- The path reaches a place in the directory for temporary files. -/
def Temporary (d : Disk) (cwd : Location) (environment : Table) (p : Path) (l : Location) : Prop :=
  ∃ k n, Leads d cwd (temporaryFor cwd environment) k ∧ l = k ++ [scratchName n] ∧
    p = (temporaryFor cwd environment).push (scratchName n)

theorem Temporary.reaches (h : Temporary w.disk w.cwd w.environment p l) :
    w.disk.Reaches w.cwd p l := by
  obtain ⟨k, n, hleads, rfl, rfl⟩ := h
  refine ⟨_, k, [], scratchName n, hleads, by simp, isName_scratchName n, rfl, by simp, ?_⟩
  intro rest hne hprefix
  exact absurd (List.prefix_nil.1 hprefix) hne

/-- The world after a new directory was made at `l`, which `p` reaches. -/
structure Scratched (w : World) (p : Path) (l : Location) (w' : World) : Prop where
  after : w' = { w with disk := w.disk.put l .directory }
  absent : w.disk.find? l = none
  place : Temporary w.disk w.cwd w.environment p l
  check : p.check = .ok ()
  tree : w.disk.IsTree → w'.disk.IsTree

theorem makeScratchFrom_scratched (limit n : Nat) :
    (makeScratchFrom (temporaryFor w.cwd w.environment) limit n).wp w
      (fun p w' => ∃ l, Scratched w p l w') fun _ w' => w' = w := by
  induction limit generalizing n with
  | zero => exact (Action.wp_failed _).2 rfl
  | succ limit ih =>
    unfold makeScratchFrom
    simp only [Action.wp_bind, Action.wp_attempt]
    cases hmake : w.disk.makeDirectory w.cwd
        ((temporaryFor w.cwd w.environment).push (scratchName n)) with
    | ok d =>
      have hname := isName_scratchName n
      obtain ⟨k, name, slash, hslot, hnone, rfl⟩ := Disk.makeDirectory_eq_ok_iff.1 hmake
      obtain ⟨hcheck, hsize, s, hleads, heq⟩ := (slot_push_eq_ok_iff hname).1 hslot
      cases heq
      refine (Action.wp_pure _).2 ⟨_, rfl, hnone, ⟨k, n, hleads, rfl, rfl⟩, hcheck, fun tree => ?_⟩
      exact tree.put hleads.directory hname hsize fun _ => rfl
    | error fault =>
      by_cases hfault : fault = .exists
      · subst hfault
        exact ih (n + 1)
      · cases fault <;> first | exact absurd rfl hfault | exact (Action.wp_failed _).2 rfl

/-- Making a scratch directory adds one directory, or fails and changes nothing. -/
theorem makeScratch_scratched :
    makeScratch.wp w (fun p w' => ∃ l, Scratched w p l w') fun _ w' => w' = w := by
  unfold makeScratch
  rw [Action.wp_within, Action.wp_bind]
  refine (temporary_quiet (w := w)).mono (fun parent w₁ h => ?_) fun _ _ h => h
  obtain ⟨rfl, rfl⟩ := h
  simp only [Action.wp_bind, Action.wp_get]
  exact makeScratchFrom_scratched _ 0

end Recompile.Directory
