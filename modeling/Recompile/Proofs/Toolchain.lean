import Recompile.Proofs.Action
import Recompile.Proofs.Disk.Tree
import Recompile.Toolchain.Basic

/-!
# Tools that write only where they are told to

A compiler writes into the destination it is given, an examiner, if anything, into the directory its
class files are in. What stands elsewhere is the same afterwards, listed in the same order.
-/

namespace Recompile

/-- The world after a call of a tool was kept. -/
def World.called (w : World) (call : Call) : World := { w with calls := w.calls ++ [call] }

@[simp] theorem World.view_called (w : World) (call : Call) : (w.called call).view = w.view := rfl

namespace Toolchain

variable {tools : Toolchain} {w : World}

theorem wp_runCompiler {ok : Bool → World → Prop} {fail : Failure → World → Prop}
    (sources : List String) (classpath destination : Path) :
    (tools.runCompiler sources classpath destination).wp w ok fail ↔
      (tools.compile sources classpath destination).wp
        (w.called (.compile sources classpath destination w.disk)) ok fail := by
  unfold runCompiler
  simp only [Action.wp_bind, Action.wp_modify]
  rfl

theorem wp_runExaminer {ok : List ClassFact → World → Prop} {fail : Failure → World → Prop}
    (classFiles : List Path) :
    (tools.runExaminer classFiles).wp w ok fail ↔
      (tools.examine classFiles).wp (w.called (.examine classFiles w.disk)) ok fail := by
  unfold runExaminer
  simp only [Action.wp_bind, Action.wp_modify]
  rfl

end Toolchain

/-- Only what lies below `l` may have changed on the disk, and the disk is still a tree. -/
structure World.Confined (l : Location) (w w' : World) : Prop extends World.Steady w w' where
  clear : w'.disk.clear l = w.disk.clear l
  tree : w.disk.IsTree → w'.disk.IsTree

/-- Only what lies below `l` may have changed on the disk, with calls of tools between. -/
structure World.Bounded (l : Location) (w w' : World) : Prop extends World.Settled w w' where
  clear : w'.disk.clear l = w.disk.clear l
  tree : w.disk.IsTree → w'.disk.IsTree

/-- The path is spelled as a directory with proper names pushed onto it. -/
def Path.IsBelow (directory p : Path) : Prop :=
  ∃ names : List String, (∀ name ∈ names, IsName name) ∧ p = names.foldl push directory

/-- Whatever the tools are called with, they change nothing outside of the destination of a
compilation or of the directory of the class files that are examined. -/
structure Toolchain.StaysInside (tools : Toolchain) : Prop where
  compile : ∀ (sources : List String) (classpath destination : Path) (w : World) (l : Location),
    w.disk.resolve w.cwd true destination = .ok l → w.disk.find? l = some .directory →
      (tools.compile sources classpath destination).wp w (fun _ => w.Confined l)
        fun _ => w.Confined l
  examine : ∀ (classFiles : List Path) (directory : Path) (w : World) (l : Location),
    w.disk.resolve w.cwd true directory = .ok l → w.disk.find? l = some .directory →
      (∀ file ∈ classFiles, directory.IsBelow file) →
      (tools.examine classFiles).wp w (fun _ => w.Confined l) fun _ => w.Confined l

namespace World

variable {l : Location} {w w' : World}

theorem Confined.bounded (h : Confined l w w') : Bounded l w w' :=
  ⟨h.toSteady.settled, h.clear, h.tree⟩

namespace Bounded

theorem refl (l : Location) (w : World) : Bounded l w w := ⟨.refl w, rfl, id⟩

theorem trans {w₁ w₂ w₃ : World} (h : Bounded l w₁ w₂) (h' : Bounded l w₂ w₃) :
    Bounded l w₁ w₃ :=
  ⟨h.toSettled.trans h'.toSettled, h'.clear.trans h.clear, h'.tree ∘ h.tree⟩

theorem congr {w₁ w₂ w₁' w₂' : World} (h : Bounded l w₁ w₂) (h₁ : w₁'.view = w₁.view)
    (h₂ : w₂'.view = w₂.view) : Bounded l w₁' w₂' := by
  simp only [view, View.mk.injEq] at h₁ h₂
  refine ⟨⟨?_, ?_⟩, ?_, ?_⟩
  · rw [h₁.2.1, h₂.2.1, h.cwd]
  · rw [h₁.2.2, h₂.2.2, h.environment]
  · rw [h₁.1, h₂.1, h.clear]
  · rw [h₁.1, h₂.1]
    exact h.tree

theorem find? (h : Bounded l w w') {m : Location} (hm : l.covers m = true → m = l) :
    w'.disk.find? m = w.disk.find? m := by
  have key (d : Disk) : (d.clear l).find? m = d.find? m := by
    rw [Disk.find?_clear, if_neg]
    rintro ⟨hcovers, hne, -⟩
    exact hne (hm hcovers)
  rw [← key, h.clear, key]

theorem erase (h : Bounded l w w') : w'.disk.erase l = w.disk.erase l := by
  rw [← Disk.erase_clear, h.clear, Disk.erase_clear]

end Bounded

end World

namespace Toolchain

/-- Puts an empty file into a directory, unless a directory has its name. -/
def place (d : Disk) (l : Location) (file : String) : Disk :=
  if (d.find? (l ++ [file])).any Entry.isDirectory then d
  else d.put (l ++ [file]) (.file .empty false)

/-- A compiler that accepts everything and puts the same files into every destination, and an examiner
that reports the same facts about all class files. -/
def writing (files : List String) (facts : List ClassFact) : Toolchain where
  compile _ _ destination := do
    let world ← get
    match world.disk.resolve world.cwd true destination with
    | .ok l => modify fun world => { world with disk := files.foldl (place · l) world.disk }
    | .error _ => pure ()
    return true
  examine _ := return facts

variable {d : Disk} {l : Location}

theorem clear_place (d : Disk) (l : Location) (file : String) : (place d l file).clear l = d.clear l := by
  unfold place
  split_ifs
  · rfl
  · exact d.clear_put (Location.covers_append l [file]) (by simp) _

theorem find?_place (d : Disk) (l : Location) (file : String) (m : Location) :
    (place d l file).find? m = d.find? m ∨
      m = l ++ [file] ∧ (place d l file).find? m = some (.file .empty false) := by
  unfold place
  split_ifs
  · exact .inl rfl
  · rw [Disk.find?_put _ (by simp)]
    by_cases hm : m = l ++ [file]
    · exact .inr ⟨hm, if_pos hm⟩
    · exact .inl (if_neg hm)

/-- Whatever is new is an empty file with one of the names. -/
theorem find?_foldl_place (files : List String) (d : Disk) (l m : Location) :
    (files.foldl (place · l) d).find? m = d.find? m ∨
      (∃ file ∈ files, m = l ++ [file]) ∧
        (files.foldl (place · l) d).find? m = some (.file .empty false) := by
  induction files generalizing d with
  | nil => exact .inl rfl
  | cons file rest ih =>
    rw [List.foldl_cons]
    rcases ih (place d l file) with hsame | ⟨⟨other, hother, hm⟩, hfile⟩
    · rw [hsame]
      exact (find?_place d l file m).imp id fun ⟨hm, hfile⟩ => ⟨⟨file, List.mem_cons_self, hm⟩, hfile⟩
    · exact .inr ⟨⟨other, List.mem_cons_of_mem file hother, hm⟩, hfile⟩

theorem isTree_place (tree : d.IsTree) (hdir : d.find? l = some .directory) {file : String}
    (hfile : Path.IsName file ∧ file.utf8ByteSize ≤ Path.nameLimit) : (place d l file).IsTree := by
  unfold place
  split_ifs with hcond
  · exact tree
  · exact tree.put hdir hfile.1 hfile.2 fun h => absurd (by simp [h, Entry.isDirectory]) hcond

theorem clear_foldl_place (files : List String) (d : Disk) (l : Location) :
    (files.foldl (place · l) d).clear l = d.clear l := by
  induction files generalizing d with
  | nil => rfl
  | cons file rest ih => rw [List.foldl_cons, ih, clear_place]

theorem isTree_foldl_place {files : List String} (tree : d.IsTree)
    (hdir : d.find? l = some .directory)
    (hfiles : ∀ file ∈ files, Path.IsName file ∧ file.utf8ByteSize ≤ Path.nameLimit) :
    (files.foldl (place · l) d).IsTree := by
  induction files generalizing d with
  | nil => exact tree
  | cons file rest ih =>
    have hsame : (place d l file).find? l = some .directory := by
      have hclear := congrArg (·.find? l) (clear_place d l file)
      simpa [Disk.find?_clear, hdir] using hclear
    exact ih (isTree_place tree hdir (hfiles file List.mem_cons_self)) hsame
      fun other hother => hfiles other (List.mem_cons_of_mem file hother)

theorem writing_staysInside {files : List String} (facts : List ClassFact)
    (hfiles : ∀ file ∈ files, Path.IsName file ∧ file.utf8ByteSize ≤ Path.nameLimit) :
    (writing files facts).StaysInside where
  compile _ _ destination w l hresolve hdir := by
    simp only [writing, Action.wp_bind, Action.wp_get, hresolve]
    exact (Action.wp_modify _).2 ⟨⟨rfl, rfl, rfl⟩, clear_foldl_place files w.disk l,
      fun tree => isTree_foldl_place tree hdir hfiles⟩
  examine _ _ w _ _ _ _ := (Action.wp_pure _).2 ⟨.refl w, rfl, id⟩

end Toolchain

end Recompile
