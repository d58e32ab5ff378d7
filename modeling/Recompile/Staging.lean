import Recompile.ClassName
import Recompile.Directory.Copy
import Recompile.Directory.Scratch

/-!
# Staging class files

A partial compilation works in two scratch directories: a copy of the class files that stay, as the
classpath, and an empty destination. The output directory is changed only after it has succeeded.
-/

namespace Recompile.Staging

/-- Copies the file of each class from one class directory to another. -/
def copyClassFiles (source target : Path) (classes : List String) : Action Unit :=
  classes.forM fun className => do
    let file := ClassName.artifact className
    let copied := source.join file
    let written := target.join file
    Action.log .debug "incjc::stage" "copying class"
    match written.parent with
    | some directory => Action.within (.creating directory) (Directory.create directory)
    | none => pure ()
    Action.within (.copyingClass copied written) (Directory.copyFile copied written)

/-- Deletes the file of each class from a class directory. -/
def deleteClassFiles (directory : Path) (classes : List String) : Action Unit :=
  classes.forM fun className => do
    let file := directory.join (ClassName.artifact className)
    Action.log .debug "incjc::stage" "deleting class file"
    Action.within (.deletingClass file) (Action.change fun d cwd => d.removeFile cwd file)

/-- The two scratch directories of one attempt. -/
structure Workspace where
  classpath : Path
  destination : Path
deriving DecidableEq, Repr

namespace Workspace

def make : Action Workspace := do
  let classpath ← Directory.makeScratch
  Action.undoing (Directory.discard classpath) do
    let destination ← Directory.makeScratch
    return ⟨classpath, destination⟩

/-- Removes both directories. -/
def discard (w : Workspace) : Action Unit := do
  Directory.discard w.classpath
  Directory.discard w.destination

/-- A workspace whose classpath holds the files of the given classes. If they cannot be copied, no
workspace remains. -/
def stage (output : Path) (classes : List String) : Action Workspace := do
  let w ← make
  Action.undoing w.discard (copyClassFiles output w.classpath classes)
  return w

end Workspace

end Recompile.Staging
