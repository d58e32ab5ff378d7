import Recompile.Path.Name
import Recompile.World

/-!
# Finding files by their extension

The search goes through real directories only: links to directories are not entered, and links to
files are not found.
-/

namespace Recompile.Directory

/-- The directories of a listing, as paths. -/
def subdirectories (directory : Path) (entries : List (String × Entry)) : List Path :=
  entries.filterMap fun e => if e.2.isDirectory then some (directory.push e.1) else none

/-- The files of a listing that have the extension, as paths. -/
def matching (extension : String) (directory : Path) (entries : List (String × Entry)) :
    List Path :=
  (entries.filterMap fun e => if e.2.isFile then some (directory.push e.1) else none).filter
    fun p => p.extension = some extension

/-- Searches the pending directories and all below them. Every step takes one directory away, and
there are fewer of them than `limit`. -/
def search (d : Disk) (cwd : Location) (extension : String) :
    (limit : Nat) → (pending : List Path) → Except Failure (List Path)
  | 0, _ => .ok []
  | _, [] => .ok []
  | limit + 1, directory :: pending =>
    match d.readDirectory cwd directory with
    | .error fault => .error ⟨[.readingDirectory directory], .fault fault⟩
    | .ok entries =>
      (matching extension directory entries ++ ·) <$>
        search d cwd extension limit (subdirectories directory entries ++ pending)

/-- The files below a directory that have the extension. -/
def findFiles (directory : Path) (extension : String) : Action (List Path) := do
  let world ← get
  Action.ofExcept
    (search world.disk world.cwd extension (world.disk.entries.length + 2) [directory])

def findSources (directory : Path) : Action (List Path) :=
  Action.within .findingSources (findFiles directory "java")

def findClassFiles (directory : Path) : Action (List Path) :=
  Action.within (.findingClassFiles directory) (findFiles directory "class")

end Recompile.Directory
