import Recompile.Disk.Operation

/-!
# What lies below a directory

Everything below a directory with its path relative to it, in the order of these paths.
-/

namespace Recompile.Disk

/-- Everything below a location, by the names that lead to it from there. -/
def below (d : Disk) (l : Location) : List (Location × Entry) :=
  d.entries.filterMap fun e =>
    if l.covers e.1 && e.1 != l then some (e.1.drop l.length, e.2) else none

/-- Everything below a directory in the order of relative paths; nothing if there is no such
directory. -/
def tree (d : Disk) (cwd : Location) (directory : Path) : List (String × Entry) :=
  match d.resolve cwd true directory with
  | .error _ => []
  | .ok l =>
    match d.checkDirectory l with
    | .error _ => []
    | .ok () =>
      ((d.below l).map fun e => (Text.unfields '/' e.1, e.2)).mergeSort fun a b => a.1 ≤ b.1

/-- The relative paths of everything below a directory. -/
def listing (d : Disk) (cwd : Location) (directory : Path) : List String :=
  (d.tree cwd directory).map (·.1)

/-- The relative paths of the files below a directory. -/
def files (d : Disk) (cwd : Location) (directory : Path) : List String :=
  ((d.tree cwd directory).filter fun e => e.2.isFile).map (·.1)

end Recompile.Disk
