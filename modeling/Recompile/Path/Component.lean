import Recompile.Path.Basic

/-!
# Components of a path

The steps that a path takes: from the root if it is absolute, then one step for each part. Empty
parts and `.` are no steps, except that a relative path may begin with `.`. Paths are ordered step
by step, so `p/A.class` comes before `p.class`.
-/

namespace Recompile

inductive Component where
  | root
  | here
  | up
  | name (text : String)
deriving DecidableEq, Repr, Ord

namespace Component

/-- The step that a part stands for. -/
def ofPart? (part : String) : Option Component :=
  if part = "" || part = "." then none
  else if part = ".." then some up
  else some (name part)

end Component

namespace Path

def components (p : Path) : List Component :=
  match p.parts with
  | [] => []
  | first :: rest =>
    let start : Option Component :=
      if first = "" && !rest.isEmpty then some .root
      else if first = "." then some .here
      else Component.ofPart? first
    start.toList ++ rest.filterMap Component.ofPart?

/-- The order of paths, step by step. -/
def atMost (p q : Path) : Bool := (compare p.components q.components).isLE

def sorted (paths : List Path) : List Path := paths.mergeSort atMost

end Path

end Recompile
