import Recompile.Path.Component

/-!
# Absolute paths in normal form

A path read from a working directory takes the names it passes; `..` takes back the last name, if
there is one. What remains, written after one slash with single slashes between, is the normal form
that all spellings of a directory share.
-/

namespace Recompile

/-- A place in the tree of directories: the names that lead to it from the root. -/
abbrev Location := List String

namespace Location

def toPath (l : Location) : Path := ⟨"/" ++ Text.unfields '/' l⟩

end Location

namespace Path

/-- Takes one step from a place, without looking whether names on the way are links. -/
def step (l : Location) : Component → Location
  | .root => []
  | .here => l
  | .up => l.dropLast
  | .name text => l ++ [text]

/-- The place that the path leads to from the working directory. -/
def location (p : Path) (base : Location) : Location :=
  p.components.foldl step base

/-- The normal form of a path. -/
def absolute (p : Path) (workingDirectory : Location) : Path :=
  (p.location workingDirectory).toPath

end Path

end Recompile
