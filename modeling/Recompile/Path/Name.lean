import Recompile.Path.Basic

/-!
# The last name of a path

Empty parts and `.` at the end of a path do not count, the first part excepted: `a/b/./` ends in the
name `b`. A name splits at its last dot into a stem and an extension, unless that dot is its first
character: `.java` is all stem.
-/

namespace Recompile.Path

/-- The parts without the empty ones and the `.` at the end; the first part always stays. -/
def trimTail : List String → List String
  | [] => []
  | head :: tail =>
    head :: (tail.reverse.dropWhile fun part => part = "" || part = ".").reverse

/-- The parts before the last name, and that name. -/
def splitName (p : Path) : Option (List String × String) :=
  let trimmed := trimTail p.parts
  match trimmed.getLast? with
  | none => none
  | some last =>
    if last = "" || last = "." || last = ".." then none else some (trimmed.dropLast, last)

def fileName (p : Path) : Option String := p.splitName.map (·.2)

/-- The stem and the extension of a name. -/
def splitExtension (name : String) : String × Option String :=
  match Text.cutLast? "." name with
  | none => (name, none)
  | some (stem, extension) => if stem = "" then (name, none) else (stem, some extension)

def extension (p : Path) : Option String := p.fileName.bind fun name => (splitExtension name).2

/-- Puts `extension` in place of the extension of the last name, and drops what follows that name.
A path without a name stays as it is. -/
def withExtension (p : Path) (extension : String) : Path :=
  match p.splitName with
  | none => p
  | some (before, name) => ofParts (before ++ [(splitExtension name).1 ++ "." ++ extension])

/-- The path up to its last part; nothing for the empty path and the root. -/
def parent (p : Path) : Option Path :=
  match trimTail p.parts with
  | [] => none
  | [only] => if only = "" then none else some ⟨""⟩
  | parts =>
    let up := ofParts (trimTail parts.dropLast)
    if up.text = "" then some ⟨"/"⟩ else some up

/-- The path, its parent, the parent of that and so on, at most `limit` of them and without the
empty path. -/
def ancestors : (limit : Nat) → Path → List Path
  | 0, _ => []
  | limit + 1, p =>
    if p.text = "" then []
    else p :: match p.parent with
      | some up => ancestors limit up
      | none => []

/-- The path and everything above it, the nearest first. -/
def selfAndAbove (p : Path) : List Path := ancestors p.parts.length p

end Recompile.Path
