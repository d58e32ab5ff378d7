import Recompile.Disk.Operation
import Recompile.Text.Utf8

/-!
# Finding the program that a file holds

A file that can be run is the image of a built-in program, or a script whose first line names its
interpreter. A name without a slash is searched in the directories of the search path.
-/

namespace Recompile

/-- A built-in program and the arguments to put before those it is given. -/
structure Program where
  name : String
  before : List String
deriving DecidableEq, Repr

namespace Program

/-- What the image of a built-in program begins with. -/
def magic : String := "\x7fELF"

def image (name : String) : Entry := .file (magic ++ name).toUTF8 true

/-- How many interpreters may be needed one for the other. -/
def interpreterLimit : Nat := 4

/-- What follows `#!` on the first line of a script: the interpreter and at most one argument. -/
def interpreter? (text : String) : Option (String × List String) := do
  let line ← Text.after? "#!" ((Text.fields '\n' text).headD "")
  let isGap (c : Char) : Bool := c = ' ' || c = '\t'
  let trimmed := ((line.toList.dropWhile isGap).reverse.dropWhile isGap).reverse
  let name := trimmed.takeWhile fun c => !isGap c
  let argument := (trimmed.drop name.length).dropWhile isGap
  if name.isEmpty then none
  else some (String.ofList name, if argument.isEmpty then [] else [String.ofList argument])

/-- The program to run for a file. -/
def load (d : Disk) (cwd : Location) : (limit : Nat) → Path → Except Fault Program
  | 0, _ => .error .tooManyLinks
  | limit + 1, p => do
    match ← d.look cwd p with
    | .file bytes true =>
      let text := (Text.decode bytes).toOption.getD ""
      match Text.after? magic text, interpreter? text with
      | some name, _ => return ⟨name, []⟩
      | none, some (interpreter, arguments) =>
        let program ← load d cwd limit ⟨interpreter⟩
        return ⟨program.name, program.before ++ arguments ++ [p.text]⟩
      | none, none => .error .execFormat
    | _ => .error .accessDenied

/-- The search path of programs that are run without one. -/
def defaultSearchPath : String := "/bin:/usr/bin"

/-- The first program found in the directories. A refusal for lack of rights is remembered while the
search goes on. -/
def searchIn (d : Disk) (cwd : Location) (name : String) : (refused : Bool) →
    List String → Except Fault (Path × Program)
  | refused, [] => .error (if refused then .accessDenied else .noEntry)
  | refused, directory :: rest =>
    let p := (Path.mk (if directory = "" then "." else directory)).push name
    match load d cwd interpreterLimit p with
    | .ok program => .ok (p, program)
    | .error .accessDenied => searchIn d cwd name true rest
    | .error .noEntry | .error .notDirectory => searchIn d cwd name refused rest
    | .error fault => .error fault

/-- The program of that name and the path at which it was found. -/
def find (d : Disk) (cwd : Location) (searchPath : Option String) (name : String) :
    Except Fault (Path × Program) :=
  if '/' ∈ name.toList || name = "" then
    (load d cwd interpreterLimit ⟨name⟩).map fun program => (⟨name⟩, program)
  else searchIn d cwd name false (Text.fields ':' (searchPath.getD defaultSearchPath))

end Program

end Recompile
