import Recompile.ClassName
import Recompile.Text.Blank
import Recompile.Text.Lines
import Recompile.Toolchain.Fact

/-!
# Listings of `javap`

A listing introduces each class by a line that names its source file, and the line after it declares
the class. Everything else in a listing is skipped.
-/

namespace Recompile.Javap

/-- The source file that a line names as the origin of a class. -/
def sourceFile? (line : String) : Option String := do
  let rest ← Text.after? "Compiled from \"" line
  let name ← Text.before? "\"" rest
  if Text.endsWith ".java" name then some name else none

/-- The word after the first `class` or `interface`. -/
def nameAfterKeyword : List String → Option String
  | [] => none
  | word :: rest =>
    if word = "class" || word = "interface" then rest.head? else nameAfterKeyword rest

/-- The class that a line declares, without its type parameters. -/
def declaredClass? (line : String) : Option String :=
  if '{' ∈ line.toList then
    (nameAfterKeyword (Text.words line)).map fun name =>
      String.ofList (name.toList.takeWhile (· != '<'))
  else none

def factsOfLines : List String → List ClassFact
  | [] => []
  | [_] => []
  | line :: next :: rest =>
    match sourceFile? line with
    | none => factsOfLines (next :: rest)
    | some file =>
      match declaredClass? next with
      | none => factsOfLines rest
      | some name => ⟨name, ClassName.source name file, ∅⟩ :: factsOfLines rest

/-- The classes of a listing, in order. -/
def facts (listing : String) : List ClassFact := factsOfLines (Text.lines listing)

end Recompile.Javap
