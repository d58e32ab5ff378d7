import Recompile.Failure
import Recompile.Text.Blank
import Recompile.Text.Lines
import Recompile.Toolchain.Fact

/-!
# Listings of `jdeps -v`

A line that begins with a blank and whose words begin with `from -> to` says that the class `from`
refers to the class `to`. References to the standard library are skipped.
-/

namespace Recompile.Jdeps

def isStandard (className : String) : Bool :=
  ["java.", "javax.", "javafx."].any fun start => Text.startsWith start className

/-- The reference that a line states: who refers, and to whom. -/
def reference? (line : String) : Option (String × String) :=
  if line.toList.head?.any Text.isBlank then
    match Text.words line with
    | source :: "->" :: target :: _ => if isStandard target then none else some (source, target)
    | _ => none
  else none

def references (listing : String) : List (String × String) :=
  (Text.lines listing).filterMap reference?

/-- Adds references one by one and stops at the first one from an unknown class. The facts at that
point are kept. -/
def addAll : List (String × String) → Facts → Except Failure Unit × Facts
  | [], facts => (.ok (), facts)
  | (source, target) :: rest, facts =>
    match facts[source]? with
    | none => (.error (Cause.classNotFound source : Failure), facts)
    | some fact =>
      addAll rest
        (facts.insert source { fact with dependencies := fact.dependencies.insert target })

/-- The references that are added: those before the first one from an unknown class. -/
def known (facts : Facts) (listing : String) : List (String × String) :=
  (references listing).takeWhile fun r => facts.contains r.1

/-- Adds the references of a listing to the facts they start from. -/
def addTo (facts : Facts) (listing : String) : Except Failure Unit × Facts :=
  addAll (references listing) facts

end Recompile.Jdeps
