import Recompile.Failure

/-!
# Settings

Settings come from environment variables; a variable with an empty value counts as unset.
-/

namespace Recompile

/-- Where the tools of a development kit are, and what every compilation adds to its classpath. -/
structure Jdk where
  home : Option Path
  extraClasspath : Option String
deriving DecidableEq, Repr

namespace Jdk

/-- The program of that name in the kit; without a kit it is searched by its name. -/
def executable (jdk : Jdk) (name : String) : Path :=
  match jdk.home with
  | some home => (home.push "bin").push name
  | none => ⟨name⟩

end Jdk

structure Config where
  debug : Bool
  jdk : Jdk
  /-- The directory of the stores of all source trees. -/
  storeRoot : Path
  tracePath : Option Path
deriving DecidableEq, Repr

namespace Config

/-- The values of `INCJC_DEBUG` that turn on detailed logging. -/
def truthy : List String := ["1", "true", "TRUE", "yes", "Y"]

def ofVariables (value : String → Option String) : Except Failure Config := do
  let given (name : String) : Option String := (value name).filter (· ≠ "")
  let storeRoot ← match given "INCJC_META_ROOT" <|> given "HOME" <|> given "USERPROFILE" with
    | some directory => pure (Path.mk directory)
    | none => throw (Cause.noHome : Failure)
  return {
    debug := (given "INCJC_DEBUG").any truthy.contains
    jdk := {
      home := (given "JDK_HOME" <|> given "JAVA_HOME").map Path.mk
      extraClasspath := given "CLASSPATH" }
    storeRoot
    tracePath := (given "INCJC_TRACE").map Path.mk }

end Config

end Recompile
