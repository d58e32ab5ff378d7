import Recompile.Build
import Recompile.Log.Filter
import Recompile.Toolchain.Jdk

/-!
# The command line

The program takes two arguments, the class directory and the source directory. It ends with code 0
after a build, 1 when the compiler rejects the sources, 2 after a failure and 3 for wrong arguments.
-/

namespace Recompile.CommandLine

/-- What the arguments ask for. -/
inductive Request where
  | build (classpath sourceTree : Path)
  | help
  | wrong (complaint : String)
deriving DecidableEq, Repr

/-- The arguments read so far. -/
structure Reading where
  values : List String
  help : Bool
  optionsEnded : Bool

def unrecognized (argument : String) : Request :=
  .wrong ("Unrecognized argument: " ++ argument ++ "\n")

/-- The names of the two values. -/
def valueNames : List String := ["classpath", "sourcepath"]

def missing (given : Nat) : Request :=
  .wrong ("Required positional arguments not provided:\n"
    ++ String.join ((valueNames.drop given).map fun name => "    " ++ name ++ "\n"))

/-- What the arguments ask for once all are read. -/
def finish (r : Reading) : Request :=
  if r.help then .help
  else
    match r.values with
    | [classpath, sourceTree] => .build ⟨classpath⟩ ⟨sourceTree⟩
    | values => missing values.length

def readFrom (r : Reading) : List String → Request
  | [] => finish r
  | argument :: rest =>
    if !r.optionsEnded && (argument = "--help" || argument = "help") then
      readFrom { r with help := true } rest
    else if !r.optionsEnded && argument = "--" then readFrom { r with optionsEnded := true } rest
    else if !r.optionsEnded && Text.startsWith "-" argument then
      if r.help then .wrong "Trailing arguments are not allowed after \x60help\x60."
      else unrecognized argument
    else if r.values.length < valueNames.length then
      readFrom { r with values := r.values ++ [argument] } rest
    else unrecognized argument

def read (arguments : List String) : Request := readFrom ⟨[], false, false⟩ arguments

def usage : String := "Usage: incjc <classpath> <sourcepath>\n"

def helpText (program : String) : String :=
  "Usage: " ++ program ++ " [--] <classpath> <sourcepath>\n\n"
    ++ "Recompile only the Java sources that changed, and those depending on them, "
    ++ "into an existing class directory.\n\n"
    ++ "Positional Arguments:\n"
    ++ "  classpath         directory of compiled classes; read as the classpath,\n"
    ++ "                    written as output\n"
    ++ "  sourcepath        directory of .java sources\n\n"
    ++ "Options:\n"
    ++ "  --help, help      display usage information\n"

def settings : Action Config := do
  let world ← get
  Action.ofExcept (Config.ofVariables fun name => world.environment[name]?)

/-- Builds with the tools of the development kit, under a trace if the settings ask for one. -/
def build (classpath sourceTree : Path) : Action Outcome := do
  let config ← settings
  match config.tracePath with
  | some file => Action.within (.openingTrace file) (Action.openTrace file)
  | none => pure ()
  Action.finishing Action.closeTrace
    (Action.phase "build" (Build.run config.jdk.toolchain config.storeRoot classpath sourceTree))

/-- Runs the program with its arguments and returns its exit code. -/
def run (program : String) (arguments : List String) : StateM World Nat := do
  match read arguments with
  | .help => print (helpText program ++ "\n"); return 0
  | .wrong complaint => printError (complaint ++ "\n" ++ usage); return 3
  | .build classpath sourceTree =>
    match ← (build classpath sourceTree).run with
    | .ok outcome => return if outcome.success then 0 else 1
    | .error failure => printError ("incjc: error: " ++ failure.message ++ "\n"); return 2
where
  print (text : String) : StateM World Unit :=
    modify fun world => { world with out := world.out ++ text.toUTF8 }
  printError (text : String) : StateM World Unit :=
    modify fun world => { world with err := world.err ++ text.toUTF8 }

/-- The events of a run that its settings show. -/
def shown (world : World) : List Log.Event :=
  let debug := match Config.ofVariables fun name => world.environment[name]? with
    | .ok config => config.debug
    | .error _ => false
  world.log.filter (Log.Filter.choose debug world.environment["RUST_LOG"]?).shows

end Recompile.CommandLine
