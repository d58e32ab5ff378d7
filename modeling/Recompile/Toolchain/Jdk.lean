import Recompile.Config
import Recompile.Process.Run
import Recompile.Toolchain.Basic
import Recompile.Toolchain.Javap
import Recompile.Toolchain.Jdeps

/-!
# The toolchain of a development kit

`javac` compiles; `javap` tells the class and the source of each class file and `jdeps -v` which
classes it refers to.
-/

namespace Recompile.Jdk

/-- The classpath that the compiler gets. -/
def fullClasspath (jdk : Jdk) (classpath : Path) : String :=
  match jdk.extraClasspath with
  | some extra => classpath.text ++ ":" ++ extra
  | none => classpath.text

def compileCommand (jdk : Jdk) (sources : List String) (classpath destination : Path) : Command where
  program := (jdk.executable "javac").text
  arguments := ["-cp", jdk.fullClasspath classpath, "-d", destination.text] ++ sources

/-- Compiles; an interrupted compiler is a failure, any other end but success a rejection. -/
def compile (jdk : Jdk) (sources : List String) (classpath destination : Path) : Action Bool := do
  let command := jdk.compileCommand sources classpath destination
  let termination ← command.runThrough
  if termination = .interrupted then Action.failed (.commandInterrupted command.line)
  return termination = .success

/-- The facts about some class files in the order of class names. Without class files no tool is
run. -/
def examine (jdk : Jdk) (classFiles : List Path) : Action (List ClassFact) := do
  if classFiles.isEmpty then return []
  let files := classFiles.map Path.text
  let listing ← Command.capture ⟨(jdk.executable "javap").text, files⟩
  let facts := Facts.ofList (Javap.facts listing)
  let references ← Command.capture ⟨(jdk.executable "jdeps").text, "-v" :: files⟩
  let (result, facts) := Jdeps.addTo facts references
  Action.logAll ((Jdeps.known facts references).map fun _ =>
    ⟨.debug, "incjc::toolchain", "dependency"⟩)
  Action.ofExcept result
  return facts.values

def toolchain (jdk : Jdk) : Toolchain := ⟨jdk.compile, jdk.examine⟩

end Recompile.Jdk
