import Recompile.Toolchain.Fact
import Recompile.World

/-!
# The tools of a build

A build needs a compiler, which turns sources into class files, and an examiner, which reads from
class files which source each class came from and which classes it refers to.
-/

namespace Recompile

structure Toolchain where
  /-- Compiles sources against a classpath into a destination; says whether it accepts them. -/
  compile : (sources : List String) → (classpath destination : Path) → Action Bool
  examine : (classFiles : List Path) → Action (List ClassFact)

namespace Toolchain

/-- Calls the compiler and keeps the call. -/
def runCompiler (tools : Toolchain) (sources : List String) (classpath destination : Path) :
    Action Bool := do
  modify fun world => { world with
    calls := world.calls ++ [.compile sources classpath destination world.disk] }
  tools.compile sources classpath destination

/-- Calls the examiner and keeps the call. -/
def runExaminer (tools : Toolchain) (classFiles : List Path) : Action (List ClassFact) := do
  modify fun world => { world with calls := world.calls ++ [.examine classFiles world.disk] }
  tools.examine classFiles

end Toolchain

end Recompile
