import Recompile.Path.Name
import Recompile.World

/-!
# Making a directory with everything above it
-/

namespace Recompile.Directory

/-- Makes the first directory of the list; where its parent is missing, the rest of the list is made
before it. A directory that is there already is fine. -/
def createFirst : List Path → Action Unit
  | [] => return ()
  | p :: above => do
    match ← Action.attempt fun d cwd => d.makeDirectory cwd p with
    | .ok () => return ()
    | .error .noEntry =>
      createFirst above
      existing p (← Action.attempt fun d cwd => d.makeDirectory cwd p)
    | .error fault => existing p (.error fault)
where
  /-- Accepts a refusal to make a directory that exists. -/
  existing (p : Path) : Except Fault Unit → Action Unit
    | .ok () => return ()
    | .error fault => do
      let world ← get
      if world.disk.isDirectory world.cwd p then return () else Action.failed (.fault fault)

def create (p : Path) : Action Unit := createFirst p.selfAndAbove

end Recompile.Directory
