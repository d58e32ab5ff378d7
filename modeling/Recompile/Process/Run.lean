import Recompile.Process.Command
import Recompile.Shell.Run
import Recompile.World

/-!
# Running commands

A command runs to its end before its ending is looked at, so what it wrote is complete. If it was
killed by a signal, a line about that is added to its error output.
-/

namespace Recompile

/-- Puts the built-in programs where they are searched. -/
def Disk.withPrograms (d : Disk) : Disk :=
  let d := (d.put ["bin"] .directory).put ["usr"] .directory
  let d := d.put ["usr", "bin"] (.link ⟨"/bin"⟩)
  Shell.Utility.programNames.foldl (fun d name => d.put ["bin", name] (Program.image name)) d

/-- How a command has ended. -/
inductive Termination where
  | success
  | interrupted
  | failure
deriving DecidableEq, Repr

namespace Ending

/-- The signal that a terminal sends to interrupt a program. -/
def interruptSignal : Nat := 2

def termination : Ending → Termination
  | exited code => if code = 0 then .success else .failure
  | killed signal => if signal = interruptSignal then .interrupted else .failure

/-- The line that is added to the error output. -/
def notice : Ending → String
  | exited _ => ""
  | killed signal =>
    if signal = interruptSignal then "interrupted\n" else "signal " ++ toString signal ++ "\n"

end Ending

/-- Everything a command has written, and how it ended. -/
structure Finished where
  out : ByteArray
  err : ByteArray
  termination : Termination

namespace Finished

def ofTranscript (t : Transcript) : Finished where
  out := t.written .out
  err := t.written .err ++ t.ending.notice.toUTF8
  termination := t.ending.termination

end Finished

namespace Command

/-- The state in which a program starts. -/
def startState (world : World) (name : String) : Shell.State where
  disk := world.disk
  cwd := world.cwd
  values := world.environment
  exported := .ofList (world.environment.toList.map Prod.fst)
  arguments := []
  name
  functions := []
  options := []
  guarded := false
  traps := []
  pending := []
  jobs := []
  lastJob := 0
  status := 0
  stop := none
  input := .empty
  sinks := [(1, .stream .out), (2, .stream .err)]
  emitted := []
  captured := .empty

def endingOf (s : Shell.State) : Ending :=
  match s.stop with
  | some (.killed signal) => .killed signal
  | _ => .exited (s.status % 256)

/-- Runs a command as a process. It changes the disk, and answers what it wrote and its ending. -/
def execute (c : Command) : Action Transcript := do
  let world ← get
  if (c.program :: c.arguments).any fun text => text.toList.contains '\x00' then
    Action.failed (.fault .zeroByteInCommand)
  let (_, program) ← Action.query fun d cwd =>
    Program.find d cwd world.environment["PATH"]? c.program
  let ended := Shell.runImage Shell.limit (startState world c.program) c.program program c.arguments
  modify fun world => { world with disk := ended.disk }
  return ⟨ended.emitted.reverse, endingOf ended⟩

/-- Runs a command to its end. -/
def run (c : Command) : Action Finished := do
  Action.log .debug "incjc::process" "spawning"
  return .ofTranscript (← Action.within (.spawning c.line) c.execute)

/-- Runs a command whose output goes to the output of this program. -/
def runThrough (c : Command) : Action Termination := do
  let finished ← c.run
  modify fun world => { world with
    out := world.out ++ finished.out
    err := world.err ++ finished.err }
  return finished.termination

/-- Runs a command that must succeed and returns its output as a text. Its error output goes to
that of this program. -/
def capture (c : Command) : Action String := do
  let finished ← c.run
  modify fun world => { world with err := world.err ++ finished.err }
  if finished.termination ≠ .success then Action.failed (.commandFailed c.line)
  match Text.decode finished.out with
  | .ok text => return text
  | .error e => Action.within (.readingOutput c.line) (Action.failed (.badOutput e))

end Command

end Recompile
