import Recompile.Disk.Operation
import Recompile.Failure
import Recompile.Log.Event
import Recompile.Table
import Recompile.Trace

/-!
# Actions

An action reads and changes the world around the program: the disk, what was printed, what was
logged. It ends with a value or a failure, and what it has changed up to a failure stays changed.
Every call of a compiler or an examiner is kept with the disk as the call found it.
-/

namespace Recompile

/-- A call of one of the tools. -/
inductive Call where
  | compile (sources : List String) (classpath destination : Path) (before : Disk)
  | examine (classFiles : List Path) (before : Disk)

structure World where
  disk : Disk
  cwd : Location
  environment : Table
  out : ByteArray
  err : ByteArray
  log : List Log.Event
  trace : Option Trace
  calls : List Call

namespace World

def start (disk : Disk) (cwd : Location) (environment : Table) : World where
  disk
  cwd
  environment
  out := .empty
  err := .empty
  log := []
  trace := none
  calls := []

end World

abbrev Action := ExceptT Failure (StateM World)

namespace Action

variable {α : Type}

/-- Names the step in which a failure of the action arose. -/
def within (step : Step) (action : Action α) : Action α :=
  tryCatch action fun failure => throw (failure.within step)

def failed (cause : Cause) : Action α := throw ⟨[], cause⟩

/-- Runs `undo` if the action fails. -/
def undoing (undo : Action Unit) (action : Action α) : Action α :=
  tryCatch action fun failure => do undo; throw failure

/-- Runs `after` however the action ends. -/
def finishing (after : Action Unit) (action : Action α) : Action α := do
  let result ← tryCatch (Except.ok <$> action) fun failure => return .error failure
  after
  match result with
  | .ok a => return a
  | .error failure => throw failure

/-- Asks the disk, from the working directory. -/
def ask (question : Disk → Location → Except Fault α) : Action (Except Fault α) := do
  let world ← get
  return question world.disk world.cwd

def query (question : Disk → Location → Except Fault α) : Action α := do
  match ← ask question with
  | .ok answer => return answer
  | .error fault => failed (.fault fault)

/-- Changes the disk, from the working directory. A fault is the answer and changes nothing. -/
def attempt (change : Disk → Location → Except Fault Disk) : Action (Except Fault Unit) := do
  match ← ask change with
  | .ok disk => modify fun world => { world with disk }; return .ok ()
  | .error fault => return .error fault

def change (operation : Disk → Location → Except Fault Disk) : Action Unit := do
  match ← attempt operation with
  | .ok () => return ()
  | .error fault => failed (.fault fault)

def ofExcept : Except Failure α → Action α
  | .ok a => return a
  | .error failure => throw failure

def print (text : String) : Action Unit :=
  modify fun world => { world with out := world.out ++ text.toUTF8 }

def printError (text : String) : Action Unit :=
  modify fun world => { world with err := world.err ++ text.toUTF8 }

def log (level : Log.Level) (target message : String) : Action Unit :=
  modify fun world => { world with log := world.log ++ [⟨level, target, message⟩] }

def logAll (events : List Log.Event) : Action Unit :=
  modify fun world => { world with log := world.log ++ events }

/-- The normal form of a path, seen from a working directory that still exists. -/
def absolute (p : Path) : Action Path := do
  let world ← get
  if !p.isAbsolute then query fun d cwd => d.checkDirectory cwd
  return p.absolute world.cwd

def readBytes (p : Path) : Action ByteArray := query fun d cwd => d.readFile cwd p

/-- The text of a file that must be UTF-8. -/
def readText (p : Path) : Action String := do
  match Text.decode (← readBytes p) with
  | .ok text => return text
  | .error _ => failed .notText

/-- Runs an action as a phase of the trace. Its event is added however the action ends. -/
def phase (name : String) (action : Action α) : Action α :=
  finishing (modify fun world =>
    { world with trace := world.trace.map fun t => { t with events := t.events ++ [name] } }) action

def openTrace (p : Path) : Action Unit := do
  let (place, disk) ← query fun d cwd => d.createFile cwd p
  modify fun world => { world with disk, trace := some ⟨place, []⟩ }

/-- Writes the trace into its file, if there is one and the file is still there. -/
def closeTrace : Action Unit :=
  modify fun world =>
    match world.trace with
    | none => world
    | some t => { world with disk := world.disk.fill t.place t.text.toUTF8, trace := none }

end Action

end Recompile
