import Recompile.Process.Transcript
import Recompile.Shell.Script
import Recompile.Shell.Utility
import Recompile.Table

/-!
# The state of a running script

A script has variables, arguments and functions, an input, and descriptors that say where output
goes. A stop that is under way ends everything up to the command that it is meant for. What runs in
the background is kept as a job until the shell waits for it or ends.
-/

namespace Recompile.Shell

/-- Where the bytes written to a descriptor go. -/
inductive Sink where
  | stream (stream : Stream)
  /-- Kept as the output that a `$(…)` or the next stage of a pipeline asks for. -/
  | captured
  | file (place : Location)
  | nowhere
deriving DecidableEq, Repr

inductive Stop where
  | exit
  | return
  | break (levels : Nat)
  | continue (levels : Nat)
  | killed (signal : Nat)
deriving DecidableEq, Repr

/-- A command in the background, with what it had at its start. -/
structure Job where
  id : Nat
  body : Script
  values : Table
  sinks : List (Nat × Sink)
  /-- The signal that has killed it before it was run. -/
  killed : Option Nat

structure State where
  disk : Disk
  cwd : Location
  /-- The values of the variables. -/
  values : Table
  /-- The variables that programs get. -/
  exported : Names
  arguments : List String
  /-- The name by which the script was called. -/
  name : String
  functions : List (String × Script)
  /-- The letters of the options that are on. -/
  options : List Char
  /-- Whether the command around looks at a failure, so that it does not end the script. -/
  guarded : Bool
  /-- What to run for signals; an empty text makes a signal ignored, and 0 is the end. -/
  traps : List (Nat × String)
  /-- The signals whose traps are still to be run. -/
  pending : List Nat
  jobs : List Job
  lastJob : Nat
  status : Nat
  stop : Option Stop
  input : ByteArray
  /-- The open descriptors. -/
  sinks : List (Nat × Sink)
  /-- What was written to the streams, the last chunk first. -/
  emitted : List Chunk
  captured : ByteArray

/-- A piece of the expansion of a word. -/
inductive Expanded where
  /-- Text that stays in one field. -/
  | fixed (text : String) (quoted : Bool)
  /-- Text that is split into fields. -/
  | split (text : String)
  /-- The end of a field. -/
  | gap
deriving DecidableEq, Repr

namespace State

def write (s : State) (descriptor : Nat) (bytes : ByteArray) : State :=
  if bytes.isEmpty then s
  else
    match s.sinks.lookup descriptor with
    | none => s
    | some (.stream stream) => { s with emitted := ⟨stream, bytes⟩ :: s.emitted }
    | some .captured => { s with captured := s.captured ++ bytes }
    | some .nowhere => s
    | some (.file place) =>
      match s.disk.find? place with
      | some (.file before _) => { s with disk := s.disk.fill place (before ++ bytes) }
      | _ => s

def withStatus (s : State) (status : Nat) : State := { s with status }

/-- Complains in the name of the script. -/
def complain (s : State) (line : Nat) (message : String) (status : Nat) : State :=
  (s.write 2 (s.name ++ ": " ++ toString line ++ ": " ++ message ++ "\n").toUTF8).withStatus status

/-- The number of the running process; those of jobs come after it. -/
def processNumber : Nat := 4242

def processId : String := toString processNumber

/-- The value of a parameter that is not `@` or `*`. -/
def value? (s : State) (name : String) : Option String :=
  match name with
  | "#" => some (toString s.arguments.length)
  | "?" => some (toString s.status)
  | "$" => some processId
  | "!" => if s.lastJob = 0 then none else some (toString s.lastJob)
  | "0" => some s.name
  | "-" => some (String.ofList s.options)
  | _ =>
    match name.toNat? with
    | some n => if n = 0 then some s.name else s.arguments[n - 1]?
    | none => s.values[name]?

def value (s : State) (name : String) : String := (s.value? name).getD ""

/-- The characters that separate fields. -/
def separators (s : State) : List Char := ((s.values["IFS"]?).getD " \t\n").toList

/-- Puts `s` after a part that ran on its own: only what it did to the world stays. -/
def after (s : State) (inner : State) : State :=
  { s with
    disk := inner.disk
    emitted := inner.emitted
    captured := inner.captured
    pending := inner.pending
    jobs := inner.jobs
    status := inner.status
    stop := match inner.stop with
      | some (.killed signal) => some (.killed signal)
      | _ => none }

/-- The state in which a shell of its own starts. Only exported variables and ignored signals are
passed on. -/
def child (s : State) (options : List Char) : State :=
  { s with
    values := s.values.filter fun name _ => s.exported.contains name
    functions := []
    options
    guarded := false
    traps := s.traps.filter fun t => t.2 = ""
    pending := []
    jobs := []
    lastJob := 0
    status := 0
    stop := none }

/-- Puts a command into the background. -/
def start (s : State) (body : Script) : State :=
  let id := processNumber + s.jobs.length + 1
  let id := if id ≤ s.lastJob then s.lastJob + 1 else id
  { s with jobs := s.jobs ++ [⟨id, body, s.values, s.sinks, none⟩], lastJob := id, status := 0 }

/-- Runs a part whose failure is looked at. -/
def guarding (s : State) (part : State → State) : State :=
  { part { s with guarded := true } with guarded := s.guarded }

/-- With the option `e`, a failure that nothing looks at ends the script. -/
def checked (s : State) : State :=
  if s.options.contains 'e' && !s.guarded && s.status != 0 && s.stop.isNone then
    { s with stop := some .exit }
  else s

/-- Sets where a descriptor goes; `none` closes it. -/
def redirect (s : State) (descriptor : Nat) (sink : Option Sink) : State :=
  let others := s.sinks.filter fun d => d.1 != descriptor
  { s with sinks := match sink with
    | some sink => (descriptor, sink) :: others
    | none => others }

end State

/-- Characters, each marked if it is quoted. -/
abbrev Marked := List (Char × Bool)

/-- The fields so far, the last first, and the field under way, its characters the last first. -/
structure Splitting where
  fields : List Marked
  current : Option Marked
  /-- Whether the last separator was a blank. -/
  blank : Bool

namespace Splitting

def flush (p : Splitting) : Splitting :=
  match p.current with
  | some cs => ⟨cs.reverse :: p.fields, none, false⟩
  | none => p

def add (p : Splitting) (text : String) (quoted : Bool) : Splitting :=
  let cs := text.toList.foldl (fun cs c => (c, quoted) :: cs) (p.current.getD [])
  { p with current := some cs, blank := false }

/-- Takes one character of text that is split. -/
def take (separators : List Char) (p : Splitting) (c : Char) : Splitting :=
  if !separators.contains c then p.add c.toString false
  else if " \t\n".toList.contains c then
    match p.current with
    | some cs => ⟨cs.reverse :: p.fields, none, true⟩
    | none => p
  else
    match p.current with
    | some cs => ⟨cs.reverse :: p.fields, none, false⟩
    | none => if p.blank then { p with blank := false } else ⟨[] :: p.fields, none, false⟩

def step (separators : List Char) (p : Splitting) : Expanded → Splitting
  | .fixed text quoted => if text = "" && !quoted then p else p.add text quoted
  | .split text => text.toList.foldl (take separators) p
  | .gap => p.flush

end Splitting

/-- The fields of an expansion, before names of files take the place of patterns. -/
def markedFields (separators : List Char) (pieces : List Expanded) : List Marked :=
  ((pieces.foldl (Splitting.step separators) ⟨[], none, false⟩).flush).fields.reverse

/-- Whether a character that is not quoted asks for the names of files. -/
def asksNames (field : Marked) : Bool :=
  field.any fun c => !c.2 && (c.1 = '*' || c.1 = '?' || c.1 = '[')

def Marked.text (field : Marked) : String := String.ofList (field.map Prod.fst)

/-- The names in a directory that a pattern matches. A name with a dot before it has to be asked for
by a dot. -/
def namesMatching (s : State) (directory : String) (pattern : Marked) : List String :=
  let names := ((s.disk.readDirectory s.cwd ⟨directory⟩).toOption.getD []).map Prod.fst
  names.filter fun name =>
    (!name.startsWith "." || (pattern.head?.map Prod.fst) = some '.') && patternMatches pattern name

/-- The paths that a field with patterns stands for. -/
def pathsMatching (s : State) (field : Marked) : List String :=
  let paths := (field.splitOnP fun c => c.1 = '/').foldl (fun paths part =>
    match paths with
    | none => if asksNames part then some (namesMatching s "." part) else some [Marked.text part]
    | some paths => some (paths.flatMap fun path =>
      let names := if asksNames part then namesMatching s (path ++ "/") part else [Marked.text part]
      names.map fun name => path ++ "/" ++ name)) none
  ((paths.getD []).filter fun path => (s.disk.lookAt s.cwd ⟨path⟩).isOk).mergeSort

/-- The texts of the fields of an expansion. A field that matches no file stays as it is. -/
def fieldsOf (s : State) (pieces : List Expanded) : List String :=
  (markedFields s.separators pieces).flatMap fun field =>
    if asksNames field then
      match pathsMatching s field with
      | [] => [Marked.text field]
      | paths => paths
    else [Marked.text field]

/-- The text of an expansion that is not split. -/
def textOf (pieces : List Expanded) : String :=
  String.join (pieces.map fun
    | .fixed text _ => text
    | .split text => text
    | .gap => " ")

/-- The characters of an expansion, marked where they are quoted. -/
def markedOf (pieces : List Expanded) : Marked :=
  pieces.flatMap fun
    | .fixed text quoted => text.toList.map fun c => (c, quoted)
    | .split text => text.toList.map fun c => (c, false)
    | .gap => [(' ', true)]

end Recompile.Shell
