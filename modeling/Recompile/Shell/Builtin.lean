import Recompile.Shell.State
import Recompile.Text.Blank

/-!
# Commands that the shell does itself

Testing, and changing the state of the script.
-/

namespace Recompile.Shell

namespace Condition

def compared (operator : String) (a b : Int) : Option Bool :=
  match operator with
  | "-eq" => some (a == b)
  | "-ne" => some (a != b)
  | "-lt" => some (a < b)
  | "-le" => some (a ≤ b)
  | "-gt" => some (a > b)
  | "-ge" => some (a ≥ b)
  | _ => none

/-- A test of one operand. -/
def unary? (s : State) (operator operand : String) : Option Bool :=
  let entry := (s.disk.look s.cwd ⟨operand⟩).toOption
  match operator with
  | "-z" => some (operand == "")
  | "-n" => some (operand != "")
  | "-e" | "-r" | "-w" => some entry.isSome
  | "-f" => some (entry.any Entry.isFile)
  | "-d" => some (entry.any Entry.isDirectory)
  | "-s" => some (match entry with
    | some (.file bytes _) => !bytes.isEmpty
    | _ => entry.isSome)
  | "-x" => some (match entry with
    | some (.file _ runnable) => runnable
    | _ => entry.isSome)
  | "-L" | "-h" => some ((s.disk.lookAt s.cwd ⟨operand⟩).toOption.any Entry.isLink)
  | _ => none

def binary? (a operator b : String) : Option Bool :=
  match operator with
  | "=" => some (a == b)
  | "!=" => some (a != b)
  | _ => do compared operator (← a.toInt?) (← b.toInt?)

/-- The value of a test; none if it has no meaning. -/
def holds (s : State) : (limit : Nat) → List String → Option Bool
  | 0, _ => none
  | limit + 1, arguments =>
    match arguments with
    | [] => some false
    | [a] => some (a != "")
    | [operator, a] => if operator = "!" then some (a == "") else unary? s operator a
    | [a, operator, b] =>
      if a = "!" then (holds s limit [operator, b]).map not
      else if operator = "-a" then some (a != "" && b != "")
      else if operator = "-o" then some (a != "" || b != "")
      else binary? a operator b
    | _ =>
      let first := arguments.takeWhile fun a => a != "-o"
      let second := arguments.drop (first.length + 1)
      if first.length < arguments.length then do
        return (← holds s limit first) || (← holds s limit second)
      else
        let first := arguments.takeWhile fun a => a != "-a"
        let second := arguments.drop (first.length + 1)
        if first.length < arguments.length then do
          return (← holds s limit first) && (← holds s limit second)
        else if arguments.head? = some "!" then (holds s limit arguments.tail).map not
        else none

def run (s : State) (line : Nat) (program : String) (arguments : List String) : State :=
  let missing := program = "[" && arguments.getLast? != some "]"
  let arguments := if program = "[" then arguments.dropLast else arguments
  if missing then s.complain line "[: missing ]" 2
  else
    match holds s (arguments.length + 1) arguments with
    | some true => s.withStatus 0
    | some false => s.withStatus 1
    | none =>
      let wrong := arguments.find? fun a => a.toInt?.isNone && !a.startsWith "-"
      s.complain line (program ++ ": Illegal number: " ++ wrong.getD "") 2

end Condition

/-- Signals by name, with their numbers. -/
def signals : List (String × Nat) :=
  [("HUP", 1), ("INT", 2), ("QUIT", 3), ("ILL", 4), ("TRAP", 5), ("ABRT", 6), ("BUS", 7),
   ("FPE", 8), ("KILL", 9), ("USR1", 10), ("SEGV", 11), ("USR2", 12), ("PIPE", 13), ("ALRM", 14),
   ("TERM", 15), ("CHLD", 17), ("CONT", 18), ("URG", 23), ("XCPU", 24), ("XFSZ", 25),
   ("VTALRM", 26), ("PROF", 27), ("WINCH", 28), ("IO", 29), ("PWR", 30), ("SYS", 31)]

/-- The signals that do not end a process. -/
def harmless : List Nat := [0, 17, 18, 23, 28]

def signal? (name : String) : Option Nat :=
  let bare := (Text.after? "SIG" name).getD name
  name.toNat? <|> signals.lookup bare

/-- The signals about which the shell says nothing when they end a program. -/
def quiet : List Nat := [2, 13]

/-- What the shell says of a program that a signal has ended. -/
def signalNotice (signal : Nat) : String :=
  let texts := [(1, "Hangup"), (3, "Quit"), (4, "Illegal instruction"),
    (5, "Trace/breakpoint trap"), (6, "Aborted"), (7, "Bus error"),
    (8, "Floating point exception"), (9, "Killed"), (10, "User defined signal 1"),
    (11, "Segmentation fault"), (12, "User defined signal 2"), (14, "Alarm clock"),
    (15, "Terminated")]
  if quiet.contains signal then ""
  else (texts.lookup signal).getD ("Signal " ++ toString signal) ++ "\n"

/-- The signal that no trap can catch. -/
def certainDeath : Nat := 9

/-- Sends a signal to the shell itself. -/
def receive (s : State) (signal : Nat) : State :=
  let trap := if signal = certainDeath then none else s.traps.lookup signal
  match trap with
  | some "" => s.withStatus 0
  | some _ => { s with pending := s.pending ++ [signal], status := 0 }
  | none =>
    if harmless.contains signal then s.withStatus 0 else { s with stop := some (.killed signal) }

/-- Sends a signal to the job of that number. -/
def killJob (signal id : Nat) (job : Job) : Job :=
  if job.id = id && !harmless.contains signal then { job with killed := some signal } else job

def kill (s : State) (line : Nat) (arguments : List String) : State :=
  let (signal, targets) := match arguments with
    | "-s" :: name :: rest => (signal? name, rest)
    | first :: rest =>
      match Text.after? "-" first with
      | some name => (signal? name, rest)
      | none => (some 15, first :: rest)
    | [] => (none, [])
  match signal with
  | none => s.complain line "kill: bad signal" 2
  | some n =>
    targets.foldl (fun s target =>
      if s.stop.isSome then s
      else if target = State.processId || target = "0" then receive s n
      else
        match target.toNat? with
        | some id =>
          if s.jobs.any fun job => job.id = id then
            { s with jobs := s.jobs.map (killJob n id), status := 0 }
          else s.complain line "kill: No such process" 1
        | none => s.complain line ("kill: Illegal number: " ++ target) 2) (s.withStatus 0)

/-- Sets what is run for signals; without a text, or with `-`, they are as at the start. -/
def trap (s : State) (line : Nat) (arguments : List String) : State :=
  let number? (name : String) : Option Nat := if name = "EXIT" then some 0 else signal? name
  let (action, names) := match arguments with
    | "--" :: action :: names | action :: names =>
      if action = "-" then (none, names)
      else if names.isEmpty || action.toNat?.isSome then (none, action :: names)
      else (some action, names)
    | [] => (none, [])
  names.foldl (fun s name =>
    match number? name with
    | none => s.complain line ("trap: " ++ name ++ ": bad trap") 1
    | some n =>
      let others := s.traps.filter fun t => t.1 != n
      { s with traps := match action with
        | some text => (n, text) :: others
        | none => others }) (s.withStatus 0)

/-- Takes a line from the input into variables; the last one gets the rest of the line. -/
def read (s : State) (names : List String) : State :=
  let names := names.filter (· != "-r")
  let bytes := s.input.toList
  let line := bytes.takeWhile (· != 10)
  let cs := (Utility.characters ⟨line.toArray⟩)
  let trimmed := Text.trim (String.ofList cs)
  let rec assign : List String → String → Table → Table
    | [], _, t => t
    | [last], text, t => t.insert last text
    | name :: rest, text, t =>
      let word := text.toList.takeWhile fun c => !Text.isBlank c
      assign rest (Text.trim (String.ofList (text.toList.drop word.length)))
        (t.insert name (String.ofList word))
  { s with
    values := assign names trimmed s.values
    input := ⟨(bytes.drop (line.length + 1)).toArray⟩
    status := if line.length = bytes.length then 1 else 0 }

def changeDirectory (s : State) (line : Nat) (target : String) : State :=
  match s.disk.resolve s.cwd true ⟨target⟩ with
  | .ok l =>
    match s.disk.checkDirectory l with
    | .ok () => { s with cwd := l, status := 0 }
    | .error _ => s.complain line ("cd: can't cd to " ++ target) 2
  | .error _ => s.complain line ("cd: can't cd to " ++ target) 2

/-- Turns options on and off; the first argument that is no option begins the new arguments. -/
def setOptions (s : State) : List String → State
  | [] => s.withStatus 0
  | first :: rest =>
    if first = "--" then { s with arguments := rest, status := 0 }
    else if first.startsWith "-" && first.length > 1 then
      setOptions { s with options := s.options ++ first.toList.tail } rest
    else if first.startsWith "+" && first.length > 1 then
      setOptions { s with options := s.options.filter fun c => !first.toList.contains c } rest
    else { s with arguments := first :: rest, status := 0 }

/-- Sets variables from arguments such as `a=1`. -/
def setAll (s : State) (arguments : List String) : State :=
  { s with
    values := arguments.foldl (fun t a =>
      match Text.cutFirst? "=" a with
      | some (name, value) => t.insert name value
      | none => t) s.values
    status := 0 }

def number (arguments : List String) (default : Nat) : Nat :=
  (arguments.head?.bind String.toNat?).getD default

/-- Ends the script with the code given, or with the status so far. -/
def exit (s : State) (line : Nat) (arguments : List String) : State :=
  match arguments with
  | [] => { s with stop := some .exit }
  | code :: _ =>
    match code.toNat? with
    | some n => { s with stop := some .exit, status := n % 256 }
    | none =>
      { s.complain line ("exit: Illegal number: " ++ code) 2 with stop := some .exit }

/-- The commands that need nothing but the state, by name. -/
def builtin? (line : Nat) (name : String) (arguments : List String) : Option (State → State) :=
  match name with
  | ":" | "true" | "umask" | "ulimit" => some fun s => s.withStatus 0
  | "false" => some fun s => s.withStatus 1
  | "echo" => some fun s => (s.write 1 (Echo.output arguments)).withStatus 0
  | "printf" => some fun s => (s.write 1 (Printf.output arguments)).withStatus 0
  | "test" | "[" => some fun s => Condition.run s line name arguments
  | "exit" => some fun s => exit s line arguments
  | "trap" => some fun s => trap s line arguments
  | "return" => some fun s => { s with stop := some .return, status := number arguments s.status }
  | "break" => some fun s => { s with stop := some (.break (number arguments 1)), status := 0 }
  | "continue" => some fun s => { s with stop := some (.continue (number arguments 1)), status := 0 }
  | "shift" => some fun s =>
    let n := number arguments 1
    if n > s.arguments.length then
      { s.complain line "shift: can't shift that many" 2 with stop := some .exit }
    else { s with arguments := s.arguments.drop n, status := 0 }
  | "kill" => some fun s => kill s line arguments
  | "read" => some fun s => read s arguments
  | "cd" => some fun s => changeDirectory s line ((arguments.head?).getD (s.value "HOME"))
  | "pwd" => some fun s => (s.write 1 (s.cwd.toPath.text ++ "\n").toUTF8).withStatus 0
  | "export" => some fun s =>
    let names := arguments.map fun a => ((Text.cutFirst? "=" a).map Prod.fst).getD a
    { setAll s arguments with exported := s.exported.insertMany names }
  | "local" | "readonly" => some fun s => setAll s arguments
  | "unset" => some fun s =>
    { s with values := s.values.filter fun n _ => !arguments.contains n, status := 0 }
  | "set" => some fun s => setOptions s arguments
  | _ => none

end Recompile.Shell
