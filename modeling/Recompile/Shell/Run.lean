import Recompile.Process.Program
import Recompile.Shell.Arithmetic
import Recompile.Shell.Builtin

/-!
# Running scripts

Scripts are run from a state to a state. The limit bounds how deep commands are nested and how often
loops repeat, so that every run ends.
-/

namespace Recompile.Shell

/-- Whether the value of a word asks for the output of a script. -/
def asksOutput (w : Word) : Bool :=
  w.any fun
    | .output .. => true
    | _ => false

/-- The expansion of a value that stands unquoted or in quotes. -/
def expandedValue (quoted : Bool) (text : String) : Expanded :=
  if quoted then .fixed text true else .split text

/-- The expansion of `$@` and `$*`. -/
def expandedArguments (s : State) (star quoted : Bool) : List Expanded :=
  if star && quoted then
    [.fixed ((s.separators.head?.map Char.toString |>.getD "").intercalate s.arguments) true]
  else (s.arguments.map (expandedValue quoted)).intersperse .gap

def trimNewlines (text : String) : String :=
  String.ofList (text.toList.reverse.dropWhile (· = '\n')).reverse

/-- The text of captured output. -/
def capturedText (bytes : ByteArray) : String :=
  trimNewlines (String.ofList ((Utility.characters bytes).filter (· != '\x00')))

/-- Ends one turn of a loop. -/
def afterTurn (s : State) : State :=
  match s.stop with
  | some (.continue levels) =>
    { s with stop := if levels ≤ 1 then none else some (.continue (levels - 1)) }
  | _ => s

/-- Ends a loop. -/
def afterLoop (s : State) : State :=
  match s.stop with
  | some (.break levels) =>
    { s with stop := if levels ≤ 1 then none else some (.break (levels - 1)) }
  | _ => s

/-- Opens a file for output, at its beginning or at its end. -/
def openOutput (s : State) (append : Bool) (path : String) : Except Fault (Sink × Disk) :=
  if path = Utility.nullDevice then .ok (.nowhere, s.disk)
  else if append && s.disk.isFile s.cwd ⟨path⟩ then do
    return (.file (← s.disk.resolve s.cwd true ⟨path⟩), s.disk)
  else do
    let (place, disk) ← s.disk.createFile s.cwd ⟨path⟩
    return (.file place, disk)

def outputComplaint (path : String) (fault : Fault) : String :=
  "cannot create " ++ path ++ ": " ++
    (if fault = .noEntry then "Directory nonexistent" else fault.text)

/-- Carries out a redirection to a target; none if it is refused. -/
def redirectTo (s : State) (line : Nat) (r : Redirect) (target : String) : State × Bool :=
  match r.operator with
  | ">" | ">|" | ">>" | "<>" =>
    match openOutput s (r.operator = ">>") target with
    | .ok (sink, disk) => ({ s with disk }.redirect r.descriptor (some sink), true)
    | .error fault => (s.complain line (outputComplaint target fault) 2, false)
  | "<" =>
    match Utility.contents ⟨s.input, s.disk, s.cwd⟩ target with
    | .ok bytes => ({ s with input := bytes }, true)
    | .error _ => (s.complain line ("cannot open " ++ target ++ ": No such file") 2, false)
  | "<<" => ({ s with input := target.toUTF8 }, true)
  | "<&" => ({ s with input := .empty }, true)
  | ">&" =>
    if target = "-" then (s.redirect r.descriptor none, true)
    else
      match target.toNat?.bind fun d => s.sinks.lookup d with
      | some sink => (s.redirect r.descriptor (some sink), true)
      | none => (s.complain line (target ++ ": Bad file descriptor") 2, false)
  | _ => (s, true)

mutual

def expand : (limit : Nat) → State → Word → List Expanded × State
  | 0, s, _ => ([], s)
  | limit + 1, s, w =>
    w.foldl (fun (done, s) fragment =>
      let (more, s) := expandFragment limit s fragment
      (done ++ more, s)) ([], s)

def expandFragment : (limit : Nat) → State → Fragment → List Expanded × State
  | 0, s, _ => ([], s)
  | limit + 1, s, fragment =>
    match fragment with
    | .plain text quoted => ([.fixed text quoted], s)
    | .parameter name quoted =>
      if name = "@" || name = "*" then (expandedArguments s (name = "*") quoted, s)
      else
        match s.value? name with
        | some value => ([expandedValue quoted value], s)
        | none =>
          if s.options.contains 'u' then
            ([], { s.complain 1 (name ++ ": parameter not set") 2 with stop := some .exit })
          else ([expandedValue quoted ""], s)
    | .length name => ([.fixed (toString (s.value name).length) false], s)
    | .output script quoted =>
      let (text, s) := capture limit s script
      ([expandedValue quoted text], s)
    | .arithmetic expression quoted =>
      let (pieces, s) := expandText limit s expression
      match Arithmetic.evaluate s.value (textOf pieces) with
      | .ok n => ([expandedValue quoted (toString n)], s)
      | .error fault =>
        let message := "arithmetic expression: " ++ fault.text ++ ": \"" ++ textOf pieces ++ "\""
        ([], { s.complain 1 message 2 with stop := some .exit })
    | .modified name operator word quoted =>
      let value := s.value? name
      let given := if operator.startsWith ":" then value.any (· != "") else value.isSome
      let (pieces, inner) := expandText limit s word
      let pattern := markedOf pieces
      match operator with
      | ":-" | "-" =>
        if given then ([expandedValue quoted (value.getD "")], s) else (pieces, inner)
      | ":=" | "=" =>
        if given then ([expandedValue quoted (value.getD "")], s)
        else (pieces, { inner with values := inner.values.insert name (textOf pieces) })
      | ":+" | "+" => if given then (pieces, inner) else ([], s)
      | "#" => ([expandedValue quoted (withoutBeginning pattern false (value.getD ""))], inner)
      | "##" => ([expandedValue quoted (withoutBeginning pattern true (value.getD ""))], inner)
      | "%" => ([expandedValue quoted (withoutEnding pattern false (value.getD ""))], inner)
      | "%%" => ([expandedValue quoted (withoutEnding pattern true (value.getD ""))], inner)
      | _ =>
        if given then ([expandedValue quoted (value.getD "")], s)
        else ([], { inner.complain 1 (name ++ ": " ++ textOf pieces) 2 with stop := some .exit })

/-- Expands text that is kept as it was written. -/
def expandText : (limit : Nat) → State → String → List Expanded × State
  | 0, s, _ => ([], s)
  | limit + 1, s, text =>
    match readDouble false (text.length + 2) [] (text.toList ++ ['"']) with
    | some (fragments, []) => expand limit s fragments.reverse
    | _ =>
      match tokensOf text with
      | some [⟨.word w, _⟩] => expand limit s w
      | _ => ([.fixed text false], s)

/-- Runs a script for its output. -/
def capture : (limit : Nat) → State → String → String × State
  | 0, s, _ => ("", s)
  | limit + 1, s, text =>
    let start := ({ s with captured := .empty, jobs := [] }).redirect 1 (some .captured)
    let (inner, _) := runJobs limit (runText limit start text)
    (capturedText inner.captured, { s.after inner with captured := s.captured, jobs := s.jobs })

/-- Runs what is in the background, in the order in which it was started, and gives the numbers of
the jobs with their statuses. -/
def runJobs : (limit : Nat) → State → State × List (Nat × Nat)
  | 0, s => (s, [])
  | limit + 1, s =>
    s.jobs.foldl (fun (s, ends) job =>
      match job.killed with
      | some signal => (s, ends ++ [(job.id, 128 + signal)])
      | none =>
        let start := { s with
          values := job.values, sinks := job.sinks, input := .empty, guarded := false, jobs := []
          stop := none }
        let (inner, _) := runJobs limit (run limit job.body start)
        let ended := s.after inner
        ({ ended with jobs := [], stop := s.stop <|> ended.stop, status := s.status },
          ends ++ [(job.id, inner.status)])) ({ s with jobs := [] }, [])

/-- Runs the traps of the signals that have come. -/
def runTraps : (limit : Nat) → State → State
  | 0, s => s
  | limit + 1, s =>
    s.pending.foldl (fun s signal =>
      if s.stop.isSome then s
      else
        let inner := runText limit s ((s.traps.lookup signal).getD "")
        if inner.stop.isSome then inner else inner.withStatus s.status) { s with pending := [] }

/-- Ends a shell: the trap for the end is run unless a signal has killed it, and then what is in the
background. -/
def finish : (limit : Nat) → State → State
  | 0, s => s
  | limit + 1, s =>
    let text := (s.traps.lookup 0).getD ""
    let killed := match s.stop with
      | some (.killed _) => true
      | _ => false
    if killed || text = "" then (runJobs limit s).1
    else
      let traps := s.traps.filter fun t => t.1 != 0
      let inner := runText limit { s with stop := none, traps } text
      (runJobs limit (if inner.stop.isSome then inner else inner.withStatus s.status)).1

def runText : (limit : Nat) → State → String → State
  | 0, s, _ => s
  | limit + 1, s, text =>
    match tokensOf text, Script.parse text with
    | _, some script => run limit script s
    | some _, none => { s.complain 1 "Syntax error: end of file unexpected" 2 with
        stop := some .exit }
    | none, none => { s.complain 1 "Syntax error: Unterminated quoted string" 2 with
        stop := some .exit }

/-- Carries out redirections in order; the second part tells whether all succeeded. -/
def redirectAll : (limit : Nat) → State → Nat → List Redirect → State × Bool
  | 0, s, _, _ => (s, false)
  | limit + 1, s, line, redirects =>
    redirects.foldl (fun (s, ok) r =>
      if !ok then (s, false)
      else
        let (pieces, s) := expand limit s r.target
        redirectTo s line r (textOf pieces)) (s, true)

/-- Runs a part with redirections that end with it. -/
def runRedirected : (limit : Nat) → State → Nat → List Redirect → (State → State) → State
  | 0, s, _, _, _ => s
  | limit + 1, s, line, redirects, part =>
    let (inner, ok) := redirectAll limit s line redirects
    let inner := if ok then part inner else inner
    { inner with
      sinks := s.sinks
      input := if redirects.any fun r => r.operator.startsWith "<" then s.input else inner.input }

/-- Runs the program in a file until it ends. -/
def launch : (limit : Nat) → State → Nat → String → List String → State
  | 0, s, _, _, _ => s
  | limit + 1, s, line, name, arguments =>
    match Program.find s.disk s.cwd s.values["PATH"]? name with
    | .error .accessDenied => s.complain line (name ++ ": Permission denied") 126
    | .error .execFormat => runShell limit s name (name :: arguments)
    | .error _ => s.complain line (name ++ ": not found") 127
    | .ok (_, program) => runImage limit s name program arguments

/-- Runs the program in a file, as a process of its own. -/
def runProgram : (limit : Nat) → State → Nat → String → List String → State
  | 0, s, _, _, _ => s
  | limit + 1, s, line, name, arguments =>
    let ended := launch limit s line name arguments
    match ended.stop with
    | some (.killed signal) =>
      ({ ended with stop := none }.write 2 (signalNotice signal).toUTF8).withStatus (128 + signal)
    | _ => ended

/-- Runs a built-in program; the shell is one of them. -/
def runImage : (limit : Nat) → State → String → Program → List String → State
  | 0, s, _, _, _ => s
  | limit + 1, s, name, program, arguments =>
    let arguments := program.before ++ arguments
    if program.name = "sh" then runShell limit s name arguments
    else if program.name = "env" then runIn limit s arguments
    else
      match Utility.programs.lookup program.name with
      | some utility =>
        let result := utility ⟨s.input, s.disk, s.cwd⟩ arguments
        ((({ s with disk := result.disk }).write 1 result.out).write 2 result.err).withStatus
          result.code
      | none => s.withStatus 127

/-- Runs a program with the variables that are set before its name; without one, lists them. -/
def runIn : (limit : Nat) → State → List String → State
  | 0, s, _ => s
  | limit + 1, s, arguments =>
    let settings := arguments.takeWhile fun a => a.toList.contains '='
    let names := settings.map fun a => ((Text.cutFirst? "=" a).map Prod.fst).getD a
    let inner := { setAll s settings with exported := s.exported.insertMany names }
    match arguments.drop settings.length with
    | [] =>
      let lines := (inner.values.filter fun n _ => inner.exported.contains n).toList.map fun e =>
        e.1 ++ "=" ++ e.2 ++ "\n"
      (s.write 1 (String.join lines).toUTF8).withStatus 0
    | name :: rest =>
      match Program.find s.disk s.cwd inner.values["PATH"]? name with
      | .ok (_, program) =>
        { runImage limit inner name program rest with values := s.values, exported := s.exported }
      | .error fault =>
        (s.write 2 ("env: '" ++ name ++ "': " ++ fault.text ++ "\n").toUTF8).withStatus
          (if fault = .noEntry then 127 else 126)

/-- Runs the shell as a process of its own. -/
def runShell : (limit : Nat) → State → String → List String → State
  | 0, s, _, _ => s
  | limit + 1, s, name, arguments =>
    let (options, rest) := Utility.letters arguments
    let fresh := s.child (options.filter (· != 'c'))
    let runFresh (fresh : State) (text : String) : State :=
      { s.after (finish limit (runText limit fresh text)) with jobs := s.jobs, pending := s.pending }
    match options.contains 'c', rest with
    | true, text :: rest =>
      runFresh { fresh with name := (rest.head?).getD name, arguments := rest.tail } text
    | true, [] => (s.write 2 (name ++ ": 0: -c requires an argument\n").toUTF8).withStatus 2
    | false, path :: rest =>
      match s.disk.readFile s.cwd ⟨path⟩ with
      | .ok bytes =>
        runFresh { fresh with name := path, arguments := rest }
          (String.ofList (Utility.characters bytes))
      | .error _ =>
        let message := name ++ ": 0: cannot open " ++ path ++ ": No such file\n"
        (s.write 2 message.toUTF8).withStatus 2
    | false, [] =>
      runFresh { fresh with name, arguments := [], input := .empty }
        (String.ofList (Utility.characters s.input))

/-- Runs the command that some fields name. -/
def runFields : (limit : Nat) → State → Nat → String → List String → State
  | 0, s, _, _, _ => s
  | limit + 1, s, line, name, arguments =>
    match s.functions.lookup name with
    | some body =>
      let inner := run limit body { s with arguments }
      { inner with
        arguments := s.arguments
        stop := if inner.stop = some .return then none else inner.stop }
    | none =>
      match name, arguments with
      | "eval", _ => runText limit s (" ".intercalate arguments)
      | "exec", program :: rest =>
        let ended := launch limit { s with traps := s.traps.filter fun t => t.2 = "" } line program
          rest
        if ended.stop.isSome then ended else { ended with stop := some .exit }
      | "wait", ids =>
        let (ended, ends) := runJobs limit s
        ended.withStatus (match ids.getLast? with
          | none => 0
          | some id => ((id.toNat?).bind fun n => ends.lookup n).getD 127)
      | "command", "-v" :: program :: _ =>
        if (builtin? line program []).isSome then
          (s.write 1 (program ++ "\n").toUTF8).withStatus 0
        else
          match Program.find s.disk s.cwd s.values["PATH"]? program with
          | .ok (path, _) => (s.write 1 (path.text ++ "\n").toUTF8).withStatus 0
          | .error _ => s.withStatus 127
      | "command", program :: rest => runFields limit { s with functions := [] } line program rest
      | ".", path :: _ =>
        match s.disk.readFile s.cwd ⟨path⟩ with
        | .ok bytes => runText limit s (String.ofList (Utility.characters bytes))
        | .error _ => s.complain line (".: cannot open " ++ path ++ ": No such file") 2
      | _, _ =>
        match builtin? line name arguments with
        | some builtin => builtin s
        | none => runProgram limit s line name arguments

/-- Expands words into fields. -/
def expandAll : (limit : Nat) → State → List Word → List String × State
  | 0, s, _ => ([], s)
  | limit + 1, s, words =>
    words.foldl (fun (fields, s) w =>
      let (pieces, s) := expand limit s w
      (fields ++ fieldsOf s pieces, s)) ([], s)

/-- Assigns variables in order. -/
def assignAll : (limit : Nat) → State → List (String × Word) → State
  | 0, s, _ => s
  | limit + 1, s, assignments =>
    assignments.foldl (fun s (name, w) =>
      let (pieces, s) := expand limit s w
      { s with values := s.values.insert name (textOf pieces) }) s

def runSimple : (limit : Nat) → State → Nat → List (String × Word) → List Word → List Redirect →
    State
  | 0, s, _, _, _, _ => s
  | limit + 1, s, line, assignments, words, redirects =>
    let (fields, s) := expandAll limit s words
    if s.stop.isSome then s
    else
      match fields with
      | [] =>
        let asks := assignments.any fun a => asksOutput a.2
        let assigned := assignAll limit s assignments
        let assigned := if asks then assigned else assigned.withStatus 0
        runRedirected limit assigned line redirects id
      | ["exec"] => (redirectAll limit (s.withStatus 0) line redirects).1
      | name :: arguments =>
        let assigned := assignAll limit s assignments
        let assigned := { assigned with
          exported := assigned.exported.insertMany (assignments.map Prod.fst) }
        let ended := runRedirected limit assigned line redirects fun s =>
          runFields limit s line name arguments
        if assignments.isEmpty then ended
        else { ended with
          exported := s.exported
          values := assignments.foldl (fun t a =>
            match s.values[a.1]? with
            | some value => t.insert a.1 value
            | none => t.erase a.1) ended.values }

/-- Repeats a loop; `status` is that of the last turn. -/
def runLoop : (limit : Nat) → Bool → Script → Script → (status : Nat) → State → State
  | 0, _, _, _, _, s => s
  | limit + 1, whileSuccess, condition, body, status, s =>
    let s := s.guarding (run limit condition)
    if s.stop.isSome then afterLoop s
    else if (s.status == 0) == whileSuccess then
      let s := afterTurn (run limit body s)
      if s.stop.isSome then afterLoop s
      else runLoop limit whileSuccess condition body s.status s
    else s.withStatus status

def run : (limit : Nat) → Script → State → State
  | 0, _, s => { s with stop := some .exit, status := 2 }
  | limit + 1, script, s =>
    if s.stop.isSome then s
    else
      match script with
      | .sequence [] => s.withStatus 0
      | .sequence commands => commands.foldl (fun s c => run limit c s) s
      | .simple line assignments words redirects =>
        (runTraps limit (runSimple limit s line assignments words redirects)).checked
      | .background body => s.start body
      | .redirected body redirects => (runRedirected limit s 1 redirects (run limit body)).checked
      | .pipeline stages =>
        let (output, after) := stages.dropLast.foldl (fun (input, s) stage =>
          let start := ({ s with input, captured := .empty, jobs := [] }).redirect 1 (some .captured)
          let (inner, _) := runJobs limit (run limit stage start)
          (inner.captured, { s.after inner with captured := s.captured, jobs := s.jobs }))
          (s.input, s)
        match stages.getLast? with
        | some last => (after.after (run limit last { after with input := output })).checked
        | none => after
      | .negated body =>
        let s := s.guarding (run limit body)
        if s.stop.isSome then s else s.withStatus (if s.status = 0 then 1 else 0)
      | .both first second =>
        let s := s.guarding (run limit first)
        if s.stop.isSome || s.status != 0 then s else run limit second s
      | .either first second =>
        let s := s.guarding (run limit first)
        if s.stop.isSome || s.status = 0 then s else run limit second s
      | .subshell body => (s.after (run limit body s)).checked
      | .conditional condition consequence alternative =>
        let s := s.guarding (run limit condition)
        if s.stop.isSome then s
        else run limit (if s.status = 0 then consequence else alternative) s
      | .loop whileSuccess condition body => runLoop limit whileSuccess condition body 0 s
      | .each name words body =>
        let (fields, s) := match words with
          | some words => expandAll limit s words
          | none => (s.arguments, s)
        if s.stop.isSome then s
        else
          afterLoop (fields.foldl (fun s field =>
            if s.stop.isSome then s
            else afterTurn (run limit body
              { s with values := s.values.insert name field })) (s.withStatus 0))
      | .choice subject arms =>
        let (pieces, s) := expand limit s subject
        let text := textOf pieces
        let (chosen, s) := arms.foldl (fun (chosen, s) (patterns, body) =>
          if chosen.isSome then (chosen, s)
          else
            let (found, s) := patterns.foldl (fun (found, s) pattern =>
              if found then (true, s)
              else
                let (pieces, s) := expand limit s pattern
                (patternMatches (markedOf pieces) text, s)) (false, s)
            (if found then some body else none, s)) (none, s)
        match chosen with
        | some body => run limit body s
        | none => s.withStatus 0
      | .function name body =>
        { s with functions := (name, body) :: s.functions, status := 0 }

end

/-- How deep commands may nest and how often loops may repeat. -/
def limit : Nat := 1000000

end Recompile.Shell
