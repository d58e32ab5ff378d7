import Recompile.Disk.Operation
import Recompile.Shell.Editor
import Recompile.Shell.Format
import Recompile.Text.Utf8

/-!
# The programs that scripts call

Each program gets its arguments, the bytes of its input and the disk, and gives what it writes, its
exit code and the disk afterwards.
-/

namespace Recompile.Shell

/-- What a program has done. -/
structure Result where
  out : ByteArray
  err : ByteArray
  code : Nat
  disk : Disk

namespace Utility

/-- What a program starts from. -/
structure Setting where
  input : ByteArray
  disk : Disk
  cwd : Location

variable (s : Setting)

def done (out : ByteArray) (code : Nat) : Result := ⟨out, .empty, code, s.disk⟩

def complain (message : String) (code : Nat) : Result :=
  ⟨.empty, (message ++ "\n").toUTF8, code, s.disk⟩

/-- The path of the device that is empty and takes any output. -/
def nullDevice : String := "/dev/null"

/-- The bytes of a file, or of the input for `-`. -/
def contents (name : String) : Except Fault ByteArray :=
  if name = "-" then .ok s.input
  else if name = nullDevice then .ok .empty
  else s.disk.readFile s.cwd ⟨name⟩

/-- The bytes of the named files one after the other, or of the input if none is named. Each file
that cannot be read gives a complaint. -/
def gather (program : String) (names : List String) : ByteArray × ByteArray :=
  if names.isEmpty then (s.input, .empty)
  else names.foldl (fun (all, err) name =>
    match contents s name with
    | .ok bytes => (all ++ bytes, err)
    | .error fault =>
      (all, err ++ (program ++ ": " ++ name ++ ": " ++ fault.text ++ "\n").toUTF8))
    (.empty, .empty)

/-- What a filter of the gathered bytes does. -/
def filtering (program : String) (names : List String) (filter : ByteArray → ByteArray) : Result :=
  let (bytes, err) := gather s program names
  ⟨filter bytes, err, if err.isEmpty then 0 else 1, s.disk⟩

/-- The characters of bytes; what is broken becomes the replacement character. -/
def characters (bytes : ByteArray) : List Char :=
  match Text.decode bytes with
  | .ok text => text.toList
  | .error _ => (Text.pieces bytes.toList).map fun
    | .char c => c
    | .broken _ => '\uFFFD'

/-- The lines of a text, and whether the last one is ended. -/
def linesOf (cs : List Char) : List (List Char) × Bool :=
  let pieces := cs.splitOn '\n'
  if pieces.getLast? = some [] then (pieces.dropLast, true) else (pieces, false)

def unlines (lines : List (List Char)) (ended : Bool) : ByteArray :=
  let text := String.ofList (['\n'].intercalate lines)
  if lines.isEmpty then .empty else if ended then (text ++ "\n").toUTF8 else text.toUTF8

/-- A count that an option gives, as in `-n 3` or `-n3`. -/
def counted (option : String) : List String → Option (Nat × List String)
  | first :: rest =>
    if first = option then
      match rest with
      | count :: rest => count.toNat?.map fun n => (n, rest)
      | [] => none
    else if first.startsWith option then
      ((first.drop option.length).toString).toNat?.map fun n => (n, rest)
    else none
  | [] => none

def head (arguments : List String) : Result :=
  match counted "-c" arguments with
  | some (n, ["/dev/zero"]) => done s ⟨Array.replicate n 0⟩ 0
  | some (n, names) => filtering s "head" names fun b => b.extract 0 n
  | none =>
    let (n, names) := (counted "-n" arguments).getD (10, arguments)
    filtering s "head" names fun b =>
      let (lines, ended) := linesOf (characters b)
      unlines (lines.take n) (ended || n < lines.length)

def tail (arguments : List String) : Result :=
  let (n, names) := (counted "-n" arguments).getD (10, arguments)
  filtering s "tail" names fun b =>
    let (lines, ended) := linesOf (characters b)
    unlines (lines.drop (lines.length - n)) ended

/-- The characters that a set of `tr` names. -/
def trSet : (limit : Nat) → List Char → List Char
  | 0, _ => []
  | limit + 1, cs =>
    match cs with
    | '\\' :: c :: rest =>
      let digits := ((c :: rest).takeWhile isOctal).take 3
      if !digits.isEmpty then
        Char.ofNat (octal digits) :: trSet limit ((c :: rest).drop digits.length)
      else
        (if c = 'n' then '\n' else if c = 't' then '\t' else if c = 'r' then '\r' else c)
          :: trSet limit rest
    | low :: '-' :: high :: rest =>
      ((List.range (high.toNat + 1 - low.toNat)).map fun i => Char.ofNat (low.toNat + i))
        ++ trSet limit rest
    | c :: rest => c :: trSet limit rest
    | [] => []

def translate (source target : List Char) (c : Char) : Char :=
  match source.idxOf? c with
  | none => c
  | some i => (target[i]?).getD (target.getLast?.getD c)

def tr (arguments : List String) : Result :=
  let set (text : String) : List Char := trSet (text.length + 1) text.toList
  let write (cs : List Char) : Result := done s (String.ofList cs).toUTF8 0
  match arguments with
  | ["-d", gone] => write ((characters s.input).filter fun c => !(set gone).contains c)
  | [source, target] => write ((characters s.input).map (translate (set source) (set target)))
  | _ => complain s "tr: missing operand" 1

/-- The editing script among the arguments, whether `-n` is given, and the files. -/
def sedArguments : (silent : Bool) → (script : Option String) → List String →
    Bool × Option String × List String
  | _, script, "-n" :: rest => sedArguments true script rest
  | silent, script, "-e" :: text :: rest =>
    sedArguments silent (some ((script.map (· ++ "\n")).getD "" ++ text)) rest
  | silent, none, text :: rest => sedArguments silent (some text) rest
  | silent, script, rest => (silent, script, rest)

def sed (arguments : List String) : Result :=
  match sedArguments false none arguments with
  | (_, none, _) => complain s "sed: no script specified" 1
  | (silent, some script, names) =>
    match Editor.commands (script.length + 1) script.toList with
    | none => complain s "sed: unknown command" 1
    | some commands =>
      let read := if names.isEmpty then [s.input] else names.filterMap fun n => (contents s n).toOption
      let errors := names.filterMap fun name =>
        match contents s name with
        | .ok _ => none
        | .error fault => some ("sed: can't read " ++ name ++ ": " ++ fault.text ++ "\n")
      let parts := (read.filter fun b => !b.isEmpty).map fun b => linesOf (characters b)
      let ended := (parts.getLast?.map Prod.snd).getD true
      let lines := Editor.edit commands silent 1 (parts.flatMap Prod.fst)
      ⟨unlines lines ended, (String.join errors).toUTF8, if errors.isEmpty then 0 else 2, s.disk⟩

/-- Separates the options, each a letter, from the other arguments. -/
def letters : List String → List Char × List String
  | [] => ([], [])
  | "--" :: rest => ([], rest)
  | first :: rest =>
    if first.startsWith "-" && first.length > 1 then
      let (more, others) := letters rest
      (first.toList.drop 1 ++ more, others)
    else ([], first :: rest)

def grep (arguments : List String) : Result :=
  let (options, others) := letters arguments
  match others with
  | [] => complain s "Usage: grep [OPTION]... PATTERNS [FILE]..." 2
  | expression :: names =>
    let items := if options.contains 'F' then expression.toList.map fun c => .one (.only c)
      else regexOf expression
    let (bytes, err) := gather s "grep" names
    let (lines, _) := linesOf (characters bytes)
    let found := lines.filter fun l => (search items true l).isSome != options.contains 'v'
    let out := if options.contains 'q' then .empty
      else if options.contains 'c' then (toString found.length ++ "\n").toUTF8
      else unlines found true
    ⟨out, err, if !found.isEmpty then 0 else if err.isEmpty then 1 else 2, s.disk⟩

/-- The name without the slashes at its end; only slashes are one slash. -/
def trimSlashes (text : String) : String :=
  let trimmed := String.ofList (text.toList.reverse.dropWhile (· = '/')).reverse
  if trimmed = "" && text ≠ "" then "/" else trimmed

def basename (arguments : List String) : Result :=
  match arguments with
  | [] => complain s "basename: missing operand" 1
  | path :: more =>
    let name := ((Path.mk (trimSlashes path)).parts.getLast?).getD ""
    let name := if name = "" then trimSlashes path else name
    let ending := (more.head?).getD ""
    let name := if name ≠ ending then (Text.before? ending name).getD name else name
    done s (name ++ "\n").toUTF8 0

def dirname (arguments : List String) : Result :=
  match arguments with
  | [] => complain s "dirname: missing operand" 1
  | path :: _ =>
    let parts := (Path.mk (trimSlashes path)).parts.dropLast
    let up := trimSlashes (Path.ofParts parts).text
    done s ((if up = "" then (if path.startsWith "/" then "/" else ".") else up) ++ "\n").toUTF8 0

/-- The stretches of characters that are not blank. -/
def countWords (cs : List Char) : Nat :=
  (cs.foldl (fun (n, inside) c =>
    let blank := " \t\n\r".toList.contains c
    (if !blank && !inside then n + 1 else n, !blank)) (0, false)).1

def wc (arguments : List String) : Result :=
  let (options, names) := letters arguments
  filtering s "wc" names fun b =>
    let count :=
      if options.contains 'c' then b.size
      else if options.contains 'w' then countWords (characters b)
      else (b.toList.filter (· = 10)).length
    (toString count ++ "\n").toUTF8

/-- The number at the beginning of a line. -/
def leadingNumber (line : String) : Int :=
  match line.toList with
  | '-' :: cs => -((String.ofList (cs.takeWhile Char.isDigit)).toNat?.getD 0 : Nat)
  | cs => ((String.ofList (cs.takeWhile Char.isDigit)).toNat?.getD 0 : Nat)

def sort (arguments : List String) : Result :=
  let (options, names) := letters arguments
  filtering s "sort" names fun b =>
    let lines := ((linesOf (characters b)).1.map String.ofList).mergeSort
    let lines := if options.contains 'n' then
        lines.mergeSort fun a b => leadingNumber a ≤ leadingNumber b
      else lines
    let lines := if options.contains 'u' then lines.eraseDups else lines
    let lines := if options.contains 'r' then lines.reverse else lines
    unlines (lines.map String.toList) true

def uniq (arguments : List String) : Result :=
  filtering s "uniq" arguments fun b =>
    let lines := (linesOf (characters b)).1
    let kept := lines.foldl (fun kept l => if kept.head? = some l then kept else l :: kept) []
    unlines kept.reverse true

/-- The value of an option that is written with its letter or after it, and the other arguments. -/
def valueOf (option : String) : List String → Option String × List String
  | [] => (none, [])
  | first :: rest =>
    match Text.after? option first, rest with
    | some "", value :: rest => (some value, rest)
    | some value, rest => (some value, rest)
    | none, rest => let (value, others) := valueOf option rest; (value, first :: others)

def cut (arguments : List String) : Result :=
  let (separator, rest) := valueOf "-d" arguments
  let (field, names) := valueOf "-f" rest
  let separator := ((separator.getD "").toList.head?).getD '\t'
  match field.bind String.toNat? with
  | none => complain s "cut: you must specify a list of bytes, characters, or fields" 1
  | some n =>
    filtering s "cut" names fun b =>
      let lines := (linesOf (characters b)).1.map fun l =>
        if l.contains separator then ((l.splitOn separator)[n - 1]?).getD [] else l
      unlines lines true

/-- How much of output without end is made. -/
def endlessSize : Nat := 1048576

/-- Writes a line again and again; no reader takes more of it than is made. -/
def yes (arguments : List String) : Result :=
  let line := ((if arguments.isEmpty then "y" else " ".intercalate arguments) ++ "\n").toUTF8
  done s (Nat.repeat (fun out => out ++ line) (endlessSize / line.size + 1) .empty) 0

/-- Writes as the program of this name does, which knows no escapes unless told so. -/
def echo (arguments : List String) : Result :=
  match arguments with
  | "-e" :: rest => done s (Echo.output rest) 0
  | "-n" :: rest => done s (" ".intercalate rest).toUTF8 0
  | _ => done s (" ".intercalate arguments ++ "\n").toUTF8 0

def tee (arguments : List String) : Result :=
  let (options, names) := letters arguments
  names.foldl (fun r name =>
    let before := if options.contains 'a' then
        (r.disk.readFile s.cwd ⟨name⟩).toOption.getD .empty
      else .empty
    match if name = nullDevice then .ok r.disk
      else r.disk.writeFile s.cwd ⟨name⟩ (before ++ s.input) with
    | .ok disk => { r with disk }
    | .error fault =>
      { r with err := r.err ++ ("tee: " ++ name ++ ": " ++ fault.text ++ "\n").toUTF8, code := 1 })
    (done s s.input 0)

/-- The names that `ls` shows for a path. -/
def listed (hidden : Bool) (name : String) : Except Fault (List String) := do
  match ← s.disk.lookAt s.cwd ⟨name⟩ with
  | .file .. => return [name]
  | _ =>
    if s.disk.isDirectory s.cwd ⟨name⟩ then
      let names := (← s.disk.readDirectory s.cwd ⟨name⟩).map Prod.fst
      return (names.filter fun n => hidden || !n.startsWith ".").mergeSort
    else return [name]

def ls (arguments : List String) : Result :=
  let (options, names) := letters arguments
  let names := if names.isEmpty then ["."] else names
  let hidden := options.contains 'a' || options.contains 'A'
  names.foldl (fun r name =>
    match if options.contains 'd' then (s.disk.lookAt s.cwd ⟨name⟩).map fun _ => [name]
      else listed s hidden name with
    | .ok found => { r with out := r.out ++ (String.join (found.map (· ++ "\n"))).toUTF8 }
    | .error fault =>
      let complaint := "ls: cannot access '" ++ name ++ "': " ++ fault.text ++ "\n"
      { r with err := r.err ++ complaint.toUTF8, code := 2 })
    (done s .empty 0)

/-- Applies a change of the disk to each name, with a complaint for each that is refused. -/
def changing (names : List String) (complaint : String → Fault → String)
    (change : Disk → Path → Except Fault Disk) : Result :=
  names.foldl (fun r name =>
    match change r.disk ⟨name⟩ with
    | .ok disk => { r with disk }
    | .error fault => { r with err := r.err ++ (complaint name fault ++ "\n").toUTF8, code := 1 })
    ⟨.empty, .empty, 0, s.disk⟩

def mkdir (arguments : List String) : Result :=
  let (options, names) := letters arguments
  let withParents (d : Disk) (p : Path) : Except Fault Disk :=
    let made := (List.range p.parts.length).foldl (fun d i =>
      match d.makeDirectory s.cwd (Path.ofParts (p.parts.take (i + 1))) with
      | .ok d => d
      | .error _ => d) d
    if made.isDirectory s.cwd p then .ok made else d.makeDirectory s.cwd p
  changing s names
    (fun name fault => "mkdir: cannot create directory '" ++ name ++ "': " ++ fault.text)
    (if options.contains 'p' then withParents else fun d p => d.makeDirectory s.cwd p)

def rm (arguments : List String) : Result :=
  let (options, names) := letters arguments
  let recursive := options.contains 'r' || options.contains 'R'
  changing s names (fun name fault => "rm: cannot remove '" ++ name ++ "': " ++ fault.text)
    fun d p =>
      match d.lookAt s.cwd p with
      | .error .noEntry => if options.contains 'f' then .ok d else .error .noEntry
      | .ok .directory =>
        if recursive then return d.erase (← d.resolve s.cwd false p) else .error .isDirectory
      | _ => d.removeFile s.cwd p

def touch (arguments : List String) : Result :=
  changing s arguments (fun name fault => "touch: cannot touch '" ++ name ++ "': " ++ fault.text)
    fun d p => if (d.look s.cwd p).isOk then .ok d else d.writeFile s.cwd p .empty

/-- Where `name` goes when it is copied or moved to `target`. -/
def destination (name target : String) : Path :=
  if s.disk.isDirectory s.cwd ⟨target⟩ then
    (Path.mk target).push (((Path.mk (trimSlashes name)).parts.getLast?).getD "")
  else ⟨target⟩

def cp (arguments : List String) : Result :=
  match (letters arguments).2 with
  | [source, target] =>
    changing s [source] (fun name fault => "cp: cannot copy '" ++ name ++ "': " ++ fault.text)
      fun d p => do d.writeFile s.cwd (destination s source target) (← d.readFile s.cwd p)
  | _ => complain s "cp: missing file operand" 1

def mv (arguments : List String) : Result :=
  match (letters arguments).2 with
  | [source, target] =>
    changing s [source] (fun name fault => "mv: cannot move '" ++ name ++ "': " ++ fault.text)
      fun d p => d.rename s.cwd p (destination s source target)
  | _ => complain s "mv: missing file operand" 1

def seq (arguments : List String) : Result :=
  let count (first last : Nat) : Result :=
    done s (String.join ((List.range (last + 1 - first)).map fun i =>
      toString (first + i) ++ "\n")).toUTF8 0
  match arguments.map String.toNat? with
  | [some last] => count 1 last
  | [some first, some last] => count first last
  | _ => complain s "seq: invalid operand" 1

/-- The programs by name. -/
def programs : List (String × (Setting → List String → Result)) :=
  [("basename", basename), ("cat", fun s names => filtering s "cat" names id), ("cp", cp),
   ("cut", cut), ("dirname", dirname), ("echo", echo), ("false", fun s _ => done s .empty 1),
   ("grep", grep), ("head", head), ("ls", ls), ("mkdir", mkdir), ("mv", mv),
   ("printf", fun s arguments => done s (Printf.output arguments) 0),
   ("pwd", fun s _ => done s (s.cwd.toPath.text ++ "\n").toUTF8 0), ("rm", rm), ("sed", sed),
   ("seq", seq), ("sleep", fun s _ => done s .empty 0), ("sort", sort), ("tail", tail),
   ("tee", tee), ("touch", touch), ("tr", tr), ("true", fun s _ => done s .empty 0),
   ("uniq", uniq), ("wc", wc), ("yes", yes)]

/-- The names of all programs, of those too that run others. -/
def programNames : List String := ["env", "sh"] ++ programs.map Prod.fst

end Utility

end Recompile.Shell
