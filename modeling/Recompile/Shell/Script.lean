import Recompile.Shell.Token

/-!
# Scripts

The commands that a script consists of, and how they are read from its tokens. The words that open
and close compound commands count as such only where a command can begin.
-/

namespace Recompile.Shell

structure Redirect where
  descriptor : Nat
  operator : String
  target : Word
deriving DecidableEq, Repr

inductive Script where
  | simple (line : Nat) (assignments : List (String × Word)) (words : List Word)
      (redirects : List Redirect)
  | redirected (body : Script) (redirects : List Redirect)
  | sequence (commands : List Script)
  | pipeline (stages : List Script)
  | negated (body : Script)
  | both (first second : Script)
  | either (first second : Script)
  | subshell (body : Script)
  /-- Runs beside the commands after it. -/
  | background (body : Script)
  | conditional (condition consequence alternative : Script)
  /-- Repeats the body while the condition ends with success, or as long as it does not. -/
  | loop (whileSuccess : Bool) (condition body : Script)
  /-- Runs the body for each field of the words; without words, for each argument. -/
  | each (name : String) (words : Option (List Word)) (body : Script)
  | choice (subject : Word) (arms : List (List Word × Script))
  | function (name : String) (body : Script)

/-- The text of a word that is one piece of plain, unquoted text. -/
def bareText? : Word → Option String
  | [.plain text false] => some text
  | _ => none

/-- The word that may be reserved at the head of tokens. -/
def bareHead? : List Located → Option String
  | ⟨.word w, _⟩ :: _ => bareText? w
  | _ => none

def operatorHead? : List Located → Option String
  | ⟨.operator text, _⟩ :: _ => some text
  | _ => none

/-- The words and operators before which a list of commands ends. -/
def closers : List String := ["then", "elif", "else", "fi", "do", "done", "esac", "\x7d"]

def atClose (ts : List Located) : Bool :=
  ts.isEmpty || (bareHead? ts).any closers.contains
    || (operatorHead? ts).any fun op => op = ")" || op = ";;"

def skipNewlines (ts : List Located) : List Located :=
  ts.dropWhile fun t => t.token = .operator "\n"

def skipSeparators (ts : List Located) : List Located :=
  ts.dropWhile fun t => t.token = .operator "\n" || t.token = .operator ";"

/-- Takes the reserved word `text` from the head. -/
def expect (text : String) (ts : List Located) : Option (List Located) :=
  if bareHead? ts = some text then some ts.tail else none

/-- The name and the value of a word that assigns a variable. -/
def assignment? : Word → Option (String × Word)
  | .plain text false :: rest =>
    let name := text.toList.takeWhile (· != '=')
    if isName name && name.length < text.length then
      let value := String.ofList (text.toList.drop (name.length + 1))
      some (String.ofList name, if value = "" then rest else .plain value false :: rest)
    else none
  | _ => none

/-- Reads the redirections at the head. -/
def redirects : List Located → List Redirect × List Located
  | ⟨.redirect descriptor operator, _⟩ :: ⟨.word target, _⟩ :: rest =>
    let (more, rest) := redirects rest
    (⟨descriptor, operator, target⟩ :: more, rest)
  | ts => ([], ts)

structure SimpleParts where
  assignments : List (String × Word)
  words : List Word
  redirects : List Redirect

/-- Reads the assignments, words and redirections of a simple command. -/
def simpleParts : (limit : Nat) → SimpleParts → List Located → SimpleParts × List Located
  | 0, parts, ts => (parts, ts)
  | limit + 1, parts, ts =>
    match ts with
    | ⟨.word w, _⟩ :: rest =>
      match if parts.words.isEmpty then assignment? w else none with
      | some a => simpleParts limit { parts with assignments := parts.assignments ++ [a] } rest
      | none => simpleParts limit { parts with words := parts.words ++ [w] } rest
    | ⟨.redirect descriptor operator, _⟩ :: ⟨.word target, _⟩ :: rest =>
      simpleParts limit
        { parts with redirects := parts.redirects ++ [⟨descriptor, operator, target⟩] } rest
    | _ => (parts, ts)

/-- Reads the patterns of an arm up to its parenthesis. -/
def patterns : List Located → Option (List Word × List Located)
  | ⟨.word w, _⟩ :: ⟨.operator ")", _⟩ :: rest => some ([w], rest)
  | ⟨.word w, _⟩ :: ⟨.operator "|", _⟩ :: rest =>
    (patterns rest).map fun r => (w :: r.1, r.2)
  | _ => none

/-- Reads words up to the next operator. -/
def wordsOf : List Located → List Word × List Located
  | ⟨.word w, _⟩ :: rest => let (more, rest) := wordsOf rest; (w :: more, rest)
  | ts => ([], ts)

/-- A compound command with the redirections after it. -/
def withRedirects (body : Script) (ts : List Located) : Option (Script × List Located) :=
  match redirects ts with
  | ([], rest) => some (body, rest)
  | (found, rest) => some (.redirected body found, rest)

/-- Reads a command that is not compound. -/
def readSimple (ts : List Located) : Option (Script × List Located) :=
  let (parts, rest) := simpleParts ts.length ⟨[], [], []⟩ ts
  if rest.length = ts.length then none
  else
    let line := (ts.head?.map Located.line).getD 0
    some (.simple line parts.assignments parts.words parts.redirects, rest)

mutual

/-- Reads commands up to a closing word. -/
def readList : (limit : Nat) → List Located → Option (Script × List Located)
  | 0, _ => none
  | limit + 1, ts => do
    let (commands, rest) ← readCommands limit (skipSeparators ts)
    return (.sequence commands, rest)

def readCommands : (limit : Nat) → List Located → Option (List Script × List Located)
  | 0, _ => none
  | limit + 1, ts =>
    if atClose ts then some ([], ts)
    else do
      let (command, rest) ← readChain limit ts
      match rest with
      | [] => return ([command], [])
      | ⟨.operator op, _⟩ :: after =>
        if op = ";" || op = "\n" || op = "&" then
          let (more, rest) ← readCommands limit (skipSeparators after)
          return ((if op = "&" then .background command else command) :: more, rest)
        else if atClose rest then return ([command], rest)
        else none
      | _ => if atClose rest then return ([command], rest) else none

/-- Reads pipelines joined by `&&` and `||`. -/
def readChain : (limit : Nat) → List Located → Option (Script × List Located)
  | 0, _ => none
  | limit + 1, ts => do
    let (first, rest) ← readPipeline limit ts
    readChainAfter limit first rest

def readChainAfter : (limit : Nat) → Script → List Located → Option (Script × List Located)
  | 0, _, _ => none
  | limit + 1, first, ts =>
    match operatorHead? ts with
    | some "&&" => do
      let (second, rest) ← readPipeline limit (skipNewlines ts.tail)
      readChainAfter limit (.both first second) rest
    | some "||" => do
      let (second, rest) ← readPipeline limit (skipNewlines ts.tail)
      readChainAfter limit (.either first second) rest
    | _ => some (first, ts)

def readPipeline : (limit : Nat) → List Located → Option (Script × List Located)
  | 0, _ => none
  | limit + 1, ts =>
    if bareHead? ts = some "!" then do
      let (body, rest) ← readPipeline limit ts.tail
      return (.negated body, rest)
    else do
      let (stages, rest) ← readStages limit ts
      return (match stages with
        | [only] => only
        | _ => .pipeline stages, rest)

def readStages : (limit : Nat) → List Located → Option (List Script × List Located)
  | 0, _ => none
  | limit + 1, ts => do
    let (stage, rest) ← readCommand limit ts
    if operatorHead? rest = some "|" then
      let (more, rest) ← readStages limit (skipNewlines rest.tail)
      return (stage :: more, rest)
    else return ([stage], rest)

def readCommand : (limit : Nat) → List Located → Option (Script × List Located)
  | 0, _ => none
  | limit + 1, ts =>
    match ts with
    | ⟨.operator "(", _⟩ :: rest => do
      let (body, rest) ← readList limit rest
      if operatorHead? rest = some ")" then withRedirects (.subshell body) rest.tail else none
    | ⟨.word w, _⟩ :: ⟨.operator "(", _⟩ :: ⟨.operator ")", _⟩ :: rest => do
      let name ← bareText? w
      let (body, rest) ← readCommand limit (skipNewlines rest)
      return (.function name body, rest)
    | _ =>
      match bareHead? ts with
      | some "\x7b" => do
        let (body, rest) ← readList limit ts.tail
        withRedirects body (← expect "\x7d" rest)
      | some "if" => do
        let (body, rest) ← readConditional limit ts.tail
        withRedirects body rest
      | some "while" => readLoop limit true ts.tail
      | some "until" => readLoop limit false ts.tail
      | some "for" => readEach limit ts.tail
      | some "case" =>
        match ts.tail with
        | ⟨.word subject, _⟩ :: rest => do
          let rest ← expect "in" (skipNewlines rest)
          let (arms, rest) ← readArms limit (skipNewlines rest)
          withRedirects (.choice subject arms) rest
        | _ => none
      | some word => if closers.contains word then none else readSimple ts
      | none => readSimple ts

def readConditional : (limit : Nat) → List Located → Option (Script × List Located)
  | 0, _ => none
  | limit + 1, ts => do
    let (condition, rest) ← readList limit ts
    let (consequence, rest) ← readList limit (← expect "then" rest)
    match bareHead? rest with
    | some "elif" =>
      let (alternative, rest) ← readConditional limit rest.tail
      return (.conditional condition consequence alternative, rest)
    | some "else" =>
      let (alternative, rest) ← readList limit rest.tail
      return (.conditional condition consequence alternative, ← expect "fi" rest)
    | _ => return (.conditional condition consequence (.sequence []), ← expect "fi" rest)

def readLoop : (limit : Nat) → Bool → List Located → Option (Script × List Located)
  | 0, _, _ => none
  | limit + 1, whileSuccess, ts => do
    let (condition, rest) ← readList limit ts
    let (body, rest) ← readList limit (← expect "do" rest)
    withRedirects (.loop whileSuccess condition body) (← expect "done" rest)

def readEach : (limit : Nat) → List Located → Option (Script × List Located)
  | 0, _ => none
  | limit + 1, ts => do
    let name ← bareHead? ts
    let after := skipNewlines ts.tail
    let (words, rest) := match expect "in" after with
      | some rest => let (words, rest) := wordsOf rest; (some words, rest)
      | none => (none, after)
    let (body, rest) ← readList limit (← expect "do" (skipSeparators rest))
    withRedirects (.each name words body) (← expect "done" rest)

def readArms : (limit : Nat) → List Located → Option (List (List Word × Script) × List Located)
  | 0, _ => none
  | limit + 1, ts =>
    if bareHead? ts = some "esac" then some ([], ts.tail)
    else do
      let ts := if operatorHead? ts = some "(" then ts.tail else ts
      let (choices, rest) ← patterns ts
      let (body, rest) ← readList limit rest
      let rest := skipNewlines (if operatorHead? rest = some ";;" then rest.tail else rest)
      let (more, rest) ← readArms limit rest
      return ((choices, body) :: more, rest)

end

/-- The script that a text spells. -/
def Script.parse (text : String) : Option Script := do
  let ts ← tokensOf text
  let (script, rest) ← readList (8 * ts.length + 8) ts
  if rest.isEmpty then some script else none

end Recompile.Shell
