/-!
# Tokens of a script

A script is cut into words, operators and redirections. A word is made of fragments: plain text,
quoted or not, and what stands for a value. Text inside `$(…)` and `$((…))` is kept as it is written
and read only when its value is asked for. The lines that a `<<` announces become the word after it.
-/

namespace Recompile.Shell

inductive Fragment where
  | plain (text : String) (quoted : Bool)
  | parameter (name : String) (quoted : Bool)
  /-- A parameter with an operator such as `:-` and the word after it. -/
  | modified (name operator word : String) (quoted : Bool)
  | length (name : String)
  | output (script : String) (quoted : Bool)
  | arithmetic (expression : String) (quoted : Bool)
deriving DecidableEq, Repr

abbrev Word := List Fragment

inductive Token where
  | word (fragments : Word)
  | operator (text : String)
  | redirect (descriptor : Nat) (operator : String)
deriving DecidableEq, Repr

/-- A token and the line on which it begins. -/
structure Located where
  token : Token
  line : Nat
deriving DecidableEq, Repr

/-- Text up to the next single quote. -/
def untilQuote (quote : Char) : List Char → Option (List Char × List Char)
  | [] => none
  | c :: rest =>
    if c = quote then some ([], rest)
    else (untilQuote quote rest).map fun r => (c :: r.1, r.2)

/-- Whether text is read outside quotes or within single or double ones. -/
inductive Quoting where
  | none
  | single
  | double
deriving DecidableEq, Repr

/-- Text up to the parenthesis or brace that closes `depth + 1` open ones. -/
def untilClosing (opening closing : Char) : (depth : Nat) → Quoting → List Char →
    Option (List Char × List Char)
  | _, _, [] => .none
  | depth, quoting, '\\' :: c :: rest =>
    if quoting = .single then
      let (after, next) := if c = '\'' then (Quoting.none, [c]) else (.single, [c])
      (untilClosing opening closing depth after rest).map fun r => ('\\' :: next ++ r.1, r.2)
    else
      (untilClosing opening closing depth quoting rest).map fun r => ('\\' :: c :: r.1, r.2)
  | depth, quoting, c :: rest =>
    match quoting with
    | .single =>
      (untilClosing opening closing depth (if c = '\'' then .none else .single) rest).map
        fun r => (c :: r.1, r.2)
    | .double =>
      (untilClosing opening closing depth (if c = '"' then .none else .double) rest).map
        fun r => (c :: r.1, r.2)
    | .none =>
      if c = closing then
        match depth with
        | 0 => some ([], rest)
        | depth + 1 =>
          (untilClosing opening closing depth .none rest).map fun r => (c :: r.1, r.2)
      else
        let deeper := if c = opening then depth + 1 else depth
        let quoting : Quoting := if c = '\'' then .single else if c = '"' then .double else .none
        (untilClosing opening closing deeper quoting rest).map fun r => (c :: r.1, r.2)

def isNameStart (c : Char) : Bool := c.isAlpha || c = '_'

def isNameChar (c : Char) : Bool := c.isAlphanum || c = '_'

def isName : List Char → Bool
  | [] => false
  | c :: rest => isNameStart c && rest.all isNameChar

/-- The parameters whose name is one character that is no letter. -/
def specialParameters : List Char := ['@', '*', '#', '?', '$', '!', '-']

/-- The operators between a parameter and a word, longer ones first. -/
def modifiers : List String := [":-", ":=", ":+", ":?", "##", "%%", "#", "%", "-", "=", "+", "?"]

/-- What stands between the braces of a parameter. -/
def bracedParameter (inner : List Char) (quoted : Bool) : Option Fragment :=
  match inner with
  | ['#'] => some (.parameter "#" quoted)
  | '#' :: name =>
    if isName name then some (.length (String.ofList name)) else none
  | _ =>
    let name := match inner with
      | c :: _ =>
        if specialParameters.contains c then [c]
        else if c.isDigit then inner.takeWhile Char.isDigit
        else inner.takeWhile isNameChar
      | [] => []
    let rest := inner.drop name.length
    if name.isEmpty then none
    else if rest.isEmpty then some (.parameter (String.ofList name) quoted)
    else
      (modifiers.find? fun m => m.toList.isPrefixOf rest).map fun m =>
        .modified (String.ofList name) m (String.ofList (rest.drop m.length)) quoted

/-- Whether the text between parentheses has parentheses of its own around it. -/
def isDoubled (inner : List Char) : Bool := inner.head? = some '(' && inner.getLast? = some ')'

/-- What a dollar sign begins, and the text after it. -/
def afterDollar (quoted : Bool) : List Char → Option (Fragment × List Char)
  | '(' :: rest =>
    (untilClosing '(' ')' 0 .none rest).map fun (inner, rest) =>
      if isDoubled inner then
        (.arithmetic (String.ofList (inner.drop 1).dropLast) quoted, rest)
      else (.output (String.ofList inner) quoted, rest)
  | '\x7b' :: rest => do
    let (inner, rest) ← untilClosing '\x7b' '\x7d' 0 .none rest
    return (← bracedParameter inner quoted, rest)
  | c :: rest =>
    if isNameStart c then
      let name := (c :: rest).takeWhile isNameChar
      some (.parameter (String.ofList name) quoted, (c :: rest).drop name.length)
    else if c.isDigit || specialParameters.contains c then
      some (.parameter c.toString quoted, rest)
    else some (.plain "$" quoted, c :: rest)
  | [] => some (.plain "$" quoted, [])

/-- Takes away the backslashes that protect characters between back quotes. -/
def unprotect : List Char → List Char
  | '\\' :: c :: rest =>
    if c = '\\' || c = '$' || c = '\x60' then c :: unprotect rest else '\\' :: c :: unprotect rest
  | c :: rest => c :: unprotect rest
  | [] => []

/-- Adds a character to the fragments of a word, the last one first. -/
def addChar (c : Char) (quoted : Bool) : Word → Word
  | .plain text q :: rest =>
    if q = quoted then .plain (text.push c) q :: rest
    else .plain c.toString quoted :: .plain text q :: rest
  | fragments => .plain c.toString quoted :: fragments

/-- Reads to the closing double quote, or to the end if `toEnd`. The fragments come last first, after
those of `done`. -/
def readDouble (toEnd : Bool) : (limit : Nat) → (done : Word) → List Char →
    Option (Word × List Char)
  | 0, _, _ => none
  | limit + 1, done, cs =>
    match cs with
    | [] => if toEnd then some (done, []) else none
    | '"' :: rest =>
      if toEnd then readDouble toEnd limit (addChar '"' true done) rest else some (done, rest)
    | '\\' :: '\n' :: rest => readDouble toEnd limit done rest
    | '\\' :: c :: rest =>
      if c = '$' || c = '\x60' || c = '\\' || (c = '"' && !toEnd) then
        readDouble toEnd limit (addChar c true done) rest
      else readDouble toEnd limit (addChar c true (addChar '\\' true done)) rest
    | '$' :: rest => do
      let (fragment, rest) ← afterDollar true rest
      readDouble toEnd limit (fragment :: done) rest
    | '\x60' :: rest => do
      let (script, rest) ← untilQuote '\x60' rest
      readDouble toEnd limit (.output (String.ofList (unprotect script)) true :: done) rest
    | c :: rest => readDouble toEnd limit (addChar c true done) rest

/-- The characters that end a word. -/
def endsWord (c : Char) : Bool := " \t\n;&|()<>".toList.contains c

/-- Reads a word; its fragments come last first. -/
def readWord : (limit : Nat) → (done : Word) → List Char → Option (Word × List Char)
  | 0, _, _ => none
  | limit + 1, done, cs =>
    match cs with
    | [] => some (done, [])
    | '\\' :: '\n' :: rest => readWord limit done rest
    | '\\' :: c :: rest => readWord limit (addChar c true done) rest
    | '\'' :: rest => do
      let (text, rest) ← untilQuote '\'' rest
      readWord limit (.plain (String.ofList text) true :: done) rest
    | '"' :: rest => do
      let (inner, rest) ← readDouble false limit [] rest
      readWord limit ((if inner.isEmpty then [.plain "" true] else inner) ++ done) rest
    | '$' :: rest => do
      let (fragment, rest) ← afterDollar false rest
      readWord limit (fragment :: done) rest
    | '\x60' :: rest => do
      let (script, rest) ← untilQuote '\x60' rest
      readWord limit (.output (String.ofList (unprotect script)) false :: done) rest
    | c :: rest =>
      if endsWord c then some (done, c :: rest) else readWord limit (addChar c false done) rest

/-- The operators, longer ones first. -/
def operators : List String := [";;", "&&", "||", ";", "&", "|", "(", ")"]

def redirections : List String := ["<<-", "<<", ">>", ">&", "<&", ">|", "<>", ">", "<"]

/-- The longest listed text that `cs` begins with. -/
def oneOf (texts : List String) (cs : List Char) : Option (String × List Char) :=
  (texts.find? fun t => t.toList.isPrefixOf cs).map fun t => (t, cs.drop t.length)

/-- The descriptor that a word before a redirection names. -/
def descriptor? : Word → Option Nat
  | [.plain text false] => if text.length = 1 then text.toNat? else none
  | _ => none

/-- The lines up to the one that is the delimiter, as a text, and what follows that line. If `tabs`,
the tabs at the beginning of a line are left out. -/
def document (delimiter : List Char) (tabs : Bool) (cs : List Char) : List Char × List Char :=
  let line (l : List Char) : List Char := if tabs then l.dropWhile (· = '\t') else l
  let lines := cs.splitOn '\n'
  let inside := lines.takeWhile fun l => line l != delimiter
  (inside.flatMap fun l => line l ++ ['\n'], ['\n'].intercalate (lines.drop (inside.length + 1)))

/-- The plain text of a word. -/
def plainText (w : Word) : String :=
  String.join (w.map fun
    | .plain text _ => text
    | _ => "")

def isQuoted (w : Word) : Bool :=
  w.any fun
    | .plain _ quoted => quoted
    | _ => false

/-- Reads all tokens of a script. The lines of documents that were read ahead are `owed` to the count
of lines. -/
def tokens : (limit : Nat) → (line owed : Nat) → List Char → Option (List Located)
  | 0, _, _, _ => none
  | limit + 1, line, owed, cs =>
    let redirected (descriptor : Nat) (sign : String) (rest : List Char) : Option (List Located) :=
      if sign.startsWith "<<" then do
        let (fragments, rest) ← readWord limit [] (rest.dropWhile fun c => c = ' ' || c = '\t')
        let here := rest.takeWhile (· != '\n')
        let (text, after) := document (plainText fragments.reverse).toList (sign = "<<-")
          (rest.drop (here.length + 1))
        let word ← if isQuoted fragments then some [.plain (String.ofList text) true]
          else (readDouble true (text.length + 1) [] text).map fun r => r.1.reverse
        let more ← tokens limit line (owed + text.count '\n' + 1) (here ++ '\n' :: after)
        return ⟨.redirect descriptor "<<", line⟩ :: ⟨.word word, line⟩ :: more
      else (⟨.redirect descriptor sign, line⟩ :: ·) <$> tokens limit line owed rest
    match cs with
    | [] => some []
    | '\n' :: rest => (⟨.operator "\n", line⟩ :: ·) <$> tokens limit (line + 1 + owed) 0 rest
    | '\\' :: '\n' :: rest => tokens limit (line + 1) owed rest
    | '#' :: rest => tokens limit line owed (rest.dropWhile (· != '\n'))
    | c :: rest =>
      if c = ' ' || c = '\t' then tokens limit line owed rest
      else
        match oneOf operators cs, oneOf redirections cs with
        | some (text, rest), _ => (⟨.operator text, line⟩ :: ·) <$> tokens limit line owed rest
        | none, some (sign, rest) => redirected (if sign.startsWith "<" then 0 else 1) sign rest
        | none, none => do
          let (fragments, rest) ← readWord limit [] cs
          let lines := (cs.take (cs.length - rest.length)).count '\n'
          match descriptor? fragments, oneOf redirections rest with
          | some descriptor, some (sign, rest) => redirected descriptor sign rest
          | _, _ => (⟨.word fragments.reverse, line⟩ :: ·) <$> tokens limit (line + lines) owed rest

def tokensOf (script : String) : Option (List Located) :=
  tokens (script.length + 2) 1 0 script.toList

end Recompile.Shell
