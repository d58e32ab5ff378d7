import Recompile.Shell.Expression

/-!
# Editing a text line by line

The commands of `sed`: substitution, printing, deleting and quitting, each for all lines or for
those that an address selects.
-/

namespace Recompile.Shell.Editor

inductive Address where
  | all
  | line (number : Nat)
  | last
  | matching (expression : List RegexItem)
deriving DecidableEq, Repr

inductive Action where
  | substitute (expression : List RegexItem) (replacement : List Char) (all print : Bool)
  | print
  | delete
  | quit
deriving DecidableEq, Repr

structure Command where
  address : Address
  negated : Bool
  action : Action
deriving DecidableEq, Repr

/-- Text up to a delimiter; a backslash before the delimiter is taken away. -/
def untilDelimiter (delimiter : Char) : List Char → Option (List Char × List Char)
  | [] => none
  | '\\' :: c :: rest =>
    (untilDelimiter delimiter rest).map fun r =>
      ((if c = delimiter then [c] else ['\\', c]) ++ r.1, r.2)
  | c :: rest =>
    if c = delimiter then some ([], rest)
    else (untilDelimiter delimiter rest).map fun r => (c :: r.1, r.2)

def address : List Char → Option (Address × List Char)
  | '/' :: rest => (untilDelimiter '/' rest).map fun r => (.matching (regexOf (String.ofList r.1)), r.2)
  | '$' :: rest => some (.last, rest)
  | cs =>
    let digits := cs.takeWhile Char.isDigit
    if digits.isEmpty then some (.all, cs)
    else (String.ofList digits).toNat?.map fun n => (.line n, cs.drop digits.length)

def action : List Char → Option (Action × List Char)
  | 's' :: delimiter :: rest => do
    let (expression, rest) ← untilDelimiter delimiter rest
    let (replacement, rest) ← untilDelimiter delimiter rest
    let flags := rest.takeWhile Char.isAlpha
    return (.substitute (regexOf (String.ofList expression)) replacement (flags.contains 'g')
      (flags.contains 'p'), rest.drop flags.length)
  | 'p' :: rest => some (.print, rest)
  | 'd' :: rest => some (.delete, rest)
  | 'q' :: rest => some (.quit, rest)
  | _ => none

def isSeparator (c : Char) : Bool := " \t\n;".toList.contains c

/-- The commands of an editing script. -/
def commands : (limit : Nat) → List Char → Option (List Command)
  | 0, _ => none
  | limit + 1, cs => do
    let cs := cs.dropWhile isSeparator
    if cs.isEmpty then return []
    let (address, rest) ← address cs
    let rest := rest.dropWhile (· = ' ')
    let (negated, rest) := match rest with
      | '!' :: rest => (true, rest)
      | rest => (false, rest)
    let (action, rest) ← action rest
    return ⟨address, negated, action⟩ :: (← commands limit rest)

/-- A line under work: its text, what was printed for it, and whether it is still to be printed and
whether the work goes on. -/
structure Work where
  text : List Char
  printed : List (List Char)
  deleted : Bool
  quits : Bool

def selects (c : Command) (number : Nat) (isLast : Bool) (w : Work) : Bool :=
  (match c.address with
    | .all => true
    | .line n => n = number
    | .last => isLast
    | .matching e => (search e true w.text).isSome) != c.negated

def step (number : Nat) (isLast : Bool) (w : Work) (c : Command) : Work :=
  if w.deleted || w.quits || !selects c number isLast w then w
  else
    match c.action with
    | .print => { w with printed := w.printed ++ [w.text] }
    | .delete => { w with deleted := true }
    | .quit => { w with quits := true }
    | .substitute e replacement all print =>
      match Shell.substitute e replacement all (w.text.length + 2) true w.text with
      | none => w
      | some text =>
        { w with text, printed := if print then w.printed ++ [text] else w.printed }

/-- The lines that editing gives; `silent` drops what is not printed by a command. -/
def edit (commands : List Command) (silent : Bool) : (number : Nat) → List (List Char) →
    List (List Char)
  | _, [] => []
  | number, line :: rest =>
    let w := commands.foldl (step number rest.isEmpty) ⟨line, [], false, false⟩
    let shown := w.printed ++ (if silent || w.deleted then [] else [w.text])
    if w.quits then shown else shown ++ edit commands silent (number + 1) rest

end Recompile.Shell.Editor
