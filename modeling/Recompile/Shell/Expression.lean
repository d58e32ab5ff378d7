import Recompile.Shell.Pattern

/-!
# Regular expressions

Basic regular expressions as `sed` and `grep` read them: characters, `.`, sets, `*` after one of
these, `^` and `$` at the ends, and groups whose text can be used in a replacement. A match is the
leftmost one, and every `*` takes as much as it can.
-/

namespace Recompile.Shell

inductive RegexItem where
  | one (m : Matcher)
  | many (m : Matcher)
  | start
  | finish
  | opens (group : Nat)
  | closes (group : Nat)
deriving DecidableEq, Repr

/-- Puts a star behind a matcher if one follows. -/
def starred (m : Matcher) : List Char → RegexItem × List Char
  | '*' :: rest => (.many m, rest)
  | rest => (.one m, rest)

/-- The items of an expression; `groups` counts the groups so far, `opened` holds the open ones. -/
def regexItems : (limit groups : Nat) → (opened : List Nat) → (first : Bool) → List Char →
    List RegexItem
  | 0, _, _, _, _ => []
  | limit + 1, groups, opened, first, cs =>
    match cs with
    | [] => []
    | '^' :: rest =>
      if first then .start :: regexItems limit groups opened false rest
      else
        let (item, rest) := starred (.only '^') rest
        item :: regexItems limit groups opened false rest
    | ['$'] => [.finish]
    | '\\' :: '(' :: rest =>
      .opens (groups + 1) :: regexItems limit (groups + 1) ((groups + 1) :: opened) true rest
    | '\\' :: ')' :: rest =>
      match opened with
      | group :: opened => .closes group :: regexItems limit groups opened false rest
      | [] => regexItems limit groups [] false rest
    | '\\' :: c :: rest =>
      let (item, rest) := starred (.only (if c = 'n' then '\n' else if c = 't' then '\t' else c)) rest
      item :: regexItems limit groups opened false rest
    | '.' :: rest =>
      let (item, rest) := starred .any rest
      item :: regexItems limit groups opened false rest
    | '[' :: rest =>
      match set? rest with
      | some (m, rest) =>
        let (item, rest) := starred m rest
        item :: regexItems limit groups opened false rest
      | none => .one (.only '[') :: regexItems limit groups opened false rest
    | c :: rest =>
      let (item, rest) := if first && c = '*' then (.one (.only c), rest) else starred (.only c) rest
      item :: regexItems limit groups opened false rest

def regexOf (expression : String) : List RegexItem :=
  regexItems (expression.length + 1) 0 [] true expression.toList

/-- The beginnings and ends of groups, as lengths of the text after them. -/
abbrev Marks := List (Nat × Nat × Nat)

/-- Matches items at the beginning of a text; `atStart` tells whether that is the beginning of the
whole text. The answer is the text after the match. -/
def matchHere : List RegexItem → (atStart : Bool) → Marks → List Char →
    Option (List Char × Marks)
  | [], _, marks, cs => some (cs, marks)
  | .start :: items, atStart, marks, cs => if atStart then matchHere items atStart marks cs else none
  | .finish :: items, atStart, marks, cs =>
    if cs.isEmpty then matchHere items atStart marks cs else none
  | .opens group :: items, atStart, marks, cs =>
    matchHere items atStart ((group, cs.length, cs.length) :: marks) cs
  | .closes group :: items, atStart, marks, cs =>
    matchHere items atStart
      (marks.map fun m => if m.1 = group then (m.1, m.2.1, cs.length) else m) cs
  | .one m :: items, _, marks, c :: cs => if m.accepts c then matchHere items false marks cs else none
  | .one _ :: _, _, _, [] => none
  | .many _ :: items, atStart, marks, [] => matchHere items atStart marks []
  | .many m :: items, atStart, marks, c :: cs =>
    (if m.accepts c then matchHere (.many m :: items) false marks cs else none)
      <|> matchHere items atStart marks (c :: cs)
termination_by items _ _ cs => items.length + cs.length

/-- A match: the text before it, in it and after it, and its groups. -/
structure Match where
  before : List Char
  inside : List Char
  after : List Char
  groups : List (Nat × List Char)
deriving DecidableEq, Repr

/-- The match at the beginning of a text. -/
def matchAt (items : List RegexItem) (atStart : Bool) (cs : List Char) : Option Match :=
  (matchHere items atStart [] cs).map fun (after, marks) =>
    let part (start finish : Nat) : List Char := (cs.drop (cs.length - start)).take (start - finish)
    ⟨[], part cs.length after.length, after, marks.map fun m => (m.1, part m.2.1 m.2.2)⟩

/-- The leftmost match. -/
def search (items : List RegexItem) (atStart : Bool) : List Char → Option Match
  | [] => matchAt items atStart []
  | c :: rest =>
    match matchAt items atStart (c :: rest) with
    | some m => some m
    | none => (search items false rest).map fun m => { m with before := c :: m.before }

/-- The text that a replacement stands for. -/
def replacementText (m : Match) : List Char → List Char
  | '\\' :: c :: rest =>
    (if c.isDigit then ((m.groups.lookup (c.toNat - '0'.toNat)).getD
        (if c = '0' then m.inside else []))
      else if c = 'n' then ['\n'] else if c = 't' then ['\t'] else [c]) ++ replacementText m rest
  | '&' :: rest => m.inside ++ replacementText m rest
  | c :: rest => c :: replacementText m rest
  | [] => []

/-- Replaces the first match, or every match if `all`; nothing if there is none. -/
def substitute (items : List RegexItem) (replacement : List Char) (all : Bool) :
    (limit : Nat) → (atStart : Bool) → List Char → Option (List Char)
  | 0, _, _ => none
  | limit + 1, atStart, cs => do
    let m ← search items atStart cs
    let done := m.before ++ replacementText m replacement
    if all then
      match m.inside, m.after with
      | [], [] => return done
      | [], c :: after =>
        return done ++ c :: (substitute items replacement all limit false after).getD after
      | _, after => return done ++ (substitute items replacement all limit false after).getD after
    else return done ++ m.after

end Recompile.Shell
