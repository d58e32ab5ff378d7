/-!
# Patterns of names

A pattern is a list of characters of which some have a meaning: `*` stands for any text, `?` for any
character and `[…]` for one of a set of characters. Quoted characters stand for themselves.
-/

namespace Recompile.Shell

/-- What matches one character. -/
inductive Matcher where
  | only (c : Char)
  | any
  | set (negated : Bool) (ranges : List (Char × Char))
deriving DecidableEq, Repr

namespace Matcher

def accepts : Matcher → Char → Bool
  | only d, c => c = d
  | any, _ => true
  | set negated ranges, c => (ranges.any fun r => r.1 ≤ c && c ≤ r.2) != negated

end Matcher

/-- The ranges of a set up to its closing bracket. -/
def setRanges : (limit : Nat) → (first : Bool) → List Char →
    Option (List (Char × Char) × List Char)
  | 0, _, _ => none
  | limit + 1, first, cs =>
    match cs with
    | ']' :: rest =>
      if first then (setRanges limit false rest).map fun r => ((']', ']') :: r.1, r.2)
      else some ([], rest)
    | low :: '-' :: high :: rest =>
      if high = ']' then
        (setRanges limit false ('-' :: high :: rest)).map fun r => ((low, low) :: r.1, r.2)
      else (setRanges limit false rest).map fun r => ((low, high) :: r.1, r.2)
    | c :: rest => (setRanges limit false rest).map fun r => ((c, c) :: r.1, r.2)
    | [] => none

/-- The set that follows an opening bracket. -/
def set? (cs : List Char) : Option (Matcher × List Char) :=
  let (negated, cs) := match cs with
    | '!' :: rest => (true, rest)
    | '^' :: rest => (true, rest)
    | _ => (false, cs)
  (setRanges (cs.length + 1) true cs).map fun r => (.set negated r.1, r.2)

/-- A part of a pattern: any text, or one character. -/
inductive GlobPart where
  | anything
  | one (m : Matcher)
deriving DecidableEq, Repr

/-- The parts of a pattern whose characters are marked when they are quoted. -/
def globParts : (limit : Nat) → List (Char × Bool) → List GlobPart
  | 0, _ => []
  | _, [] => []
  | limit + 1, (c, quoted) :: rest =>
    if quoted then .one (.only c) :: globParts limit rest
    else if c = '*' then .anything :: globParts limit rest
    else if c = '?' then .one .any :: globParts limit rest
    else if c = '[' then
      match set? (rest.map Prod.fst) with
      | some (m, after) => .one m :: globParts limit (rest.drop (rest.length - after.length))
      | none => .one (.only c) :: globParts limit rest
    else .one (.only c) :: globParts limit rest

def globMatches : List GlobPart → List Char → Bool
  | [], cs => cs.isEmpty
  | .one m :: parts, c :: cs => m.accepts c && globMatches parts cs
  | .one _ :: _, [] => false
  | .anything :: parts, [] => globMatches parts []
  | .anything :: parts, c :: cs => globMatches parts (c :: cs) || globMatches (.anything :: parts) cs
termination_by parts cs => parts.length + cs.length

/-- Whether a pattern matches a whole text. -/
def patternMatches (pattern : List (Char × Bool)) (text : String) : Bool :=
  globMatches (globParts (pattern.length + 1) pattern) text.toList

/-- The text without the part at its beginning that the pattern matches: the shortest such part, or
the longest if `longest`. -/
def withoutBeginning (pattern : List (Char × Bool)) (longest : Bool) (text : String) : String :=
  let parts := globParts (pattern.length + 1) pattern
  let cs := text.toList
  let cuts := List.range (cs.length + 1)
  let cuts := if longest then cuts.reverse else cuts
  match cuts.find? fun n => globMatches parts (cs.take n) with
  | some n => String.ofList (cs.drop n)
  | none => text

/-- The text without the part at its end that the pattern matches. -/
def withoutEnding (pattern : List (Char × Bool)) (longest : Bool) (text : String) : String :=
  let parts := globParts (pattern.length + 1) pattern
  let cs := text.toList
  let cuts := List.range (cs.length + 1)
  let cuts := if longest then cuts else cuts.reverse
  match cuts.find? fun n => globMatches parts (cs.drop n) with
  | some n => String.ofList (cs.take n)
  | none => text

end Recompile.Shell
