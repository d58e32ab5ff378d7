import Recompile.Log.Event
import Recompile.Text.Affix
import Recompile.Text.Blank
import Recompile.Text.Fields

/-!
# Choosing log events

A filter is a list of rules, each allowing the events whose target begins with a given text up to
some detail. Of the rules that speak about a target the one with the longest text decides, the later
one of two equals; without such a rule an event is not shown.
-/

namespace Recompile.Log

structure Rule where
  target : String
  /-- The greatest detail that is shown. -/
  detail : Nat
deriving DecidableEq, Repr

abbrev Filter := List Rule

/-- The detail that the name or the number of a level stands for. -/
def detail? (text : String) : Option Nat :=
  let lower := text.toLower
  [("off", 0), ("error", 1), ("warn", 2), ("info", 3), ("debug", 4), ("trace", 5), ("", 1), ("0", 0),
    ("1", 1), ("2", 2), ("3", 3), ("4", 4), ("5", 5)].lookup lower

namespace Rule

def isTargetChar (c : Char) : Bool := c.isAlphanum || c = '_' || c = ':' || c = '-'

/-- Reads `level`, `target=level`, or `target` for everything about the target. -/
def parse? (text : String) : Option Rule :=
  let text := Text.trim text
  match Text.cutFirst? "=" text with
  | some (target, level) =>
    if target ≠ "" && target.toList.all isTargetChar then (detail? level).map fun n => ⟨target, n⟩
    else none
  | none =>
    match detail? text with
    | some n => some ⟨"", n⟩
    | none => if text.toList.all isTargetChar then some ⟨text, 5⟩ else none

/-- Whether the rule speaks about a target more closely than, or as closely as, another one. -/
def closer (r : Rule) (other : Option Rule) : Bool :=
  other.all fun o => o.target.length ≤ r.target.length

end Rule

namespace Filter

/-- The rules of a text with commas between them; none if one of them is no rule. A text without
rules shows errors. -/
def parse? (text : String) : Option Filter :=
  match (Text.fields ',' text).filter (· ≠ "") with
  | [] => some [⟨"", 1⟩]
  | rules => rules.mapM Rule.parse?

/-- The rule that decides about a target. -/
def ruleFor (f : Filter) (target : String) : Option Rule :=
  f.foldl (fun found r =>
    if Text.startsWith r.target target && r.closer found then some r else found) none

def shows (f : Filter) (e : Event) : Bool :=
  (f.ruleFor e.target).any fun r => e.level.detail ≤ r.detail

/-- The filter that the settings choose: a given text wins if it is one. -/
def choose (debug : Bool) (given : Option String) : Filter :=
  (given.bind parse?).getD [⟨"incjc", if debug then 4 else 2⟩]

end Filter

end Recompile.Log
