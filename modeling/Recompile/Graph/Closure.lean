import Recompile.Graph.Basic
import Recompile.Log.Event
import Recompile.Table

/-!
# Everything that depends on some classes

Starting from the seeds, each round goes one edge further from the classes that the round before has
found, and keeps those that are live and were not found earlier. So round `k` finds the classes at
distance `k`, and there are at most as many rounds as classes.
-/

namespace Recompile.Graph

/-- The classes found in one round, and all that were found up to and in that round. -/
structure Round where
  found : List Nat
  visited : Std.ExtTreeSet Nat

namespace Round

def visit (r : Round) (id : Nat) : Round :=
  if id ∈ r.visited then r else ⟨id :: r.found, r.visited.insert id⟩

end Round

/-- The classes that refer to one of the given ones directly, with repetitions. -/
def neighbours (g : Graph) (ids : List Nat) : List Nat := ids.flatMap g.dependentIds

def firstRound (g : Graph) (seeds : List String) : Round :=
  (seeds.filterMap g.lookup).foldl Round.visit ⟨[], ∅⟩

def nextRound (g : Graph) (live : String → Bool) (r : Round) : Round :=
  ((g.neighbours r.found).filter fun id => live (g.nameOf id)).foldl Round.visit ⟨[], r.visited⟩

/-- What the rounds from `r` on find, as long as they find anything. -/
def roundsFrom (g : Graph) (live : String → Bool) : (limit : Nat) → Round → List (List Nat)
  | 0, _ => []
  | limit + 1, r =>
    if r.found.isEmpty then [] else r.found :: g.roundsFrom live limit (g.nextRound live r)

def rounds (g : Graph) (seeds : List String) (live : String → Bool) : List (List Nat) :=
  g.roundsFrom live g.nodes.size (g.firstRound seeds)

/-- The seeds and every class that depends on one of them through live classes. -/
def closure (g : Graph) (seeds : List String) (live : String → Bool) : Names :=
  .ofList (seeds ++ (g.rounds seeds live).flatten.map g.nameOf)

/-- The events of a search. -/
def closureLog (g : Graph) (seeds : List String) (live : String → Bool) : List Log.Event :=
  let rounds := g.rounds seeds live
  let stale := (g.neighbours rounds.flatten).filter fun id => !live (g.nameOf id)
  let event (message : String) : Log.Event := ⟨.debug, "incjc::graph", message⟩
  [event "dependency search, initial class set"]
    ++ stale.map (fun _ => event "skipping stale dependent")
    ++ rounds.tail.map fun _ => event "dependency search, next class set"

end Recompile.Graph
