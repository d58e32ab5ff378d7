import Mathlib.Data.Finset.Insert
import Mathlib.Data.Finset.Filter
import Mathlib.Data.Finset.Prod
import Recompile.Proofs.Graph.Edges

/-!
# A graph as a set of pairs

A history is a list of changes. `after` is the graph that a history leaves, and `pairsAfter` the
plain set that it leaves when each change is made to a set of pairs. `Refines` connects the two, each
change keeps it, and so it holds after every history.
-/

namespace Recompile.Graph

/-- A change to a graph. -/
inductive Change
  | addEdge (dependency dependent : String)
  | purge (name : String)
deriving DecidableEq, Repr

namespace Change

def apply (g : Graph) : Change → Graph
  | addEdge dependency dependent => g.addEdge dependency dependent
  | purge name => g.purge name

/-- The change as one to a set of pairs. -/
def applyPairs (pairs : Finset (String × String)) : Change → Finset (String × String)
  | addEdge dependency dependent => insert (dependency, dependent) pairs
  | purge name => pairs.filter fun e => e.1 ≠ name ∧ e.2 ≠ name

end Change

/-- The graph that a history leaves. -/
def after (history : List Change) : Graph := history.foldl Change.apply ∅

/-- The set of pairs that a history leaves. -/
def pairsAfter (history : List Change) : Finset (String × String) :=
  history.foldl Change.applyPairs ∅

/-- The graph is well formed, and its edges are the pairs of the set. -/
structure Refines (g : Graph) (pairs : Finset (String × String)) : Prop where
  sound : g.Sound
  mem_edges : ∀ e, e ∈ g.edges ↔ e ∈ pairs

theorem refines_empty : Refines ∅ ∅ := ⟨sound_empty, by simp⟩

namespace Refines

variable {g : Graph} {pairs : Finset (String × String)}

theorem apply (r : g.Refines pairs) (change : Change) :
    (change.apply g).Refines (change.applyPairs pairs) := by
  cases change with
  | addEdge dependency dependent =>
    refine ⟨r.sound.addEdge _ _, fun (a, b) => ?_⟩
    rw [Change.apply, r.sound.mem_edges_addEdge, r.mem_edges, Change.applyPairs, Finset.mem_insert,
      Prod.mk.injEq]
  | purge name =>
    refine ⟨r.sound.purge _, fun (a, b) => ?_⟩
    rw [Change.apply, r.sound.mem_edges_purge, r.mem_edges, Change.applyPairs, Finset.mem_filter]

theorem foldl (r : g.Refines pairs) (history : List Change) :
    (history.foldl Change.apply g).Refines (history.foldl Change.applyPairs pairs) := by
  induction history generalizing g pairs with
  | nil => exact r
  | cons change rest ih => exact ih (r.apply change)

/-- A pair of the set, seen through the numbers of its names. -/
theorem mem_pairs_iff (r : g.Refines pairs) {a b : String} :
    (a, b) ∈ pairs ↔ ∃ i j, g.lookup a = some i ∧ g.lookup b = some j ∧ j ∈ g.dependentIds i := by
  rw [← r.mem_edges, r.sound.mem_edges_iff]

end Refines

theorem refines_after (history : List Change) : (after history).Refines (pairsAfter history) :=
  refines_empty.foldl history

theorem pairsAfter_append (history more : List Change) :
    pairsAfter (history ++ more) = more.foldl Change.applyPairs (pairsAfter history) :=
  List.foldl_append

/-- Histories that leave the same pairs still do after the same further changes. -/
theorem pairsAfter_append_congr {history other : List Change}
    (h : pairsAfter history = pairsAfter other) (more : List Change) :
    pairsAfter (history ++ more) = pairsAfter (other ++ more) := by
  rw [pairsAfter_append, pairsAfter_append, h]

end Recompile.Graph
