import Std.Data.ExtTreeMap
import Recompile.Text.Quoted

/-!
# The dependency graph

Each class that was ever named has a number, counted in the order of first naming, and keeps it. An
edge leads from a class to a class whose code refers to it, and is stored at both of its ends: the
`dependents` of the one and the `uses` of the other. Purging a class takes away every edge that
touches it.
-/

namespace Recompile

/-- A class in the graph and its neighbours, given by their numbers. -/
structure Node where
  name : String
  dependents : List Nat
  uses : List Nat
deriving DecidableEq, Repr

structure Graph where
  nodes : Array Node
  ids : Std.ExtTreeMap String Nat

namespace Graph

def empty : Graph := ⟨#[], ∅⟩

instance : EmptyCollection Graph := ⟨empty⟩

def lookup (g : Graph) (name : String) : Option Nat := g.ids[name]?

def nameOf (g : Graph) (id : Nat) : String := ((g.nodes[id]?).map Node.name).getD ""

def dependentIds (g : Graph) (id : Nat) : List Nat :=
  ((g.nodes[id]?).map Node.dependents).getD []

def usedIds (g : Graph) (id : Nat) : List Nat := ((g.nodes[id]?).map Node.uses).getD []

/-- The number of a class; a class named for the first time gets the next one. -/
def intern (g : Graph) (name : String) : Graph × Nat :=
  match g.lookup name with
  | some id => (g, id)
  | none =>
    let fresh := g.nodes.size
    (⟨g.nodes.push ⟨name, [], []⟩, g.ids.insert name fresh⟩, fresh)

def addDependent (id : Nat) (node : Node) : Node :=
  { node with dependents := node.dependents.insert id }

def addUse (id : Nat) (node : Node) : Node := { node with uses := node.uses.insert id }

/-- Adds the edge from `dependency` to the class whose code refers to it. -/
def addEdge (g : Graph) (dependency dependent : String) : Graph :=
  let (g, source) := g.intern dependency
  let (g, target) := g.intern dependent
  { g with nodes := (g.nodes.modify source (addDependent target)).modify target (addUse source) }

def dropDependent (id : Nat) (node : Node) : Node :=
  { node with dependents := node.dependents.filter (· != id) }

def dropUse (id : Nat) (node : Node) : Node := { node with uses := node.uses.filter (· != id) }

/-- Removes every edge that touches the class; its number stays. -/
def purge (g : Graph) (name : String) : Graph :=
  match g.lookup name with
  | none => g
  | some id =>
    let used := g.usedIds id
    let dependents := g.dependentIds id
    let nodes := g.nodes.modify id fun node => ⟨node.name, [], []⟩
    let nodes := used.foldl (fun nodes other => nodes.modify other (dropDependent id)) nodes
    let nodes := dependents.foldl (fun nodes other => nodes.modify other (dropUse id)) nodes
    { g with nodes }

/-- The classes whose code refers to the class. -/
def dependents (g : Graph) (name : String) : List String :=
  match g.lookup name with
  | none => []
  | some id => (g.dependentIds id).map g.nameOf

/-- The edges as pairs of a class and a class whose code refers to it. -/
def edges (g : Graph) : List (String × String) :=
  g.nodes.toList.flatMap fun node => node.dependents.map fun id => (node.name, g.nameOf id)

def edgeCount (g : Graph) : Nat := (g.nodes.toList.flatMap Node.dependents).length

/-- Orders pairs by the first and then by the second text. -/
def edgeAtMost (e f : String × String) : Bool :=
  e.1 < f.1 || (e.1 == f.1 && e.2 ≤ f.2)

def sortedEdges (g : Graph) : List (String × String) := g.edges.mergeSort edgeAtMost

/-- Two graphs are alike when they have the same edges. -/
def alike (g h : Graph) : Bool := g.sortedEdges == h.sortedEdges

def ofEdges (edges : List (String × String)) : Graph :=
  edges.foldl (fun g e => g.addEdge e.1 e.2) ∅

/-- The edges between braces, each as a pair of quoted names. -/
def describe (g : Graph) : String :=
  let pairs := g.sortedEdges.map fun e =>
    "(" ++ Text.quoted e.1 ++ ", " ++ Text.quoted e.2 ++ ")"
  "\x7b" ++ ", ".intercalate pairs ++ "\x7d"

end Graph

end Recompile
