import Recompile.Proofs.Graph.History

/-!
# Numbers of classes

The two tables of a graph agree (`Consistent`): names and numbers are in bijection, and each link is
stored at both of its ends, by numbers that have a class. So a change always finds a class where it
looks one up by its number, also half-way through a purge: every history goes through when lookups
can fail (`Change.checked`), and leaves the same graph.

The numbers count the names in the order in which a history names them first. What follows never
changes the number of a name.
-/

namespace Recompile.Graph

/-- The tables of a graph agree with each other. -/
structure Consistent (g : Graph) : Prop where
  ids_name : ∀ i (hi : i < g.nodes.size), g.ids[g.nodes[i].name]? = some i
  name_ids : ∀ name i, g.ids[name]? = some i → ∃ hi : i < g.nodes.size, g.nodes[i].name = name
  name_injective : ∀ i j (hi : i < g.nodes.size) (hj : j < g.nodes.size),
    g.nodes[i].name = g.nodes[j].name → i = j
  dependents_lt : ∀ i (hi : i < g.nodes.size), ∀ j ∈ g.nodes[i].dependents, j < g.nodes.size
  uses_lt : ∀ i (hi : i < g.nodes.size), ∀ j ∈ g.nodes[i].uses, j < g.nodes.size
  mirrored : ∀ i j (hi : i < g.nodes.size) (hj : j < g.nodes.size),
    j ∈ g.nodes[i].dependents ↔ i ∈ g.nodes[j].uses

section Views

variable {g : Graph} {i : Nat}

theorem dependentIds_of_lt (hi : i < g.nodes.size) : g.dependentIds i = g.nodes[i].dependents :=
  dependentIds_of_node (Array.getElem?_eq_getElem hi)

theorem usedIds_of_lt (hi : i < g.nodes.size) : g.usedIds i = g.nodes[i].uses :=
  usedIds_of_node (Array.getElem?_eq_getElem hi)

end Views

theorem Sound.consistent {g : Graph} (s : g.Sound) : g.Consistent where
  ids_name i hi := s.lookup_nameAt (Array.getElem?_eq_getElem hi)
  name_ids name i h := by
    obtain ⟨node, hnode, rfl⟩ := s.nameAt_lookup h
    obtain ⟨hi, rfl⟩ := Array.getElem?_eq_some_iff.1 hnode
    exact ⟨hi, rfl⟩
  name_injective i j hi hj h := by
    have hlookup := s.lookup_nameAt (Array.getElem?_eq_getElem hi)
    rw [h, s.lookup_nameAt (Array.getElem?_eq_getElem hj)] at hlookup
    exact (Option.some.inj hlookup).symm
  dependents_lt i hi j hj := by
    rw [← dependentIds_of_lt hi] at hj
    exact (s.lt_of_mem_dependentIds hj).2
  uses_lt i hi j hj := by
    rw [← usedIds_of_lt hi, ← s.mirrored] at hj
    exact (s.lt_of_mem_dependentIds hj).1
  mirrored i j hi hj := by
    rw [← dependentIds_of_lt hi, ← usedIds_of_lt hj, s.mirrored]

/-! ## Lookups that can fail -/

/-- Changes the node at a number; there has to be one. -/
def modify? (f : Node → Node) (nodes : Array Node) (i : Nat) : Option (Array Node) :=
  if i < nodes.size then some (nodes.modify i f) else none

/-- Adds an edge if both ends have a class. -/
def addEdge? (g : Graph) (dependency dependent : String) : Option Graph := do
  let (g, source) := g.intern dependency
  let (g, target) := g.intern dependent
  let nodes ← modify? (addDependent target) g.nodes source
  let nodes ← modify? (addUse source) nodes target
  return { g with nodes }

/-- Purges a class if every number among its neighbours has a class. -/
def purge? (g : Graph) (name : String) : Option Graph :=
  match g.lookup name with
  | none => some g
  | some id => do
    let node ← g.nodes[id]?
    let nodes ← modify? (fun node => ⟨node.name, [], []⟩) g.nodes id
    let nodes ← node.uses.foldlM (modify? (dropDependent id)) nodes
    let nodes ← node.dependents.foldlM (modify? (dropUse id)) nodes
    return { g with nodes }

/-- Makes a change if every number that it looks up has a class. -/
def Change.checked (g : Graph) : Change → Option Graph
  | addEdge dependency dependent => g.addEdge? dependency dependent
  | purge name => g.purge? name

section Checked

variable {g : Graph} {nodes : Array Node} {f : Node → Node}

theorem modify?_of_lt {i : Nat} (h : i < nodes.size) :
    modify? f nodes i = some (nodes.modify i f) := if_pos h

/-- A change of one node leaves the number of nodes, so the next one is there as well. -/
theorem foldlM_modify? {others : List Nat} (h : ∀ i ∈ others, i < nodes.size) :
    others.foldlM (modify? f) nodes =
      some (others.foldl (fun nodes other => nodes.modify other f) nodes) := by
  induction others generalizing nodes with
  | nil => rfl
  | cons other rest ih =>
    rw [List.foldlM_cons, modify?_of_lt (h other List.mem_cons_self), Option.bind_eq_bind,
      Option.bind_some, List.foldl_cons]
    refine ih fun i hi => ?_
    rw [Array.size_modify]
    exact h i (List.mem_cons_of_mem other hi)

theorem size_foldl_modify (others : List Nat) (nodes : Array Node) :
    (others.foldl (fun nodes other => nodes.modify other f) nodes).size = nodes.size := by
  induction others generalizing nodes with
  | nil => rfl
  | cons other rest ih => rw [List.foldl_cons, ih, Array.size_modify]

theorem Sound.addEdge?_eq (s : g.Sound) (dependency dependent : String) :
    g.addEdge? dependency dependent = some (g.addEdge dependency dependent) := by
  obtain ⟨hsource, htarget⟩ := s.ends_lt dependency dependent
  simp only [addEdge?, modify?_of_lt hsource, Option.bind_eq_bind, Option.bind_some]
  rw [modify?_of_lt]
  · rfl
  · rwa [Array.size_modify]

theorem Sound.purge?_eq (s : g.Sound) (name : String) : g.purge? name = some (g.purge name) := by
  cases h : g.lookup name with
  | none => simp only [purge?, Graph.purge, h]
  | some id =>
    have hid := s.lookup_lt h
    have huses := s.consistent.uses_lt id hid
    have hdependents := s.consistent.dependents_lt id hid
    simp only [purge?, Graph.purge, h, usedIds_of_lt hid, dependentIds_of_lt hid,
      Array.getElem?_eq_getElem hid, modify?_of_lt hid, Option.bind_eq_bind, Option.bind_some]
    rw [foldlM_modify?, Option.bind_some, foldlM_modify?]
    · rfl
    · simpa only [size_foldl_modify, Array.size_modify] using hdependents
    · simpa only [Array.size_modify] using huses

theorem Sound.checked_eq (s : g.Sound) (change : Change) :
    change.checked g = some (change.apply g) := by
  cases change with
  | addEdge dependency dependent => exact s.addEdge?_eq dependency dependent
  | purge name => exact s.purge?_eq name

theorem Refines.foldlM_checked {pairs : Finset (String × String)} (r : g.Refines pairs)
    (history : List Change) :
    history.foldlM Change.checked g = some (history.foldl Change.apply g) := by
  induction history generalizing g pairs with
  | nil => rfl
  | cons change rest ih =>
    rw [List.foldlM_cons, r.sound.checked_eq, Option.bind_eq_bind, Option.bind_some, List.foldl_cons]
    exact ih (r.apply change)

end Checked

/-! ## The order of the numbers -/

/-- The names of all classes, by their numbers. -/
def names (g : Graph) : List String := g.nodes.toList.map Node.name

/-- The classes that a change names, the dependency first. -/
def Change.named : Change → List String
  | addEdge dependency dependent => [dependency, dependent]
  | purge _ => []

/-- The classes that a history names, in the order in which it names them first. -/
def namedIn (history : List Change) : List String := (history.flatMap Change.named).eraseDups

section Order

variable {g h : Graph} {earlier : List String}

theorem getElem?_names (g : Graph) (i : Nat) : g.names[i]? = (g.nodes[i]?).map Node.name := by
  rw [names, List.getElem?_map, Array.getElem?_toList]

theorem SameNames.names_eq (e : SameNames g h) : h.names = g.names := by
  refine List.ext_getElem? fun i => ?_
  rw [getElem?_names, getElem?_names, e.names]

/-- A number is the place of its name. -/
theorem Sound.lookup_eq_some_iff (s : g.Sound) {name : String} {i : Nat} :
    g.lookup name = some i ↔ g.names[i]? = some name := by
  rw [getElem?_names, Option.map_eq_some_iff]
  constructor
  · exact s.nameAt_lookup
  · rintro ⟨node, hnode, rfl⟩
    exact s.lookup_nameAt hnode

theorem Sound.names_intern (s : g.Sound) (hnames : g.names = earlier.eraseDups) (name : String) :
    (g.intern name).1.names = (earlier ++ [name]).eraseDups := by
  have hmem : name ∈ earlier ↔ ∃ i, g.lookup name = some i := by
    rw [← List.mem_eraseDups, ← hnames, List.mem_iff_getElem?]
    simp only [s.lookup_eq_some_iff]
  rw [List.eraseDups_append, ← hnames]
  cases hlookup : g.lookup name with
  | some id =>
    have hearlier : name ∈ earlier := hmem.2 ⟨id, hlookup⟩
    simp [intern_of_lookup hlookup, List.removeAll, hearlier]
  | none =>
    have hearlier : name ∉ earlier := by simp [hmem, hlookup]
    simp [intern_of_unknown hlookup, names, List.removeAll, hearlier, List.eraseDups_cons]

/-- A change gives the next numbers to the names that it names first. -/
theorem Sound.names_apply (s : g.Sound) (hnames : g.names = earlier.eraseDups) (change : Change) :
    (change.apply g).names = (earlier ++ change.named).eraseDups := by
  cases change with
  | addEdge dependency dependent =>
    have hsource := s.names_intern hnames dependency
    have htarget := (s.intern dependency).names_intern hsource dependent
    rw [Change.apply, addEdge_eq_link, (sameNames_link _ _ _).names_eq, htarget, List.append_assoc]
    rfl
  | purge name =>
    rw [Change.apply, (sameNames_purge g name).names_eq, hnames, Change.named, List.append_nil]

theorem Refines.names_foldl {pairs : Finset (String × String)} (r : g.Refines pairs)
    (hnames : g.names = earlier.eraseDups) (history : List Change) :
    (history.foldl Change.apply g).names = (earlier ++ history.flatMap Change.named).eraseDups := by
  induction history generalizing g pairs earlier with
  | nil => simpa using hnames
  | cons change rest ih =>
    rw [List.foldl_cons, ih (r.apply change) (r.sound.names_apply hnames change),
      List.flatMap_cons, List.append_assoc]

end Order

theorem names_after (history : List Change) : (after history).names = namedIn history :=
  have hempty : (∅ : Graph).names = [].eraseDups := rfl
  refines_empty.names_foldl hempty history

/-- Later changes add names behind those that have numbers. -/
theorem isPrefix_namedIn (history more : List Change) : namedIn history <+: namedIn (history ++ more) := by
  rw [namedIn, namedIn, List.flatMap_append, List.eraseDups_append]
  exact List.prefix_append _ _

/-- After every history the tables of the graph agree, and no change of the history has looked up a
number without a class. The numbers count the names in the order of first naming, the dependency
before the dependent, and a name keeps its number whatever follows. -/
theorem after_consistent (history : List Change) :
    (after history).Consistent ∧
    history.foldlM Change.checked ∅ = some (after history) ∧
    (∀ name i, (after history).lookup name = some i ↔ (namedIn history)[i]? = some name) ∧
    ∀ (more : List Change) (name : String) (i : Nat), (after history).lookup name = some i →
      (after (history ++ more)).lookup name = some i := by
  have hlookup (history : List Change) (name : String) (i : Nat) :
      (after history).lookup name = some i ↔ (namedIn history)[i]? = some name := by
    rw [(refines_after history).sound.lookup_eq_some_iff, names_after]
  refine ⟨(refines_after history).sound.consistent, refines_empty.foldlM_checked history,
    hlookup history, fun more name i h => ?_⟩
  rw [hlookup] at h ⊢
  obtain ⟨hi, rfl⟩ := List.getElem?_eq_some_iff.1 h
  rw [(isPrefix_namedIn history more).getElem (by omega), List.getElem?_eq_getElem]

end Recompile.Graph
