import Mathlib.Data.List.Basic
import Mathlib.Data.List.Nodup
import Recompile.Graph.Basic

/-!
# The edges of a dependency graph

`Graph.Sound` says that numbers and names correspond to each other and that each edge is stored at
both of its ends. Naming a class, adding an edge and purging a class keep it, and in a sound graph
`addEdge` and `purge` do to the set of edges what their names say.
-/

namespace Recompile.Graph

/-- Names and numbers are in bijection, and every edge is stored at both of its ends. -/
structure Sound (g : Graph) : Prop where
  lookup_nameAt : ∀ {i node}, g.nodes[i]? = some node → g.lookup node.name = some i
  nameAt_lookup : ∀ {name i}, g.lookup name = some i → ∃ node, g.nodes[i]? = some node ∧ node.name = name
  mirrored : ∀ {i j}, j ∈ g.dependentIds i ↔ i ∈ g.usedIds j
  nodup_dependents : ∀ i, (g.dependentIds i).Nodup

section Views

variable {g : Graph} {i j : Nat}

theorem dependentIds_of_node {node : Node} (h : g.nodes[i]? = some node) :
    g.dependentIds i = node.dependents := by
  simp [dependentIds, h]

theorem usedIds_of_node {node : Node} (h : g.nodes[i]? = some node) : g.usedIds i = node.uses := by
  simp [usedIds, h]

theorem exists_node_of_mem_dependentIds (h : j ∈ g.dependentIds i) :
    ∃ node, g.nodes[i]? = some node ∧ j ∈ node.dependents := by
  cases hn : g.nodes[i]? with
  | none => simp [dependentIds, hn] at h
  | some node => exact ⟨node, rfl, by simpa [dependentIds, hn] using h⟩

theorem exists_node_of_mem_usedIds (h : i ∈ g.usedIds j) : ∃ node, g.nodes[j]? = some node := by
  cases hn : g.nodes[j]? with
  | none => simp [usedIds, hn] at h
  | some node => exact ⟨node, rfl⟩

end Views

namespace Sound

variable {g : Graph}

theorem nameOf_of_lookup (s : g.Sound) {name : String} {i : Nat} (h : g.lookup name = some i) :
    g.nameOf i = name := by
  obtain ⟨node, hn, rfl⟩ := s.nameAt_lookup h
  simp [nameOf, hn]

theorem lookup_nameOf (s : g.Sound) {i : Nat} (h : i < g.nodes.size) :
    g.lookup (g.nameOf i) = some i := by
  have hn : g.nodes[i]? = some g.nodes[i] := Array.getElem?_eq_getElem h
  simpa [nameOf, hn] using s.lookup_nameAt hn

theorem lookup_lt (s : g.Sound) {name : String} {i : Nat} (h : g.lookup name = some i) :
    i < g.nodes.size := by
  obtain ⟨node, hn, -⟩ := s.nameAt_lookup h
  exact (Array.getElem?_eq_some_iff.1 hn).1

/-- Two names with one number are the same name. -/
theorem lookup_inj (s : g.Sound) {a b : String} {i : Nat} (ha : g.lookup a = some i)
    (hb : g.lookup b = some i) : a = b :=
  (s.nameOf_of_lookup ha).symm.trans (s.nameOf_of_lookup hb)

theorem lt_of_mem_dependentIds (s : g.Sound) {i j : Nat} (h : j ∈ g.dependentIds i) :
    i < g.nodes.size ∧ j < g.nodes.size := by
  obtain ⟨node, hn, -⟩ := exists_node_of_mem_dependentIds h
  obtain ⟨node', hn'⟩ := exists_node_of_mem_usedIds (s.mirrored.1 h)
  exact ⟨(Array.getElem?_eq_some_iff.1 hn).1, (Array.getElem?_eq_some_iff.1 hn').1⟩

/-- A pair of names is an edge exactly when their numbers are linked. -/
theorem mem_edges_iff (s : g.Sound) {a b : String} :
    (a, b) ∈ g.edges ↔
      ∃ i j, g.lookup a = some i ∧ g.lookup b = some j ∧ j ∈ g.dependentIds i := by
  simp only [edges, List.mem_flatMap, List.mem_map, Prod.mk.injEq]
  constructor
  · rintro ⟨node, hnode, j, hj, rfl, rfl⟩
    obtain ⟨i, hi⟩ := List.mem_iff_getElem?.1 hnode
    rw [Array.getElem?_toList] at hi
    have hlink : j ∈ g.dependentIds i := by rwa [dependentIds_of_node hi]
    exact ⟨i, j, s.lookup_nameAt hi, s.lookup_nameOf (s.lt_of_mem_dependentIds hlink).2, hlink⟩
  · rintro ⟨i, j, ha, hb, hlink⟩
    obtain ⟨node, hi, hj⟩ := exists_node_of_mem_dependentIds hlink
    refine ⟨node, ?_, j, hj, ?_, s.nameOf_of_lookup hb⟩
    · exact List.mem_iff_getElem?.2 ⟨i, by rwa [Array.getElem?_toList]⟩
    · rw [← s.nameOf_of_lookup ha]
      simp [nameOf, hi]

end Sound

@[simp] theorem nodes_empty : (∅ : Graph).nodes = #[] := rfl

@[simp] theorem edges_empty : (∅ : Graph).edges = [] := rfl

@[simp] theorem lookup_empty (name : String) : (∅ : Graph).lookup name = none :=
  Std.ExtTreeMap.getElem?_empty

theorem sound_empty : Sound ∅ where
  lookup_nameAt h := by simp at h
  nameAt_lookup h := by simp at h
  mirrored := by simp [dependentIds, usedIds]
  nodup_dependents i := by simp [dependentIds]

/-! ## Naming a class -/

section Intern

variable (g : Graph) (name : String)

theorem intern_of_lookup {g : Graph} {name : String} {id : Nat} (h : g.lookup name = some id) :
    g.intern name = (g, id) := by
  simp [intern, h]

theorem intern_of_unknown {g : Graph} {name : String} (h : g.lookup name = none) :
    g.intern name =
      (⟨g.nodes.push ⟨name, [], []⟩, g.ids.insert name g.nodes.size⟩, g.nodes.size) := by
  simp [intern, h]

theorem lookup_intern_self : (g.intern name).1.lookup name = some (g.intern name).2 := by
  cases h : g.lookup name with
  | none => simp [intern_of_unknown h, lookup]
  | some id => simp [intern_of_lookup h, h]

theorem lookup_intern_of_lookup {other : String} {id : Nat} (h : g.lookup other = some id) :
    (g.intern name).1.lookup other = some id := by
  cases hn : g.lookup name with
  | some _ => simp [intern_of_lookup hn, h]
  | none =>
    have hne : name ≠ other := by
      rintro rfl
      simp [hn] at h
    rw [intern_of_unknown hn]
    simpa [lookup, Std.ExtTreeMap.getElem?_insert, hne] using h

@[simp] theorem dependentIds_intern (i : Nat) :
    (g.intern name).1.dependentIds i = g.dependentIds i := by
  cases hn : g.lookup name with
  | some _ => simp [intern_of_lookup hn]
  | none =>
    rw [intern_of_unknown hn]
    simp only [dependentIds, Array.getElem?_push]
    split <;> simp_all

@[simp] theorem usedIds_intern (i : Nat) : (g.intern name).1.usedIds i = g.usedIds i := by
  cases hn : g.lookup name with
  | some _ => simp [intern_of_lookup hn]
  | none =>
    rw [intern_of_unknown hn]
    simp only [usedIds, Array.getElem?_push]
    split <;> simp_all

theorem Sound.intern {g : Graph} (s : g.Sound) (name : String) : (g.intern name).1.Sound := by
  cases hn : g.lookup name with
  | some _ => rwa [intern_of_lookup hn]
  | none =>
    refine ⟨fun {i node} h => ?_, fun {other i} h => ?_, fun {i j} => ?_, fun i => ?_⟩
    · rw [intern_of_unknown hn] at h ⊢
      rw [Array.getElem?_push] at h
      split at h
      · next hi =>
        obtain rfl := Option.some.inj h
        simp [lookup, hi]
      · have hold := s.lookup_nameAt h
        have hne : name ≠ node.name := by
          rintro rfl
          simp [hn] at hold
        simpa [lookup, Std.ExtTreeMap.getElem?_insert, hne] using hold
    · rw [intern_of_unknown hn] at h ⊢
      by_cases hne : name = other
      · subst hne
        obtain rfl : g.nodes.size = i := by simpa [lookup] using h
        exact ⟨⟨name, [], []⟩, by simp, rfl⟩
      · have hold : g.lookup other = some i := by
          simpa [lookup, Std.ExtTreeMap.getElem?_insert, hne] using h
        obtain ⟨node, hi, hname⟩ := s.nameAt_lookup hold
        refine ⟨node, ?_, hname⟩
        rw [Array.getElem?_push, if_neg (Nat.ne_of_lt (s.lookup_lt hold))]
        exact hi
    · rw [dependentIds_intern, usedIds_intern]
      exact s.mirrored
    · rw [dependentIds_intern]
      exact s.nodup_dependents i

end Intern

/-! ## Changing links -/

/-- Both graphs give the same numbers to the same names. -/
structure SameNames (g h : Graph) : Prop where
  ids : h.ids = g.ids
  names : ∀ i : Nat, (h.nodes[i]?).map Node.name = (g.nodes[i]?).map Node.name

namespace SameNames

variable {g h : Graph}

theorem lookup (e : SameNames g h) (name : String) : h.lookup name = g.lookup name := by
  simp [Graph.lookup, e.ids]

theorem nameOf (e : SameNames g h) (i : Nat) : h.nameOf i = g.nameOf i := by
  simp [Graph.nameOf, e.names i]

/-- Relinking keeps soundness as long as the new links are mirrored and not repeated. -/
theorem sound (e : SameNames g h) (s : g.Sound)
    (mirrored : ∀ {i j}, j ∈ h.dependentIds i ↔ i ∈ h.usedIds j)
    (nodup : ∀ i, (h.dependentIds i).Nodup) : h.Sound := by
  refine ⟨fun {i node} hn => ?_, fun {name i} hl => ?_, mirrored, nodup⟩
  · have hname := e.names i
    rw [hn, Option.map_some, eq_comm, Option.map_eq_some_iff] at hname
    obtain ⟨old, ho, hname⟩ := hname
    rw [e.lookup, ← hname]
    exact s.lookup_nameAt ho
  · rw [e.lookup] at hl
    obtain ⟨old, ho, rfl⟩ := s.nameAt_lookup hl
    have hname := e.names i
    rw [ho, Option.map_some, Option.map_eq_some_iff] at hname
    exact hname

end SameNames

section AddEdge

variable {g : Graph}

/-- The graph with one more link between two numbers that it has. -/
def link (g : Graph) (source target : Nat) : Graph :=
  { g with nodes := (g.nodes.modify source (addDependent target)).modify target (addUse source) }

theorem addEdge_eq_link (g : Graph) (dependency dependent : String) :
    g.addEdge dependency dependent =
      ((g.intern dependency).1.intern dependent).1.link (g.intern dependency).2
        ((g.intern dependency).1.intern dependent).2 := rfl

theorem sameNames_link (g : Graph) (source target : Nat) : SameNames g (g.link source target) where
  ids := rfl
  names i := by
    simp only [link, Array.getElem?_modify]
    split <;> split <;> cases g.nodes[i]? <;> simp [addDependent, addUse]

theorem mem_dependentIds_link {source target : Nat} (hs : source < g.nodes.size) (i j : Nat) :
    j ∈ (g.link source target).dependentIds i ↔
      (i = source ∧ j = target) ∨ j ∈ g.dependentIds i := by
  simp only [link, dependentIds, Array.getElem?_modify]
  by_cases hi : source = i
  · subst hi
    rw [Array.getElem?_eq_getElem hs]
    by_cases ht : target = source <;> simp [ht, addDependent, addUse]
  · by_cases ht : target = i <;> cases g.nodes[i]? <;> simp [hi, ht, addUse, Ne.symm hi]

theorem mem_usedIds_link {source target : Nat} (ht : target < g.nodes.size) (i j : Nat) :
    i ∈ (g.link source target).usedIds j ↔
      (i = source ∧ j = target) ∨ i ∈ g.usedIds j := by
  simp only [link, usedIds, Array.getElem?_modify]
  by_cases hj : target = j
  · subst hj
    rw [Array.getElem?_eq_getElem ht]
    by_cases hs : source = target <;> simp [hs, addDependent, addUse]
  · by_cases hs : source = j <;> cases g.nodes[j]? <;> simp [hj, hs, addDependent, Ne.symm hj]

theorem nodup_dependentIds_link (source target : Nat) {i : Nat} (h : (g.dependentIds i).Nodup) :
    ((g.link source target).dependentIds i).Nodup := by
  revert h
  simp only [link, dependentIds, Array.getElem?_modify]
  cases g.nodes[i]? with
  | none => simp
  | some node =>
    intro h
    have : (node.dependents.insert target).Nodup := h.insert
    split <;> split <;> simpa [addDependent, addUse] using by assumption

theorem Sound.link (s : g.Sound) {source target : Nat} (hs : source < g.nodes.size)
    (ht : target < g.nodes.size) : (g.link source target).Sound := by
  refine (sameNames_link g source target).sound s (fun {i j} => ?_) fun i => ?_
  · rw [mem_dependentIds_link hs, mem_usedIds_link ht, s.mirrored]
  · exact nodup_dependentIds_link source target (s.nodup_dependents i)

theorem Sound.intern_lt (s : g.Sound) (name : String) :
    (g.intern name).2 < (g.intern name).1.nodes.size :=
  (s.intern name).lookup_lt (lookup_intern_self g name)

/-- The numbers of both ends of a new edge, once both are named. -/
theorem Sound.ends_lt (s : g.Sound) (a b : String) :
    (g.intern a).2 < ((g.intern a).1.intern b).1.nodes.size ∧
      ((g.intern a).1.intern b).2 < ((g.intern a).1.intern b).1.nodes.size :=
  ⟨((s.intern a).intern b).lookup_lt (lookup_intern_of_lookup _ _ (lookup_intern_self g a)),
    (s.intern a).intern_lt b⟩

theorem Sound.addEdge (s : g.Sound) (dependency dependent : String) :
    (g.addEdge dependency dependent).Sound := by
  rw [addEdge_eq_link]
  exact ((s.intern dependency).intern dependent).link (s.ends_lt dependency dependent).1
    (s.ends_lt dependency dependent).2

/-- Naming a class adds no edge. -/
theorem Sound.mem_edges_intern (s : g.Sound) (name a b : String) :
    (a, b) ∈ (g.intern name).1.edges ↔ (a, b) ∈ g.edges := by
  rw [(s.intern name).mem_edges_iff, s.mem_edges_iff]
  constructor
  · rintro ⟨i, j, ha, hb, hlink⟩
    rw [dependentIds_intern] at hlink
    have hi := s.lookup_nameOf (s.lt_of_mem_dependentIds hlink).1
    have hj := s.lookup_nameOf (s.lt_of_mem_dependentIds hlink).2
    have ea := (s.intern name).lookup_inj ha (lookup_intern_of_lookup g name hi)
    have eb := (s.intern name).lookup_inj hb (lookup_intern_of_lookup g name hj)
    exact ⟨i, j, by rwa [ea], by rwa [eb], hlink⟩
  · rintro ⟨i, j, ha, hb, hlink⟩
    exact ⟨i, j, lookup_intern_of_lookup g name ha, lookup_intern_of_lookup g name hb, by
      rwa [dependentIds_intern]⟩

theorem Sound.mem_edges_addEdge (s : g.Sound) (dependency dependent a b : String) :
    (a, b) ∈ (g.addEdge dependency dependent).edges ↔
      (a = dependency ∧ b = dependent) ∨ (a, b) ∈ g.edges := by
  have s' := (s.intern dependency).intern dependent
  have hsource : ((g.intern dependency).1.intern dependent).1.lookup dependency =
      some (g.intern dependency).2 :=
    lookup_intern_of_lookup _ _ (lookup_intern_self g dependency)
  have htarget := lookup_intern_self (g.intern dependency).1 dependent
  rw [(s.addEdge dependency dependent).mem_edges_iff, ← s.mem_edges_intern dependency,
    ← (s.intern dependency).mem_edges_intern dependent, s'.mem_edges_iff, addEdge_eq_link]
  simp only [(sameNames_link _ _ _).lookup,
    mem_dependentIds_link (s.ends_lt dependency dependent).1]
  constructor
  · rintro ⟨i, j, ha, hb, ⟨rfl, rfl⟩ | hlink⟩
    · exact .inl ⟨s'.lookup_inj ha hsource, s'.lookup_inj hb htarget⟩
    · exact .inr ⟨i, j, ha, hb, hlink⟩
  · rintro (⟨rfl, rfl⟩ | ⟨i, j, ha, hb, hlink⟩)
    · exact ⟨_, _, hsource, htarget, .inl ⟨rfl, rfl⟩⟩
    · exact ⟨i, j, ha, hb, .inr hlink⟩

end AddEdge

section Purge

variable {g : Graph}

/-- Changing the nodes of a list one by one changes each of them once if a second change does
nothing more. -/
theorem getElem?_foldl_modify (f : Node → Node) (twice : ∀ node, f (f node) = f node)
    (others : List Nat) (nodes : Array Node) (i : Nat) :
    (others.foldl (fun nodes other => nodes.modify other f) nodes)[i]? =
      if i ∈ others then (nodes[i]?).map f else nodes[i]? := by
  induction others generalizing nodes with
  | nil => simp
  | cons other rest ih =>
    rw [List.foldl_cons, ih, Array.getElem?_modify]
    by_cases hother : other = i
    · have hmem : i ∈ other :: rest := by simp [hother]
      rw [if_pos hother, if_pos hmem]
      split <;> simp [Function.comp_def, twice]
    · have hmem : i ∈ other :: rest ↔ i ∈ rest := by simp [Ne.symm hother]
      simp only [if_neg hother, hmem]

/-- The node at a number after the links of `id` are taken away. -/
def unlinked (g : Graph) (id i : Nat) (node : Node) : Node :=
  let node := if id = i then ⟨node.name, [], []⟩ else node
  let node := if i ∈ g.usedIds id then dropDependent id node else node
  if i ∈ g.dependentIds id then dropUse id node else node

theorem nodes_purge {name : String} {id : Nat} (h : g.lookup name = some id) (i : Nat) :
    (g.purge name).nodes[i]? = (g.nodes[i]?).map (g.unlinked id i) := by
  simp only [purge, h]
  rw [getElem?_foldl_modify (dropUse id) (by simp [dropUse]),
    getElem?_foldl_modify (dropDependent id) (by simp [dropDependent]), Array.getElem?_modify]
  cases g.nodes[i]? with
  | none => split <;> split <;> split <;> rfl
  | some node =>
    simp only [Option.map_some, unlinked]
    split <;> split <;> split <;> rfl

theorem purge_of_unknown {name : String} (h : g.lookup name = none) : g.purge name = g := by
  simp [purge, h]

theorem sameNames_purge (g : Graph) (name : String) : SameNames g (g.purge name) := by
  cases h : g.lookup name with
  | none => rw [purge_of_unknown h]; exact ⟨rfl, fun _ => rfl⟩
  | some id =>
    refine ⟨by simp [purge, h], fun i => ?_⟩
    rw [nodes_purge h, Option.map_map]
    congr 1
    funext node
    simp only [Function.comp, unlinked]
    split <;> split <;> split <;> rfl

/-- After purging, the purged class has no dependents and is no dependent. -/
theorem Sound.dependentIds_purge (s : g.Sound) {name : String} {id : Nat}
    (h : g.lookup name = some id) (i : Nat) :
    (g.purge name).dependentIds i =
      if i = id then [] else (g.dependentIds i).filter (· != id) := by
  have hmirror : i ∉ g.usedIds id → id ∉ g.dependentIds i := fun hu hd => hu (s.mirrored.1 hd)
  rw [dependentIds, nodes_purge h]
  rw [dependentIds] at hmirror ⊢
  cases hn : g.nodes[i]? with
  | none => simp
  | some node =>
    simp only [hn, Option.map_some, Option.getD_some] at hmirror ⊢
    by_cases hi : id = i
    · by_cases hu : i ∈ g.usedIds id <;> by_cases hd : i ∈ g.dependentIds id <;>
        simp [unlinked, hi, dropDependent, dropUse]
    · have hkeep : i ∉ g.usedIds id → node.dependents.filter (· != id) = node.dependents := by
        intro hu
        rw [List.filter_eq_self]
        rintro j hj
        simp only [bne_iff_ne, ne_eq]
        rintro rfl
        exact hmirror hu hj
      by_cases hu : i ∈ g.usedIds id <;> by_cases hd : i ∈ g.dependentIds id <;>
        simp [unlinked, hi, hu, hd, Ne.symm hi, dropDependent, dropUse, hkeep]

theorem Sound.usedIds_purge (s : g.Sound) {name : String} {id : Nat}
    (h : g.lookup name = some id) (j : Nat) :
    (g.purge name).usedIds j = if j = id then [] else (g.usedIds j).filter (· != id) := by
  have hmirror : j ∉ g.dependentIds id → id ∉ g.usedIds j := fun hd hu => hd (s.mirrored.2 hu)
  rw [usedIds, nodes_purge h]
  rw [usedIds] at hmirror ⊢
  cases hn : g.nodes[j]? with
  | none => simp
  | some node =>
    simp only [hn, Option.map_some, Option.getD_some] at hmirror ⊢
    by_cases hj : id = j
    · by_cases hu : j ∈ g.usedIds id <;> by_cases hd : j ∈ g.dependentIds id <;>
        simp [unlinked, hj, dropDependent, dropUse]
    · have hkeep : j ∉ g.dependentIds id → node.uses.filter (· != id) = node.uses := by
        intro hd
        rw [List.filter_eq_self]
        rintro i hi
        simp only [bne_iff_ne, ne_eq]
        rintro rfl
        exact hmirror hd hi
      by_cases hu : j ∈ g.usedIds id <;> by_cases hd : j ∈ g.dependentIds id <;>
        simp [unlinked, hj, hu, hd, Ne.symm hj, dropDependent, dropUse, hkeep]

theorem Sound.purge (s : g.Sound) (name : String) : (g.purge name).Sound := by
  cases h : g.lookup name with
  | none => rwa [purge_of_unknown h]
  | some id =>
    refine (sameNames_purge g name).sound s (fun {i j} => ?_) fun i => ?_
    · rw [s.dependentIds_purge h, s.usedIds_purge h]
      have := s.mirrored (i := i) (j := j)
      by_cases hi : i = id <;> by_cases hj : j = id <;> simp_all
    · rw [s.dependentIds_purge h]
      split
      · exact List.nodup_nil
      · exact (s.nodup_dependents i).filter _

theorem Sound.mem_edges_purge (s : g.Sound) (name a b : String) :
    (a, b) ∈ (g.purge name).edges ↔ (a, b) ∈ g.edges ∧ a ≠ name ∧ b ≠ name := by
  cases h : g.lookup name with
  | none =>
    rw [purge_of_unknown h, s.mem_edges_iff]
    refine ⟨?_, And.left⟩
    rintro ⟨i, j, ha, hb, hlink⟩
    refine ⟨⟨i, j, ha, hb, hlink⟩, ?_, ?_⟩ <;> rintro rfl <;> simp_all
  | some id =>
    rw [(s.purge name).mem_edges_iff, s.mem_edges_iff]
    simp only [(sameNames_purge g name).lookup, s.dependentIds_purge h]
    constructor
    · rintro ⟨i, j, ha, hb, hlink⟩
      split at hlink
      · simp at hlink
      · next hi =>
        obtain ⟨hlink, hj⟩ := List.mem_filter.1 hlink
        refine ⟨⟨i, j, ha, hb, hlink⟩, ?_, ?_⟩ <;> rintro rfl <;> simp_all
    · rintro ⟨⟨i, j, ha, hb, hlink⟩, hane, hbne⟩
      have hi : i ≠ id := by
        rintro rfl
        exact hane (s.lookup_inj ha h)
      have hj : j ≠ id := by
        rintro rfl
        exact hbne (s.lookup_inj hb h)
      refine ⟨i, j, ha, hb, ?_⟩
      rw [if_neg hi, List.mem_filter]
      exact ⟨hlink, by simpa using hj⟩

end Purge

/-! ## Many edges and many purges -/

section Folds

variable {g : Graph}

theorem Sound.foldl_purge (s : g.Sound) (gone : List String) :
    (gone.foldl Graph.purge g).Sound := by
  induction gone generalizing g with
  | nil => exact s
  | cons name rest ih => exact ih (s.purge name)

theorem Sound.mem_edges_foldl_purge (s : g.Sound) (gone : List String) (a b : String) :
    (a, b) ∈ (gone.foldl Graph.purge g).edges ↔ (a, b) ∈ g.edges ∧ a ∉ gone ∧ b ∉ gone := by
  induction gone generalizing g with
  | nil => simp
  | cons name rest ih =>
    rw [List.foldl_cons, ih (s.purge name), s.mem_edges_purge]
    simp only [List.mem_cons, not_or]
    tauto

end Folds

end Recompile.Graph
