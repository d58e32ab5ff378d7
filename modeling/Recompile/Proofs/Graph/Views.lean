import Mathlib.Data.Finset.Card
import Mathlib.Data.List.Sort
import Mathlib.Data.Prod.Lex
import Mathlib.Data.String.Basic
import Recompile.Proofs.Graph.Closure

/-!
# What a graph shows of its edges

Everything that can be asked of a graph is a function of the plain set of its pairs: the list of its
edges, their number, the dependents of a class, the ascending list, equality and the closure. So
graphs with the same pairs cannot be told apart, whatever their histories.
-/

namespace Recompile.Graph

/-! ## The ascending order of pairs -/

theorem edgeAtMost_iff (e f : String × String) : edgeAtMost e f = true ↔ toLex e ≤ toLex f := by
  simp [edgeAtMost, Prod.Lex.toLex_le_toLex]

theorem sortedEdges_pairwise (g : Graph) :
    g.sortedEdges.Pairwise fun e f => toLex e ≤ toLex f := by
  have htrans : ∀ a b c, edgeAtMost a b = true → edgeAtMost b c = true → edgeAtMost a c = true := by
    intro a b c
    simp only [edgeAtMost_iff]
    exact le_trans
  have htotal : ∀ a b, (edgeAtMost a b || edgeAtMost b a) = true := by
    intro a b
    rw [Bool.or_eq_true, edgeAtMost_iff, edgeAtMost_iff]
    exact le_total _ _
  exact (List.pairwise_mergeSort htrans htotal g.edges).imp (edgeAtMost_iff _ _).1

theorem sortedEdges_perm (g : Graph) : g.sortedEdges.Perm g.edges := List.mergeSort_perm _ _

/-! ## One graph -/

namespace Sound

variable {g : Graph}

theorem nameOf_inj (s : g.Sound) {i j : Nat} (hi : i < g.nodes.size) (hj : j < g.nodes.size)
    (h : g.nameOf i = g.nameOf j) : i = j := by
  have hlookup := s.lookup_nameOf hi
  rw [h, s.lookup_nameOf hj] at hlookup
  exact (Option.some.inj hlookup).symm

/-- The names of the neighbours of one class are distinct. -/
theorem nodup_dependents_names (s : g.Sound) (i : Nat) :
    ((g.dependentIds i).map g.nameOf).Nodup :=
  (s.nodup_dependents i).map_on fun _ ha _ hb =>
    s.nameOf_inj (s.lt_of_mem_dependentIds ha).2 (s.lt_of_mem_dependentIds hb).2

theorem nodup_dependentsOf (s : g.Sound) (name : String) : (g.dependents name).Nodup := by
  rw [Graph.dependents]
  cases g.lookup name with
  | none => exact List.nodup_nil
  | some id => exact s.nodup_dependents_names id

theorem nodup_edges (s : g.Sound) : g.edges.Nodup := by
  rw [edges, List.nodup_flatMap]
  constructor
  · intro node hnode
    obtain ⟨i, hi⟩ := List.mem_iff_getElem?.1 hnode
    rw [Array.getElem?_toList] at hi
    have hnames := s.nodup_dependents_names i
    rw [dependentIds_of_node hi] at hnames
    have hpairs := hnames.map (Prod.mk_right_injective node.name)
    rwa [List.map_map] at hpairs
  · rw [List.pairwise_iff_getElem]
    intro i j hi hj hlt e hei hej
    obtain ⟨_, -, rfl⟩ := List.mem_map.1 hei
    obtain ⟨_, -, hsame⟩ := List.mem_map.1 hej
    have hlookup : ∀ k (hk : k < g.nodes.toList.length),
        g.lookup g.nodes.toList[k].name = some k := fun k hk =>
      s.lookup_nameAt (by rw [← Array.getElem?_toList, List.getElem?_eq_getElem hk])
    have hname := hlookup j hj
    rw [(Prod.mk.inj hsame).1, hlookup i hi] at hname
    exact hlt.ne (Option.some.inj hname)

end Sound

theorem edgeCount_eq_length (g : Graph) : g.edgeCount = g.edges.length := by
  simp [edgeCount, edges, List.length_flatMap]

/-- Every view of the graph shows exactly the pairs of the set, and none of them twice. -/
structure Shows (g : Graph) (pairs : Finset (String × String)) : Prop where
  mem_edges : ∀ e, e ∈ g.edges ↔ e ∈ pairs
  nodup_edges : g.edges.Nodup
  edgeCount_eq : g.edgeCount = pairs.card
  mem_dependents : ∀ a b, b ∈ g.dependents a ↔ (a, b) ∈ pairs
  nodup_dependents : ∀ a, (g.dependents a).Nodup
  mem_sortedEdges : ∀ e, e ∈ g.sortedEdges ↔ e ∈ pairs
  ascending : g.sortedEdges.Pairwise fun e f => toLex e < toLex f

namespace Refines

variable {g : Graph} {pairs : Finset (String × String)}

theorem mem_dependents_iff (r : g.Refines pairs) (a b : String) :
    b ∈ g.dependents a ↔ (a, b) ∈ pairs := by
  rw [r.mem_pairs_iff, Graph.dependents]
  cases ha : g.lookup a with
  | none => simp
  | some i =>
    rw [List.mem_map]
    constructor
    · rintro ⟨j, hj, rfl⟩
      exact ⟨i, j, rfl, r.sound.lookup_nameOf (r.sound.lt_of_mem_dependentIds hj).2, hj⟩
    · rintro ⟨_, j, hi, hb, hj⟩
      obtain rfl := Option.some.inj hi
      exact ⟨j, hj, r.sound.nameOf_of_lookup hb⟩

theorem edgeCount_eq_card (r : g.Refines pairs) : g.edgeCount = pairs.card := by
  have hset : g.edges.toFinset = pairs := by
    ext e
    rw [List.mem_toFinset, r.mem_edges]
  rw [edgeCount_eq_length, ← List.toFinset_card_of_nodup r.sound.nodup_edges, hset]

theorem sortedEdges_ascending (r : g.Refines pairs) :
    g.sortedEdges.Pairwise fun e f => toLex e < toLex f := by
  have hnodup : g.sortedEdges.Nodup := g.sortedEdges_perm.nodup_iff.2 r.sound.nodup_edges
  exact (g.sortedEdges_pairwise.and hnodup).imp fun ⟨hle, hne⟩ => lt_of_le_of_ne hle hne

theorem shows (r : g.Refines pairs) : g.Shows pairs where
  mem_edges := r.mem_edges
  nodup_edges := r.sound.nodup_edges
  edgeCount_eq := r.edgeCount_eq_card
  mem_dependents := r.mem_dependents_iff
  nodup_dependents := r.sound.nodup_dependentsOf
  mem_sortedEdges e := g.sortedEdges_perm.mem_iff.trans (r.mem_edges e)
  ascending := r.sortedEdges_ascending

end Refines

/-! ## Two graphs -/

/-- No view tells the graphs apart; the lists that have no order of their own may differ in it. -/
structure SameViews (g h : Graph) : Prop where
  edges_perm : g.edges.Perm h.edges
  sortedEdges_eq : g.sortedEdges = h.sortedEdges
  edgeCount_eq : g.edgeCount = h.edgeCount
  dependents_perm : ∀ name, (g.dependents name).Perm (h.dependents name)
  closure_eq : ∀ seeds live, g.closure seeds live = h.closure seeds live

namespace Refines

variable {g h : Graph} {pairs others : Finset (String × String)}

theorem edges_perm (r : g.Refines pairs) (r' : h.Refines pairs) : g.edges.Perm h.edges :=
  (List.perm_ext_iff_of_nodup r.sound.nodup_edges r'.sound.nodup_edges).2 fun e => by
    rw [r.mem_edges, r'.mem_edges]

theorem sortedEdges_eq_iff (r : g.Refines pairs) (r' : h.Refines others) :
    g.sortedEdges = h.sortedEdges ↔ pairs = others := by
  constructor
  · intro heq
    ext e
    rw [← r.shows.mem_sortedEdges, ← r'.shows.mem_sortedEdges, heq]
  · rintro rfl
    have hperm := (g.sortedEdges_perm.trans (r.edges_perm r')).trans h.sortedEdges_perm.symm
    exact hperm.eq_of_pairwise (fun _ _ _ _ hef hfe => toLex.injective (le_antisymm hef hfe))
      g.sortedEdges_pairwise h.sortedEdges_pairwise

theorem alike_iff (r : g.Refines pairs) (r' : h.Refines others) :
    g.alike h = true ↔ pairs = others := by
  rw [alike, beq_iff_eq, r.sortedEdges_eq_iff r']

theorem sameViews (r : g.Refines pairs) (r' : h.Refines pairs) : SameViews g h where
  edges_perm := r.edges_perm r'
  sortedEdges_eq := (r.sortedEdges_eq_iff r').2 rfl
  edgeCount_eq := r.edgeCount_eq_card.trans r'.edgeCount_eq_card.symm
  dependents_perm name :=
    (List.perm_ext_iff_of_nodup (r.sound.nodup_dependentsOf name)
      (r'.sound.nodup_dependentsOf name)).2 fun b => by
        rw [r.mem_dependents_iff, r'.mem_dependents_iff]
  closure_eq _ live := r'.closure_congr r (fun _ => Iff.rfl) live

end Refines

/-- A graph refines the set of its pairs: after every history it shows exactly the pairs that the
history leaves, two graphs are equal exactly if their pairs are, and graphs with equal pairs show the
same, also after the same further changes. -/
theorem after_shows_pairsAfter (history : List Change) :
    (after history).Shows (pairsAfter history) ∧
    ∀ other : List Change,
      ((after history).alike (after other) = true ↔ pairsAfter history = pairsAfter other) ∧
      (pairsAfter history = pairsAfter other → ∀ more : List Change,
        SameViews (after (history ++ more)) (after (other ++ more))) := by
  refine ⟨(refines_after history).shows, fun other => ⟨?_, fun hpairs more => ?_⟩⟩
  · exact (refines_after history).alike_iff (refines_after other)
  · have r := refines_after (history ++ more)
    rw [pairsAfter_append_congr hpairs more] at r
    exact r.sameViews (refines_after (other ++ more))

end Recompile.Graph
