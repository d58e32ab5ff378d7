import Recompile.Proofs.Graph.Closure

/-!
# Purging several classes

Purging classes one after the other comes to the same graph in every order: the purged classes have
no neighbours, and the others lose them as neighbours.

A search that takes classes for dead never enters them. From a class that is not purged it follows
the same paths as a search in the purged graph. A seed that is purged is reported, and nothing is
reached from it.
-/

namespace Recompile.Graph

/-! ## The order of the purges -/

section Order

variable {g h : Graph}

/-- A graph is determined by its names and by the neighbours of each class. -/
theorem SameNames.eq (e : SameNames g h) (dependents : ∀ i, h.dependentIds i = g.dependentIds i)
    (uses : ∀ i, h.usedIds i = g.usedIds i) : h = g := by
  have hnodes : h.nodes = g.nodes := by
    refine Array.ext_getElem? fun i => ?_
    have hname := e.names i
    have hdependents := dependents i
    have huses := uses i
    simp only [dependentIds, usedIds] at hdependents huses
    cases hg : g.nodes[i]? with
    | none =>
      rw [hg, Option.map_none, Option.map_eq_none_iff] at hname
      exact hname
    | some node =>
      rw [hg, Option.map_some, Option.map_eq_some_iff] at hname
      obtain ⟨node', hh, hname⟩ := hname
      simp only [hg, hh, Option.map_some, Option.getD_some] at hdependents huses
      rw [hh, Option.some.injEq]
      cases node
      cases node'
      simp_all
  have hids := e.ids
  cases g
  cases h
  simp_all

theorem SameNames.trans {k : Graph} (e : SameNames g h) (e' : SameNames h k) : SameNames g k :=
  ⟨e'.ids.trans e.ids, fun i => (e'.names i).trans (e.names i)⟩

theorem sameNames_foldl_purge (g : Graph) (order : List String) :
    SameNames g (order.foldl purge g) := by
  induction order generalizing g with
  | nil => exact ⟨rfl, fun _ => rfl⟩
  | cons name rest ih => exact (sameNames_purge g name).trans (ih (g.purge name))

/-- What a list of neighbours is to a purge: it becomes empty for the purged class, and the others
lose that class. -/
structure IsLinks (view : Graph → Nat → List Nat) : Prop where
  lt : ∀ {g : Graph}, g.Sound → ∀ {i j}, j ∈ view g i → i < g.nodes.size ∧ j < g.nodes.size
  purge : ∀ {g : Graph}, g.Sound → ∀ {name id}, g.lookup name = some id → ∀ i,
    view (g.purge name) i = if i = id then [] else (view g i).filter (· != id)

theorem isLinks_dependentIds : IsLinks dependentIds where
  lt s := s.lt_of_mem_dependentIds
  purge s := s.dependentIds_purge

theorem isLinks_usedIds : IsLinks usedIds where
  lt s _ _ hj := (s.lt_of_mem_dependentIds (s.mirrored.2 hj)).symm
  purge s := s.usedIds_purge

namespace IsLinks

variable {view : Graph → Nat → List Nat}

/-- The effect of a purge in terms of names; it does not matter whether the name is known. -/
theorem purge_eq (v : IsLinks view) (s : g.Sound) (name : String) (i : Nat) :
    view (g.purge name) i =
      if g.nameOf i = name then [] else (view g i).filter (g.nameOf · != name) := by
  cases h : g.lookup name with
  | none =>
    have hne : ∀ j, j < g.nodes.size → g.nameOf j ≠ name := by
      rintro j hj rfl
      rw [s.lookup_nameOf hj] at h
      cases h
    rw [purge_of_unknown h]
    by_cases hnil : view g i = []
    · simp [hnil]
    · obtain ⟨j, hj⟩ := List.exists_mem_of_ne_nil _ hnil
      rw [if_neg (hne i (v.lt s hj).1), eq_comm, List.filter_eq_self]
      exact fun k hk => bne_iff_ne.2 (hne k (v.lt s hk).2)
  | some id =>
    have hiff : ∀ j, j < g.nodes.size → (j = id ↔ g.nameOf j = name) := by
      refine fun j hj => ⟨fun heq => heq ▸ s.nameOf_of_lookup h, fun hname => ?_⟩
      have hlookup := s.lookup_nameOf hj
      rw [hname, h] at hlookup
      exact (Option.some.inj hlookup).symm
    have hfilter : (view g i).filter (· != id) = (view g i).filter (g.nameOf · != name) := by
      refine List.filter_congr fun j hj => ?_
      rw [Bool.eq_iff_iff, bne_iff_ne, bne_iff_ne]
      exact not_congr (hiff j (v.lt s hj).2)
    rw [v.purge s h, hfilter]
    by_cases hnil : view g i = []
    · simp [hnil]
    · obtain ⟨j, hj⟩ := List.exists_mem_of_ne_nil _ hnil
      simp only [hiff i (v.lt s hj).1]

theorem foldl_purge_eq (v : IsLinks view) (s : g.Sound) (order : List String) (i : Nat) :
    view (order.foldl Graph.purge g) i =
      if g.nameOf i ∈ order then [] else (view g i).filter (g.nameOf · ∉ order) := by
  induction order generalizing g with
  | nil => simp
  | cons name rest ih =>
    rw [List.foldl_cons, ih (s.purge name), v.purge_eq s]
    simp only [(sameNames_purge g name).nameOf, List.mem_cons]
    by_cases hrest : g.nameOf i ∈ rest
    · simp [hrest]
    · by_cases hname : g.nameOf i = name
      · simp [hname]
      · simp only [hrest, hname, or_self, if_false, List.filter_filter]
        refine List.filter_congr fun j _ => ?_
        rw [Bool.eq_iff_iff, Bool.and_eq_true, decide_eq_true_iff, bne_iff_ne, decide_eq_true_iff]
        tauto

end IsLinks

/-- The order of purges does not matter, nor does purging a class twice. -/
theorem Sound.foldl_purge_congr (s : g.Sound) {order order' : List String}
    (hsame : ∀ name, name ∈ order' ↔ name ∈ order) :
    order'.foldl Graph.purge g = order.foldl Graph.purge g := by
  have e := sameNames_foldl_purge g order
  have e' := sameNames_foldl_purge g order'
  refine SameNames.eq ⟨e'.ids.trans e.ids.symm, fun i => (e'.names i).trans (e.names i).symm⟩ ?_ ?_
  · intro i
    simp only [isLinks_dependentIds.foldl_purge_eq s, hsame]
  · intro i
    simp only [isLinks_usedIds.foldl_purge_eq s, hsame]

end Order

variable {pairs : Finset (String × String)} {gone : List String} {live : String → Bool}

/-- The pairs that touch none of the names. -/
def pairsWithout (pairs : Finset (String × String)) (gone : List String) :
    Finset (String × String) :=
  pairs.filter fun e => e.1 ∉ gone ∧ e.2 ∉ gone

theorem Refines.foldl_purge {g : Graph} (r : g.Refines pairs) (gone : List String) :
    (gone.foldl purge g).Refines (pairsWithout pairs gone) := by
  refine ⟨r.sound.foldl_purge gone, fun (a, b) => ?_⟩
  rw [r.sound.mem_edges_foldl_purge, r.mem_edges, pairsWithout, Finset.mem_filter]

/-- An edge that is left after a purge is one that a search can take to a name that is not dead. -/
theorem liveEdge_pairsWithout_iff {a b : String} :
    LiveEdge (pairsWithout pairs gone) live a b ↔
      a ∉ gone ∧ LiveEdge pairs (fun name => live name && !gone.contains name) a b := by
  simp only [LiveEdge, pairsWithout, Finset.mem_filter, Bool.and_eq_true, Bool.not_eq_true',
    ← Bool.not_eq_true, List.contains_iff_mem]
  tauto

/-- From a class that is not purged, the paths that are left are those through names that are not
dead. -/
theorem path_pairsWithout_iff {seed c : String} (hseed : seed ∉ gone) :
    Relation.ReflTransGen (LiveEdge (pairsWithout pairs gone) live) seed c ↔
      Relation.ReflTransGen (LiveEdge pairs fun name => live name && !gone.contains name) seed c := by
  constructor
  · exact Relation.ReflTransGen.mono (fun _ _ h => (liveEdge_pairsWithout_iff.1 h).2) seed c
  · intro h
    have hstays : Relation.ReflTransGen (LiveEdge (pairsWithout pairs gone) live) seed c ∧
        c ∉ gone := by
      induction h with
      | refl => exact ⟨.refl, hseed⟩
      | tail _ hedge ih =>
        refine ⟨ih.1.tail (liveEdge_pairsWithout_iff.2 ⟨ih.2, hedge⟩), ?_⟩
        have hlive := hedge.2
        simp only [Bool.and_eq_true, Bool.not_eq_true', ← Bool.not_eq_true,
          List.contains_iff_mem] at hlive
        exact hlive.2
    exact hstays.1

/-- No path that is left leads away from a purged class. -/
theorem eq_of_path_pairsWithout {seed c : String} (hseed : seed ∈ gone)
    (h : Relation.ReflTransGen (LiveEdge (pairsWithout pairs gone) live) seed c) : c = seed := by
  induction h using Relation.ReflTransGen.head_induction_on with
  | refl => rfl
  | head hedge _ _ => exact absurd hseed (liveEdge_pairsWithout_iff.1 hedge).1

theorem Refines.mem_closure_foldl_purge {g : Graph} (r : g.Refines pairs) (gone seeds : List String)
    (live : String → Bool) (c : String) :
    c ∈ (gone.foldl purge g).closure seeds live ↔
      c ∈ seeds ∨ c ∈ g.closure (seeds.filter fun seed => !gone.contains seed)
        fun name => live name && !gone.contains name := by
  rw [(r.foldl_purge gone).mem_closure_iff, r.mem_closure_iff]
  simp only [List.mem_filter, Bool.not_eq_true', ← Bool.not_eq_true, List.contains_iff_mem]
  constructor
  · rintro ⟨seed, hmem, hpath⟩
    by_cases hseed : seed ∈ gone
    · exact .inl (eq_of_path_pairsWithout hseed hpath ▸ hmem)
    · exact .inr ⟨seed, ⟨hmem, hseed⟩, (path_pairsWithout_iff hseed).1 hpath⟩
  · rintro (hmem | ⟨seed, ⟨hmem, hseed⟩, hpath⟩)
    · exact ⟨c, hmem, .refl⟩
    · exact ⟨seed, hmem, (path_pairsWithout_iff hseed).2 hpath⟩

/-- Purging classes, in any order, and taking them for dead have the same effect on a search: the
closure in the purged graph is the one in the whole graph in which the purged classes are dead and
seeds that are purged lead nowhere. In particular both are equal if no seed is purged. -/
theorem closure_foldl_purge (history : List Change) (gone : Names) (order : List String)
    (horder : ∀ name, name ∈ order ↔ name ∈ gone) (seeds : List String) (live : String → Bool) :
    (∀ c, c ∈ (order.foldl purge (after history)).closure seeds live ↔
      c ∈ seeds ∨ c ∈ (after history).closure (seeds.filter fun seed => !gone.contains seed)
        fun name => live name && !gone.contains name) ∧
    ((∀ seed ∈ seeds, seed ∉ gone) →
      (order.foldl purge (after history)).closure seeds live =
        (after history).closure seeds fun name => live name && !gone.contains name) := by
  have hcontains : (fun name => order.contains name) = fun name => gone.contains name := by
    funext name
    rw [Bool.eq_iff_iff, List.contains_iff_mem, horder, Std.ExtTreeSet.contains_iff_mem]
  have hmem := (refines_after history).mem_closure_foldl_purge order seeds live
  simp only [fun name => congrFun hcontains name] at hmem
  refine ⟨hmem, fun hseeds => ?_⟩
  have hfilter : (seeds.filter fun seed => !gone.contains seed) = seeds := by
    rw [List.filter_eq_self]
    intro seed hseed
    rw [Bool.not_eq_true', ← Bool.not_eq_true, Std.ExtTreeSet.contains_iff_mem]
    exact hseeds seed hseed
  rw [hfilter] at hmem
  ext c
  rw [hmem, or_iff_right_iff_imp]
  exact fun hc => (refines_after history).mem_closure_iff.2 ⟨c, hc, .refl⟩

/-- A cycle, with a way that leaves it. -/
def cycle : List Change :=
  [.addEdge "A" "B", .addEdge "B" "C", .addEdge "C" "A", .addEdge "A" "D"]

/-- One class of the cycle is purged twice, together with a class that is not in the graph. -/
theorem closure_foldl_purge_cycle :
    (["B", "E", "B"].foldl purge (after cycle)).closure ["A"] (fun _ => true) =
      (after cycle).closure ["A"] (fun name => true && !(.ofList ["B", "E"] : Names).contains name) ∧
    ((["B", "E", "B"].foldl purge (after cycle)).closure ["A"] fun _ => true).toList = ["A", "D"] ∧
    ((after cycle).closure ["A"] fun _ => true).toList = ["A", "B", "C", "D"] := by
  have horder : ∀ name, name ∈ ["B", "E", "B"] ↔ name ∈ (.ofList ["B", "E"] : Names) := by
    intro name
    simp [Std.ExtTreeSet.mem_ofList]
    tauto
  have hseeds : ∀ seed ∈ ["A"], seed ∉ (.ofList ["B", "E"] : Names) := by
    simp [Std.ExtTreeSet.mem_ofList]
  exact ⟨(closure_foldl_purge cycle _ _ horder ["A"] fun _ => true).2 hseeds, by decide,
    by decide⟩

end Recompile.Graph
