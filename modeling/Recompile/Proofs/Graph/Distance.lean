import Mathlib.Order.Bounds.Basic
import Recompile.Proofs.Graph.Views

/-!
# The rounds of a search go by distance

The classes that a search starts round `k` from are those at distance `k` from the known seeds, the
length of the shortest path through live classes, and each of them is there once. So no class is
expanded twice, however many cycles there are, and the search ends by itself after at most as many
rounds as there are classes.

`Below` counts the steps from the start by numbers of classes; here they are the lengths of paths of
names, in the plain set of pairs that a history leaves.
-/

namespace Recompile.Graph

/-- A path of the given number of steps. -/
inductive Steps {α : Type} (step : α → α → Prop) (a : α) : Nat → α → Prop
  | here : Steps step a 0 a
  | next {k : Nat} {b c : α} : Steps step a k b → step b c → Steps step a (k + 1) c

theorem Steps.lift {α β : Type} {step : α → α → Prop} {step' : β → β → Prop} (f : α → β)
    (hstep : ∀ {a b}, step a b → step' (f a) (f b)) {a b : α} {k : Nat} (h : Steps step a k b) :
    Steps step' (f a) k (f b) := by
  induction h with
  | here => exact .here
  | next _ hlast ih => exact .next ih (hstep hlast)

theorem below_iff_exists_steps {step : Nat → Nat → Prop} {start : Nat → Prop} {k i : Nat} :
    Below step start k i ↔ ∃ l < k, ∃ s, start s ∧ Steps step s l i := by
  constructor
  · intro h
    induction k generalizing i with
    | zero => exact h.elim
    | succ k ih =>
      obtain hstart | ⟨j, hj, hstep⟩ := h
      · exact ⟨0, k.succ_pos, i, hstart, .here⟩
      · obtain ⟨l, hl, s, hs, hsteps⟩ := ih hj
        exact ⟨l + 1, Nat.succ_lt_succ hl, s, hs, hsteps.next hstep⟩
  · rintro ⟨l, hl, s, hs, hsteps⟩
    refine Below.mono hl ?_
    clear hl
    induction hsteps with
    | here => exact .inl hs
    | next _ hstep ih => exact .inr ⟨_, ih, hstep⟩

/-- The least number of a set is the one at which the set begins. -/
theorem isLeast_iff_begins {lengths : Set Nat} {k : Nat} :
    IsLeast lengths k ↔ (∃ l < k + 1, l ∈ lengths) ∧ ¬∃ l < k, l ∈ lengths := by
  constructor
  · rintro ⟨hmem, hleast⟩
    refine ⟨⟨k, k.lt_succ_self, hmem⟩, ?_⟩
    rintro ⟨l, hl, hlengths⟩
    exact Nat.not_le_of_lt hl (hleast hlengths)
  · rintro ⟨⟨l, hl, hmem⟩, hnone⟩
    have hleast : k ∈ lowerBounds lengths := fun m hm =>
      Nat.le_of_not_lt fun hlt => hnone ⟨m, hlt, hm⟩
    obtain rfl : l = k := Nat.le_antisymm (Nat.le_of_lt_succ hl) (hleast hmem)
    exact ⟨hmem, hleast⟩

section Search

variable {g : Graph} {pairs : Finset (String × String)}

/-- The classes that a round starts from. -/
def frontier (g : Graph) (seeds : List String) (live : String → Bool) (k : Nat) : List String :=
  (g.roundAt seeds live k).found.map g.nameOf

/-- The lengths of the paths that lead to a class from a seed that the graph knows, through live
classes. The seed itself need not be live. -/
def pathLengths (g : Graph) (pairs : Finset (String × String)) (seeds : List String)
    (live : String → Bool) (c : String) : Set Nat :=
  {k | ∃ seed ∈ seeds, (g.lookup seed).isSome ∧ Steps (LiveEdge pairs live) seed k c}

variable {seeds : List String} {live : String → Bool} {i k : Nat}

/-- A path of names that starts at a known class is a path of numbers. -/
theorem Refines.exists_steps (r : g.Refines pairs) {seed c : String} {s : Nat}
    (hs : g.lookup seed = some s) (h : Steps (LiveEdge pairs live) seed k c) :
    ∃ i, g.lookup c = some i ∧ Steps (g.LiveLink live) s k i := by
  induction h with
  | here => exact ⟨s, hs, .here⟩
  | @next k b c _ hedge ih =>
    obtain ⟨i, hb, hsteps⟩ := ih
    obtain ⟨i', j, hb', hc, hlink⟩ := r.mem_pairs_iff.1 hedge.1
    obtain rfl : i = i' := Option.some.inj (hb.symm.trans hb')
    exact ⟨j, hc, hsteps.next ⟨hlink, by rw [r.sound.nameOf_of_lookup hc]; exact hedge.2⟩⟩

theorem Refines.mem_pathLengths_iff (r : g.Refines pairs) (hi : i < g.nodes.size) :
    k ∈ g.pathLengths pairs seeds live (g.nameOf i) ↔
      ∃ s, g.SeedId seeds s ∧ Steps (g.LiveLink live) s k i := by
  constructor
  · rintro ⟨seed, hseed, hknown, hsteps⟩
    obtain ⟨s, hs⟩ := Option.isSome_iff_exists.1 hknown
    obtain ⟨j, hj, hlinks⟩ := r.exists_steps hs hsteps
    obtain rfl : i = j := Option.some.inj ((r.sound.lookup_nameOf hi).symm.trans hj)
    exact ⟨s, ⟨seed, hseed, hs⟩, hlinks⟩
  · rintro ⟨s, ⟨seed, hseed, hs⟩, hlinks⟩
    refine ⟨seed, hseed, Option.isSome_of_eq_some hs, ?_⟩
    rw [← r.sound.nameOf_of_lookup hs]
    exact hlinks.lift g.nameOf r.liveEdge_nameOf

/-- What a round has found are the numbers of the classes at its distance. -/
theorem Refines.mem_found_iff (r : g.Refines pairs) :
    i ∈ (g.roundAt seeds live k).found ↔
      i < g.nodes.size ∧ IsLeast (g.pathLengths pairs seeds live (g.nameOf i)) k := by
  rw [(g.covers_roundAt seeds live k).mem_found, isLeast_iff_begins]
  constructor
  · intro h
    have hi := h.1.lt_size seeds live r.sound
    simpa only [r.mem_pathLengths_iff hi, ← below_iff_exists_steps, hi, true_and] using h
  · rintro ⟨hi, h⟩
    simpa only [r.mem_pathLengths_iff hi, ← below_iff_exists_steps] using h

theorem Refines.mem_frontier_iff (r : g.Refines pairs) {c : String} :
    c ∈ g.frontier seeds live k ↔
      (g.lookup c).isSome ∧ IsLeast (g.pathLengths pairs seeds live c) k := by
  simp only [frontier, List.mem_map, r.mem_found_iff, Option.isSome_iff_exists]
  constructor
  · rintro ⟨i, ⟨hi, hleast⟩, rfl⟩
    exact ⟨⟨i, r.sound.lookup_nameOf hi⟩, hleast⟩
  · rintro ⟨⟨i, hc⟩, hleast⟩
    obtain rfl := r.sound.nameOf_of_lookup hc
    exact ⟨i, ⟨r.sound.lookup_lt hc, hleast⟩, rfl⟩

theorem Refines.nodup_frontier (r : g.Refines pairs) : (g.frontier seeds live k).Nodup :=
  (g.covers_roundAt seeds live k).nodup_found.map_on fun _ hi _ hj =>
    r.sound.nameOf_inj (r.mem_found_iff.1 hi).1 (r.mem_found_iff.1 hj).1

/-- No class is on two frontiers, since it has one distance. -/
theorem Refines.nodup_frontiers (r : g.Refines pairs) (n : Nat) :
    ((List.range n).flatMap (g.frontier seeds live)).Nodup := by
  refine List.nodup_flatMap.2 ⟨fun k _ => r.nodup_frontier, ?_⟩
  refine (List.nodup_range (n := n)).imp fun {k l} hne c hk hl => hne ?_
  exact (r.mem_frontier_iff.1 hk).2.unique (r.mem_frontier_iff.1 hl).2

theorem Ends.rounds_names {n : Nat} (e : g.Ends seeds live n) :
    (g.rounds seeds live).map (List.map g.nameOf) = (List.range n).map (g.frontier seeds live) := by
  rw [e.rounds_eq, List.map_map]
  rfl

end Search

/-- The frontier at the start of round `k` is the set of the known classes at distance `k`, without
repetition. Each class is expanded in one round at most, and the loop ends by itself after at most as
many rounds as there are classes. The order in which the neighbours of a class are listed does not
matter. -/
theorem frontier_by_distance {history : List Change} {g : Graph}
    (reordered : Reordered (after history) g) (seeds : List String) (live : String → Bool) :
    (∀ k c, c ∈ g.frontier seeds live k ↔
      (g.lookup c).isSome ∧ IsLeast (g.pathLengths (pairsAfter history) seeds live c) k) ∧
    (∀ k, (g.frontier seeds live k).Nodup) ∧
    ∃ n ≤ g.nodes.size,
      (∀ k < n, g.frontier seeds live k ≠ []) ∧ g.frontier seeds live n = [] ∧
      (g.rounds seeds live).map (List.map g.nameOf) = (List.range n).map (g.frontier seeds live) ∧
      ((List.range n).flatMap (g.frontier seeds live)).Nodup := by
  have r := reordered.refines (refines_after history)
  obtain ⟨n, e⟩ := r.sound.exists_ends seeds live
  refine ⟨fun k c => r.mem_frontier_iff, fun k => r.nodup_frontier, n, e.le_size, fun k hk => ?_, ?_,
    e.rounds_names, r.nodup_frontiers n⟩
  · rw [frontier, ne_eq, List.map_eq_nil_iff]
    exact e.found_ne_nil k hk
  · rw [frontier, e.found_eq_nil, List.map_nil]

/-- The same graph with the neighbours of every class listed the other way round. -/
def reversed (g : Graph) : Graph :=
  { g with nodes := g.nodes.map fun node =>
    ⟨node.name, node.dependents.reverse, node.uses.reverse⟩ }

theorem reordered_reversed (g : Graph) : Reordered g g.reversed where
  ids := rfl
  names i := by
    rw [reversed, Array.getElem?_map, Option.map_map]
    rfl
  dependents i := by
    simp only [reversed, dependentIds, Array.getElem?_map]
    cases g.nodes[i]? with
    | none => exact .nil
    | some node => exact node.dependents.reverse_perm
  uses i := by
    simp only [reversed, usedIds, Array.getElem?_map]
    cases g.nodes[i]? with
    | none => exact .nil
    | some node => exact node.uses.reverse_perm

/-- Two ways of different length to one class, and a way back. -/
def detour : List Change :=
  [.addEdge "A" "B", .addEdge "B" "C", .addEdge "C" "D", .addEdge "A" "C", .addEdge "D" "A"]

/-- A class is found by the shortest of the ways to it. A seed that is not in the graph starts none,
and one that is there starts its ways even if it is not live. -/
theorem frontier_by_distance_detour :
    Reordered (after detour) (after detour).reversed ∧
      (List.range 4).map ((after detour).reversed.frontier ["E", "A"] (· != "A")) =
        [["A"], ["C", "B"], ["D"], []] ∧
      IsLeast ((after detour).reversed.pathLengths (pairsAfter detour) ["E", "A"] (· != "A") "D")
        2 := by
  have reordered := reordered_reversed (after detour)
  have hfound : "D" ∈ (after detour).reversed.frontier ["E", "A"] (· != "A") 2 := by
    decide +kernel
  exact ⟨reordered, by decide +kernel,
    (((frontier_by_distance reordered ["E", "A"] (· != "A")).1 2 "D").1 hfound).2⟩

end Recompile.Graph
