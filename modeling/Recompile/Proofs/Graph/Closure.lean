import Mathlib.Data.Fintype.Pigeonhole
import Mathlib.Logic.Relation
import Recompile.Graph.Closure
import Recompile.Proofs.Graph.History

/-!
# The closure is live reachability

`Below step start k` holds of what is reached from the start in fewer than `k` steps. After round
`k` the search has visited what lies below `k + 1`, and it has found there what does not lie below
`k` (`Covers`). A round that finds nothing closes the search, and since every number is found in one
round at most, there is such a round among the first as many as there are classes.
-/

namespace Recompile.Graph

/-- What is reached from the start in fewer than the given number of steps. -/
def Below (step : Nat → Nat → Prop) (start : Nat → Prop) : Nat → Nat → Prop
  | 0, _ => False
  | k + 1, i => start i ∨ ∃ j, Below step start k j ∧ step j i

namespace Below

variable {step : Nat → Nat → Prop} {start : Nat → Prop} {i j k l : Nat}

theorem succ (h : Below step start k i) : Below step start (k + 1) i := by
  induction k generalizing i with
  | zero => exact h.elim
  | succ k ih =>
    obtain h | ⟨j, hj, hstep⟩ := h
    · exact .inl h
    · exact .inr ⟨j, ih hj, hstep⟩

theorem mono (hle : k ≤ l) (h : Below step start k i) : Below step start l i := by
  induction hle with
  | refl => exact h
  | step _ ih => exact ih.succ

/-- Where a round adds nothing, everything that can be reached has been. -/
theorem iff_reachable (hclosed : ∀ i, Below step start (k + 1) i → Below step start k i) :
    Below step start k i ↔ ∃ s, start s ∧ Relation.ReflTransGen step s i := by
  constructor
  · intro h
    clear hclosed
    induction k generalizing i with
    | zero => exact h.elim
    | succ k ih =>
      obtain h | ⟨j, hj, hstep⟩ := h
      · exact ⟨i, h, .refl⟩
      · obtain ⟨s, hs, hreach⟩ := ih hj
        exact ⟨s, hs, hreach.tail hstep⟩
  · rintro ⟨s, hs, hreach⟩
    induction hreach with
    | refl => exact hclosed s (.inl hs)
    | tail _ hstep ih => exact hclosed _ (.inr ⟨_, ih, hstep⟩)

end Below

/-! ## One round -/

namespace Round

variable (r : Round) (ids : List Nat) (i : Nat)

theorem mem_visited_foldl_visit :
    i ∈ (ids.foldl visit r).visited ↔ i ∈ ids ∨ i ∈ r.visited := by
  induction ids generalizing r with
  | nil => simp
  | cons id rest ih =>
    rw [List.foldl_cons, ih, visit]
    split
    · next hid =>
      rw [List.mem_cons, or_assoc, or_iff_right_of_imp (a := i = id)]
      rintro rfl
      exact .inr hid
    · simp only [Std.ExtTreeSet.mem_insert, Std.LawfulEqCmp.compare_eq_iff_eq, List.mem_cons]
      tauto

theorem mem_found_foldl_visit :
    i ∈ (ids.foldl visit r).found ↔ (i ∈ ids ∧ i ∉ r.visited) ∨ i ∈ r.found := by
  induction ids generalizing r with
  | nil => simp
  | cons id rest ih =>
    rw [List.foldl_cons, ih, visit]
    split
    · next hid =>
      rw [List.mem_cons]
      refine or_congr_left (and_congr_left fun hi => ?_)
      rw [or_iff_right]
      rintro rfl
      exact hi hid
    · next hid =>
      simp only [Std.ExtTreeSet.mem_insert, Std.LawfulEqCmp.compare_eq_iff_eq, List.mem_cons]
      by_cases hi : i = id
      · subst hi
        simp [hid]
      · simp [hi, Ne.symm hi]

theorem nodup_found_foldl_visit (hfound : r.found.Nodup) (hsub : ∀ i ∈ r.found, i ∈ r.visited) :
    (ids.foldl visit r).found.Nodup := by
  induction ids generalizing r with
  | nil => exact hfound
  | cons id rest ih =>
    rw [List.foldl_cons, visit]
    split
    · exact ih r hfound hsub
    · next hid =>
      refine ih _ (List.nodup_cons.2 ⟨fun hmem => hid (hsub id hmem), hfound⟩) fun i hi => ?_
      rw [Std.ExtTreeSet.mem_insert]
      obtain rfl | hi := List.mem_cons.1 hi
      · exact .inl Std.ReflCmp.compare_self
      · exact .inr (hsub i hi)

end Round

section Search

variable (g : Graph) (seeds : List String) (live : String → Bool)

/-- A stored link to a live class. -/
def LiveLink (i j : Nat) : Prop := j ∈ g.dependentIds i ∧ live (g.nameOf j) = true

/-- The number of a seed. -/
def SeedId (i : Nat) : Prop := ∃ seed ∈ seeds, g.lookup seed = some i

/-- The rounds without a limit. -/
def roundAt (k : Nat) : Round := (g.nextRound live)^[k] (g.firstRound seeds)

theorem roundAt_succ (k : Nat) :
    g.roundAt seeds live (k + 1) = g.nextRound live (g.roundAt seeds live k) :=
  Function.iterate_succ_apply' _ _ _

/-- What a round has visited and found, in numbers of steps from the start. -/
structure Covers (k : Nat) (r : Round) : Prop where
  mem_visited : ∀ i, i ∈ r.visited ↔ Below (g.LiveLink live) (g.SeedId seeds) (k + 1) i
  mem_found : ∀ i, i ∈ r.found ↔
    Below (g.LiveLink live) (g.SeedId seeds) (k + 1) i ∧
      ¬ Below (g.LiveLink live) (g.SeedId seeds) k i
  nodup_found : r.found.Nodup

theorem covers_firstRound : g.Covers seeds live 0 (g.firstRound seeds) where
  mem_visited i := by
    simp [firstRound, Round.mem_visited_foldl_visit, Below, SeedId]
  mem_found i := by
    simp [firstRound, Round.mem_found_foldl_visit, Below, SeedId]
  nodup_found := Round.nodup_found_foldl_visit _ _ List.nodup_nil (by simp)

variable {g seeds live}

theorem mem_neighbours_live (ids : List Nat) (i : Nat) :
    i ∈ (g.neighbours ids).filter (fun id => live (g.nameOf id)) ↔
      ∃ j ∈ ids, g.LiveLink live j i := by
  simp only [neighbours, List.mem_filter, List.mem_flatMap, LiveLink]
  tauto

/-- A round goes one step further. The links of what was found before the last round lead to what is
visited already, so it is enough to follow those of the last round. -/
theorem Covers.nextRound {k : Nat} {r : Round} (c : g.Covers seeds live k r) :
    g.Covers seeds live (k + 1) (g.nextRound live r) := by
  have hnew : ∀ i, (∃ j ∈ r.found, g.LiveLink live j i) ∨ i ∈ r.visited ↔
      Below (g.LiveLink live) (g.SeedId seeds) (k + 2) i := by
    intro i
    constructor
    · rintro (⟨j, hj, hlink⟩ | hi)
      · exact .inr ⟨j, ((c.mem_found j).1 hj).1, hlink⟩
      · exact ((c.mem_visited i).1 hi).succ
    · rintro (hstart | ⟨j, hj, hlink⟩)
      · exact .inr ((c.mem_visited i).2 (.inl hstart))
      · by_cases hearlier : Below (g.LiveLink live) (g.SeedId seeds) k j
        · exact .inr ((c.mem_visited i).2 (.inr ⟨j, hearlier, hlink⟩))
        · exact .inl ⟨j, (c.mem_found j).2 ⟨hj, hearlier⟩, hlink⟩
  refine ⟨fun i => ?_, fun i => ?_, Round.nodup_found_foldl_visit _ _ List.nodup_nil (by simp)⟩
  · rw [Graph.nextRound, Round.mem_visited_foldl_visit, mem_neighbours_live, hnew]
  · rw [Graph.nextRound, Round.mem_found_foldl_visit, mem_neighbours_live, ← hnew, ← c.mem_visited]
    by_cases hi : i ∈ r.visited <;> simp [hi]

variable (g seeds live)

theorem covers_roundAt (k : Nat) : g.Covers seeds live k (g.roundAt seeds live k) := by
  induction k with
  | zero => exact g.covers_firstRound seeds live
  | succ k ih =>
    rw [roundAt_succ]
    exact ih.nextRound

/-! ## The end of the search -/

variable {g} in
theorem Below.lt_size (s : g.Sound) {k i : Nat}
    (h : Below (g.LiveLink live) (g.SeedId seeds) k i) : i < g.nodes.size := by
  cases k with
  | zero => exact h.elim
  | succ k =>
    obtain ⟨seed, -, hseed⟩ | ⟨j, -, hlink⟩ := h
    · exact s.lookup_lt hseed
    · exact (s.lt_of_mem_dependentIds hlink.1).2

variable {g} in
/-- Among the first rounds there is one that finds nothing: otherwise there would be more numbers
found than classes. -/
theorem Sound.exists_found_eq_nil (s : g.Sound) :
    ∃ k ≤ g.nodes.size, (g.roundAt seeds live k).found = [] := by
  by_contra! hall
  have hhead : ∀ k : Fin (g.nodes.size + 1), ∃ i, i ∈ (g.roundAt seeds live k).found := fun k =>
    List.exists_mem_of_ne_nil _ (hall k (Nat.lt_succ_iff.1 k.isLt))
  choose head hmem using hhead
  have hbelow := fun k : Fin (g.nodes.size + 1) =>
    ((g.covers_roundAt seeds live k).mem_found _).1 (hmem k)
  obtain ⟨a, b, hne, heq⟩ := Fintype.exists_ne_map_eq_of_card_lt
    (fun k => (⟨head k, (hbelow k).1.lt_size seeds live s⟩ : Fin g.nodes.size)) (by simp)
  have hsame : head a = head b := congrArg Fin.val heq
  obtain hlt | hlt := Nat.lt_or_gt_of_ne fun h => hne (Fin.ext h)
  · exact (hbelow b).2 (hsame ▸ (hbelow a).1.mono hlt)
  · exact (hbelow a).2 (hsame ▸ (hbelow b).1.mono hlt)

/-- The limit is without effect when a round within it finds nothing. -/
theorem roundsFrom_eq_map_range {limit k : Nat} (r : Round) (hk : k ≤ limit)
    (hbefore : ∀ i < k, ((g.nextRound live)^[i] r).found ≠ [])
    (hend : ((g.nextRound live)^[k] r).found = []) :
    g.roundsFrom live limit r = (List.range k).map fun i => ((g.nextRound live)^[i] r).found := by
  induction k generalizing limit r with
  | zero =>
    have hr : r.found = [] := hend
    cases limit <;> simp [roundsFrom, hr]
  | succ k ih =>
    obtain ⟨limit, rfl⟩ : ∃ l, limit = l + 1 := ⟨limit - 1, by omega⟩
    have hr : r.found ≠ [] := hbefore 0 (Nat.succ_pos k)
    have hrest := ih (g.nextRound live r) (Nat.le_of_succ_le_succ hk)
      (fun i hi => hbefore (i + 1) (Nat.succ_lt_succ hi)) hend
    rw [roundsFrom, if_neg (by simpa using hr), hrest, List.range_succ_eq_map, List.map_cons,
      List.map_map]
    rfl

/-- The search ends by itself: its rounds are those that find something, and after them one finds
nothing. -/
structure Ends (k : Nat) : Prop where
  le_size : k ≤ g.nodes.size
  found_ne_nil : ∀ i < k, (g.roundAt seeds live i).found ≠ []
  found_eq_nil : (g.roundAt seeds live k).found = []
  rounds_eq : g.rounds seeds live = (List.range k).map fun i => (g.roundAt seeds live i).found

variable {g} in
theorem Sound.exists_ends (s : g.Sound) : ∃ k, g.Ends seeds live k := by
  classical
  have hex := s.exists_found_eq_nil seeds live
  obtain ⟨hle, hend⟩ := Nat.find_spec hex
  have hbefore : ∀ i < Nat.find hex, (g.roundAt seeds live i).found ≠ [] := fun i hi hnil =>
    Nat.find_min hex hi ⟨hi.le.trans hle, hnil⟩
  exact ⟨_, hle, hbefore, hend, g.roundsFrom_eq_map_range live _ hle hbefore hend⟩

variable {g seeds live}

theorem Ends.mem_flatten_rounds {k : Nat} (e : g.Ends seeds live k) (i : Nat) :
    i ∈ (g.rounds seeds live).flatten ↔
      ∃ s, g.SeedId seeds s ∧ Relation.ReflTransGen (g.LiveLink live) s i := by
  have hfound := fun k => (g.covers_roundAt seeds live k).mem_found
  have hclosed : ∀ i, Below (g.LiveLink live) (g.SeedId seeds) (k + 1) i →
      Below (g.LiveLink live) (g.SeedId seeds) k i := by
    intro i hi
    by_contra hnot
    have hmem := (hfound k i).2 ⟨hi, hnot⟩
    rw [e.found_eq_nil] at hmem
    exact List.not_mem_nil hmem
  rw [← Below.iff_reachable hclosed, e.rounds_eq]
  simp only [List.mem_flatten, List.mem_map, List.mem_range, exists_exists_and_eq_and]
  constructor
  · rintro ⟨j, hj, hi⟩
    exact ((hfound j i).1 hi).1.mono hj
  · clear hclosed e
    intro hi
    induction k with
    | zero => exact hi.elim
    | succ k ih =>
      by_cases hearlier : Below (g.LiveLink live) (g.SeedId seeds) k i
      · obtain ⟨j, hj, hmem⟩ := ih hearlier
        exact ⟨j, hj.trans k.lt_succ_self, hmem⟩
      · exact ⟨k, k.lt_succ_self, (hfound k i).2 ⟨hi, hearlier⟩⟩

end Search

/-! ## From numbers to names -/

/-- An edge to a live class. -/
def LiveEdge (pairs : Finset (String × String)) (live : String → Bool) (a b : String) : Prop :=
  (a, b) ∈ pairs ∧ live b = true

namespace Refines

variable {g : Graph} {pairs : Finset (String × String)} {seeds : List String}
  {live : String → Bool}

theorem liveEdge_nameOf (r : g.Refines pairs) {i j : Nat} (h : g.LiveLink live i j) :
    LiveEdge pairs live (g.nameOf i) (g.nameOf j) := by
  obtain ⟨hi, hj⟩ := r.sound.lt_of_mem_dependentIds h.1
  exact ⟨r.mem_pairs_iff.2 ⟨i, j, r.sound.lookup_nameOf hi, r.sound.lookup_nameOf hj, h.1⟩, h.2⟩

/-- A path of names that starts at a numbered class is a path of numbers. -/
theorem exists_links_of_path (r : g.Refines pairs) {seed c : String} (hne : seed ≠ c)
    (h : Relation.ReflTransGen (LiveEdge pairs live) seed c) :
    ∃ s i, g.lookup seed = some s ∧ g.lookup c = some i ∧
      Relation.ReflTransGen (g.LiveLink live) s i := by
  induction h with
  | refl => exact absurd rfl hne
  | @tail b c hpath hedge ih =>
    obtain ⟨i, j, hb, hc, hlink⟩ := r.mem_pairs_iff.1 hedge.1
    have hlive : g.LiveLink live i j := ⟨hlink, by rw [r.sound.nameOf_of_lookup hc]; exact hedge.2⟩
    by_cases hseed : seed = b
    · subst hseed
      exact ⟨i, j, hb, hc, .single hlive⟩
    · obtain ⟨s, i', hs, hb', hreach⟩ := ih hseed
      obtain rfl : i' = i := Option.some.inj (hb'.symm.trans hb)
      exact ⟨s, j, hs, hc, hreach.tail hlive⟩

theorem mem_closure_iff (r : g.Refines pairs) {c : String} :
    c ∈ g.closure seeds live ↔
      ∃ seed ∈ seeds, Relation.ReflTransGen (LiveEdge pairs live) seed c := by
  obtain ⟨k, e⟩ := r.sound.exists_ends seeds live
  have hmem : c ∈ g.closure seeds live ↔
      c ∈ seeds ∨ ∃ i ∈ (g.rounds seeds live).flatten, g.nameOf i = c := by
    rw [closure, Std.ExtTreeSet.mem_ofList, List.contains_iff_mem, List.mem_append, List.mem_map]
  rw [hmem]
  constructor
  · rintro (hc | ⟨i, hi, rfl⟩)
    · exact ⟨c, hc, .refl⟩
    · obtain ⟨s, ⟨seed, hseed, hs⟩, hreach⟩ := (e.mem_flatten_rounds i).1 hi
      refine ⟨seed, hseed, ?_⟩
      rw [← r.sound.nameOf_of_lookup hs]
      exact hreach.lift g.nameOf fun _ _ => r.liveEdge_nameOf
  · rintro ⟨seed, hseed, hpath⟩
    by_cases hne : seed = c
    · exact .inl (hne ▸ hseed)
    · obtain ⟨s, i, hs, hi, hreach⟩ := r.exists_links_of_path hne hpath
      exact .inr ⟨i, (e.mem_flatten_rounds i).2 ⟨s, ⟨seed, hseed, hs⟩, hreach⟩,
        r.sound.nameOf_of_lookup hi⟩

/-- The closure depends on the pairs and on the set of seeds only. -/
theorem closure_congr {h : Graph} (r : g.Refines pairs) (r' : h.Refines pairs)
    {seeds' : List String} (hseeds : ∀ seed, seed ∈ seeds' ↔ seed ∈ seeds) (live : String → Bool) :
    h.closure seeds' live = g.closure seeds live := by
  ext c
  rw [r.mem_closure_iff, r'.mem_closure_iff]
  simp only [hseeds]

end Refines

/-- The same graph with the neighbours of each class listed in another order. -/
structure Reordered (g h : Graph) : Prop extends SameNames g h where
  dependents : ∀ i, (h.dependentIds i).Perm (g.dependentIds i)
  uses : ∀ i, (h.usedIds i).Perm (g.usedIds i)

theorem Reordered.refines {g h : Graph} (o : Reordered g h) {pairs : Finset (String × String)}
    (r : g.Refines pairs) : h.Refines pairs := by
  have s : h.Sound := o.sound r.sound
    (fun {i j} => by rw [(o.dependents i).mem_iff, (o.uses j).mem_iff, r.sound.mirrored])
    fun i => (o.dependents i).nodup_iff.2 (r.sound.nodup_dependents i)
  refine ⟨s, fun (a, b) => ?_⟩
  rw [s.mem_edges_iff, r.mem_pairs_iff]
  simp only [o.lookup, (o.dependents _).mem_iff]

/-- The closure is exact: a class is in it if and only if a path of edges through live classes leads
to it from a seed. Its rounds end by themselves, and neither the order and the repetition of the
seeds nor the order of the neighbours matters. -/
theorem mem_closure_after_iff (history : List Change) (seeds : List String)
    (live : String → Bool) :
    (∀ c, c ∈ (after history).closure seeds live ↔
      ∃ seed ∈ seeds, Relation.ReflTransGen (LiveEdge (pairsAfter history) live) seed c) ∧
    (∃ k, (after history).Ends seeds live k) ∧
    ∀ (h : Graph) (seeds' : List String), Reordered (after history) h →
      (∀ seed, seed ∈ seeds' ↔ seed ∈ seeds) →
      h.closure seeds' live = (after history).closure seeds live := by
  have r := refines_after history
  refine ⟨fun c => r.mem_closure_iff, r.sound.exists_ends seeds live, ?_⟩
  intro h seeds' hreordered hseeds
  exact r.closure_congr (hreordered.refines r) hseeds live

end Recompile.Graph
