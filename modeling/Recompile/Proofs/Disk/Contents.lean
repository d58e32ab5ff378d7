import Mathlib.Data.List.Basic
import Mathlib.Data.List.Nodup
import Mathlib.Data.List.Infix
import Recompile.Disk.Basic

/-!
# What stands where after an operation on a disk

A disk is read through `find?`. Putting, erasing and clearing are described by what `find?` gives
afterwards. On a tree every entry stands in a directory, so that nothing stands below a place where
there is nothing.
-/

namespace Recompile

namespace Location

theorem covers_append (top rest : Location) : top.covers (top ++ rest) = true :=
  covers_iff.2 ⟨rest, rfl⟩

@[simp] theorem covers_self (l : Location) : l.covers l = true := covers_iff.2 ⟨[], by simp⟩

@[simp] theorem covers_nil_iff {top : Location} : top.covers [] = true ↔ top = [] := by
  simp [covers]

theorem covers_trans {a b c : Location} (hab : a.covers b = true) (hbc : b.covers c = true) :
    a.covers c = true := by
  obtain ⟨r, rfl⟩ := covers_iff.1 hab
  obtain ⟨s, rfl⟩ := covers_iff.1 hbc
  exact covers_iff.2 ⟨r ++ s, by simp⟩

theorem covers_append_of_covers {top l : Location} (h : top.covers l = true) (rest : Location) :
    top.covers (l ++ rest) = true :=
  covers_trans h (covers_append l rest)

/-- What covers an entry of a directory is that entry or covers the directory. -/
theorem covers_concat_iff {top l : Location} {name : String} :
    top.covers (l ++ [name]) = true ↔ top = l ++ [name] ∨ top.covers l = true := by
  simp only [covers, List.isPrefixOf_iff_prefix]
  constructor
  · intro h
    rcases List.prefix_concat_iff.1 h with rfl | h
    · exact .inl rfl
    · exact .inr h
  · rintro (rfl | h)
    · exact List.prefix_refl _
    · exact h.trans (List.prefix_append _ _)

theorem covers_antisymm {a b : Location} (hab : a.covers b = true) (hba : b.covers a = true) :
    a = b := by
  simp only [covers, List.isPrefixOf_iff_prefix] at hab hba
  exact hab.eq_of_length (Nat.le_antisymm hab.length_le hba.length_le)

/-- Two places above one place lie above one another. -/
theorem covers_total {a b c : Location} (ha : a.covers c = true) (hb : b.covers c = true) :
    a.covers b = true ∨ b.covers a = true := by
  simp only [covers, List.isPrefixOf_iff_prefix] at *
  exact List.prefix_or_prefix_of_prefix ha hb

theorem not_covers_parent (l : Location) (name : String) : covers (l ++ [name]) l = false := by
  rw [Bool.eq_false_iff]
  intro h
  have := (List.isPrefixOf_iff_prefix.1 h).length_le
  simp only [List.length_append, List.length_singleton] at this
  omega

/-- An entry of a directory covers nothing that is above it. -/
theorem not_covers_above {top l : Location} (h : top.covers l = true) (name : String) :
    covers (l ++ [name]) top = false := by
  rw [Bool.eq_false_iff]
  intro hcovers
  have hself := covers_trans hcovers h
  rw [not_covers_parent] at hself
  cases hself

/-- Two names in one directory. -/
theorem covers_sibling {l : Location} {a b : String} (hab : a ≠ b) :
    covers (l ++ [a]) (l ++ [b]) = false := by
  rw [Bool.eq_false_iff]
  intro h
  obtain ⟨rest, hrest⟩ := covers_iff.1 h
  rw [List.append_assoc] at hrest
  have heq := List.append_cancel_left hrest
  simp only [List.cons_append, List.nil_append, List.cons.injEq] at heq
  exact hab heq.1.symm

/-- Neither place lies in or is the other. -/
def Apart (a b : Location) : Prop := a.covers b = false ∧ b.covers a = false

instance (a b : Location) : Decidable (Apart a b) :=
  inferInstanceAs (Decidable (a.covers b = false ∧ b.covers a = false))

theorem Apart.symm {a b : Location} (h : Apart a b) : Apart b a := ⟨h.2, h.1⟩

theorem Apart.not_covers {a b l : Location} (h : Apart a b) (ha : a.covers l = true) :
    b.covers l = false := by
  by_contra hb
  rw [Bool.not_eq_false] at hb
  rcases covers_total ha hb with hab | hba
  · simp [h.1] at hab
  · simp [h.2] at hba

theorem Apart.not_covers_above {a l top : Location} {name : String} (h : Apart a (l ++ [name]))
    (htop : top.covers l = true) : a.covers top = false := by
  rw [Bool.eq_false_iff]
  intro hcovers
  have hover := covers_append_of_covers (covers_trans hcovers htop) [name]
  rw [h.1] at hover
  cases hover

theorem Apart.append {a b : Location} (h : Apart a b) (rest : List String) : Apart a (b ++ rest) := by
  refine ⟨?_, ?_⟩
  · rw [Bool.eq_false_iff]
    intro hcovers
    rcases covers_total hcovers (covers_append b rest) with hab | hba
    · rw [h.1] at hab
      cases hab
    · rw [h.2] at hba
      cases hba
  · rw [Bool.eq_false_iff]
    intro hcovers
    have hba := covers_trans (covers_append b rest) hcovers
    rw [h.2] at hba
    cases hba

end Location

namespace Disk

variable (d : Disk)

@[simp] theorem find?_nil : d.find? [] = some .directory := by simp [find?]

theorem find?_of_ne_nil {l : Location} (h : l ≠ []) : d.find? l = d.entries.lookup l := by
  simp [find?, h]

theorem lookup_eq_some_iff {l : Location} {e : Entry} :
    d.entries.lookup l = some e ↔ (l, e) ∈ d.entries := by
  have nodup := d.nodup
  generalize d.entries = entries at nodup
  induction entries with
  | nil => simp
  | cons head rest ih =>
    obtain ⟨k, v⟩ := head
    simp only [List.map_cons, List.nodup_cons] at nodup
    rw [List.lookup_cons]
    by_cases hk : l = k
    · subst hk
      have hrest : (l, e) ∉ rest := fun h => nodup.1 (List.mem_map_of_mem h)
      simp [hrest, eq_comm]
    · have hk' : (l == k) = false := by simpa using hk
      simp only [hk', List.mem_cons, Prod.mk.injEq, hk, false_and, false_or]
      exact ih nodup.2

theorem find?_eq_some_iff {l : Location} {e : Entry} (h : l ≠ []) :
    d.find? l = some e ↔ (l, e) ∈ d.entries := by
  rw [d.find?_of_ne_nil h, lookup_eq_some_iff]

theorem mem_entries_put {l m : Location} {entry e : Entry} :
    (m, e) ∈ (d.put l entry).entries ↔ (m = l ∧ e = entry) ∨ (m ≠ l ∧ (m, e) ∈ d.entries) := by
  unfold put
  split
  · next h =>
    simp only [List.mem_map]
    constructor
    · rintro ⟨⟨k, v⟩, hmem, heq⟩
      unfold replace at heq
      split at heq
      · cases heq
        exact .inl ⟨rfl, rfl⟩
      · next hk =>
        cases heq
        exact .inr ⟨hk, hmem⟩
    · rintro (⟨rfl, rfl⟩ | ⟨hne, hmem⟩)
      · obtain ⟨⟨k, v⟩, hmem, rfl⟩ := List.mem_map.1 h
        exact ⟨(k, v), hmem, by simp [replace]⟩
      · exact ⟨(m, e), hmem, by simp [replace, hne]⟩
  · next h =>
    simp only [List.mem_append, List.mem_singleton, Prod.mk.injEq]
    constructor
    · rintro (hmem | heq)
      · refine .inr ⟨?_, hmem⟩
        rintro rfl
        exact h (List.mem_map_of_mem hmem)
      · exact .inl heq
    · rintro (heq | ⟨-, hmem⟩)
      · exact .inr heq
      · exact .inl hmem

theorem find?_put {l : Location} (hl : l ≠ []) (entry : Entry) (m : Location) :
    (d.put l entry).find? m = if m = l then some entry else d.find? m := by
  by_cases hm : m = []
  · subst hm
    simp [Ne.symm hl]
  apply Option.ext
  intro e
  rw [find?_eq_some_iff _ hm, mem_entries_put]
  by_cases h : m = l
  · simp [h, eq_comm]
  · simp [h, d.find?_eq_some_iff hm]

theorem mem_entries_erase {l m : Location} {e : Entry} :
    (m, e) ∈ (d.erase l).entries ↔ (m, e) ∈ d.entries ∧ l.covers m = false := by
  simp [erase]

theorem find?_erase (l m : Location) :
    (d.erase l).find? m = if m ≠ [] ∧ l.covers m = true then none else d.find? m := by
  by_cases hm : m = []
  · simp [hm]
  apply Option.ext
  intro e
  rw [find?_eq_some_iff _ hm, mem_entries_erase]
  by_cases h : l.covers m = true
  · simp [hm, h]
  · simp [hm, h, d.find?_eq_some_iff hm]

theorem find?_clear (l m : Location) :
    (d.clear l).find? m = if l.covers m = true ∧ m ≠ l ∧ m ≠ [] then none else d.find? m := by
  by_cases hm : m = []
  · simp [hm]
  apply Option.ext
  intro e
  rw [find?_eq_some_iff _ hm]
  simp only [clear, List.mem_filter, Bool.not_eq_true', Bool.and_eq_false_iff, bne_eq_false_iff_eq]
  by_cases h : l.covers m = true
  · by_cases hml : m = l
    · simp [hml, ← d.find?_eq_some_iff (hml ▸ hm : l ≠ [])]
    · simp [hm, h, hml]
  · simp [h, d.find?_eq_some_iff hm]

theorem mem_entries_move {source target m : Location} {e : Entry} :
    (m, e) ∈ (d.move source target).entries ↔
      ∃ k, (k, e) ∈ d.entries ∧ target.covers k = false ∧ Location.moved source target k = m := by
  simp only [move, List.mem_map, Prod.mk.injEq, Prod.exists, mem_entries_erase]
  constructor
  · rintro ⟨k, e', ⟨hmem, hcovers⟩, hmoved, rfl⟩
    exact ⟨k, hmem, hcovers, hmoved⟩
  · rintro ⟨k, hmem, hcovers, hmoved⟩
    exact ⟨k, e, ⟨hmem, hcovers⟩, hmoved, rfl⟩

/-- After a move, what was below the source stands below the target. -/
theorem find?_move {source target : Location} (hsource : source ≠ []) (htarget : target ≠ [])
    (hst : source.covers target = false) (hts : target.covers source = false) (m : Location) :
    (d.move source target).find? m =
      if source.covers m = true then none
      else if target.covers m = true then d.find? (source ++ m.drop target.length)
      else d.find? m := by
  have hapart (rest : List String) : source.covers (target ++ rest) = false :=
    (Location.Apart.not_covers ⟨hts, hst⟩ (Location.covers_append target rest))
  have hapart' (rest : List String) : target.covers (source ++ rest) = false :=
    (Location.Apart.not_covers ⟨hst, hts⟩ (Location.covers_append source rest))
  by_cases hm : m = []
  · simp [hm, hsource, htarget]
  apply Option.ext
  intro e
  rw [find?_eq_some_iff _ hm, mem_entries_move]
  by_cases hsm : source.covers m = true
  · simp only [hsm, if_true, reduceCtorEq, iff_false, not_exists, not_and]
    intro k _ _ hmoved
    unfold Location.moved at hmoved
    split_ifs at hmoved with hk
    · rw [← hmoved, hapart] at hsm
      cases hsm
    · exact hk (hmoved ▸ hsm)
  rw [if_neg hsm]
  by_cases htm : target.covers m = true
  · rw [if_pos htm]
    obtain ⟨rest, rfl⟩ := Location.covers_iff.1 htm
    rw [List.drop_left, find?_eq_some_iff _ (by simp [hsource])]
    constructor
    · rintro ⟨k, hmem, hcovers, hmoved⟩
      unfold Location.moved at hmoved
      split_ifs at hmoved with hk
      · obtain ⟨more, rfl⟩ := Location.covers_iff.1 hk
        rw [List.drop_left] at hmoved
        rwa [← List.append_cancel_left hmoved]
      · rw [hmoved, htm] at hcovers
        cases hcovers
    · intro hmem
      exact ⟨_, hmem, hapart' rest, Location.moved_append source target rest⟩
  · rw [if_neg htm, d.find?_eq_some_iff hm]
    constructor
    · rintro ⟨k, hmem, hcovers, hmoved⟩
      unfold Location.moved at hmoved
      split_ifs at hmoved with hk
      · rw [← hmoved, Location.covers_append] at htm
        exact absurd rfl htm
      · rwa [← hmoved]
    · intro hmem
      exact ⟨m, hmem, by simpa using htm, by simp [Location.moved, hsm]⟩

@[simp] theorem erase_clear (l : Location) : (d.clear l).erase l = d.erase l := by
  simp only [erase, clear, List.filter_filter, Disk.mk.injEq]
  refine List.filter_congr fun e _ => ?_
  cases l.covers e.1 <;> simp

/-- Putting something at a place plays no part where only other places count. -/
theorem filter_put (counts : Location → Bool) {l : Location} (h : counts l = false)
    (entry : Entry) :
    (d.put l entry).entries.filter (fun e => counts e.1) = d.entries.filter fun e => counts e.1 := by
  unfold put
  split
  · rw [List.filter_map]
    have hcomp : ((fun e : Location × Entry => counts e.1) ∘ replace l entry) =
        fun e => counts e.1 := by
      funext e
      simp [replace_fst]
    rw [hcomp]
    refine (List.map_congr_left fun e he => ?_).trans (List.map_id _)
    have hcounts := (List.mem_filter.1 he).2
    unfold replace
    rw [if_neg]
    · rfl
    · intro heq
      simp [heq, h] at hcounts
  · simp [h]

/-- Putting something at or below a place plays no part once that place is erased. -/
theorem erase_put {top l : Location} (h : top.covers l = true) (entry : Entry) :
    (d.put l entry).erase top = d.erase top := by
  unfold erase
  simpa using d.filter_put (fun m => !top.covers m) (by simp [h]) entry

/-- Putting something below a place plays no part once that place is cleared. -/
theorem clear_put {top l : Location} (h : top.covers l = true) (hne : l ≠ top) (entry : Entry) :
    (d.put l entry).clear top = d.clear top := by
  unfold clear
  simpa using d.filter_put (fun m => !(top.covers m && m != top)) (by simp [h, hne]) entry

/-- What is at neither of two places is as before when these are gone. -/
theorem find?_erase_erase {a b m : Location} (ha : a.covers m = false) (hb : b.covers m = false) :
    ((d.erase a).erase b).find? m = d.find? m := by
  rw [find?_erase, if_neg (by simp [hb]), find?_erase, if_neg (by simp [ha])]

/-- At two places that are gone there is nothing. -/
theorem find?_erase_erase_of_covers {a b m : Location} (hne : m ≠ [])
    (h : a.covers m = true ∨ b.covers m = true) : ((d.erase a).erase b).find? m = none := by
  rw [find?_erase, find?_erase]
  rcases h with h | h <;> simp [h, hne]

theorem erase_erase_comm (l m : Location) : (d.erase l).erase m = (d.erase m).erase l := by
  simp only [erase, List.filter_filter, Disk.mk.injEq]
  exact List.filter_congr fun e _ => Bool.and_comm _ _

/-- The entries of a directory are what stands one name below it. -/
theorem mem_children_iff {l : Location} {name : String} {e : Entry} :
    (name, e) ∈ d.children l ↔ d.find? (l ++ [name]) = some e := by
  rw [d.find?_eq_some_iff (by simp)]
  simp only [children, List.mem_filterMap]
  constructor
  · rintro ⟨⟨m, e'⟩, hmem, heq⟩
    dsimp only at heq
    cases hm : m.getLast? with
    | none => simp [hm] at heq
    | some last =>
      simp only [hm] at heq
      split at heq
      · next hdrop =>
        simp only [Option.some.injEq, Prod.mk.injEq] at heq
        obtain ⟨rfl, rfl⟩ := heq
        rwa [← hdrop, List.dropLast_append_getLast?]
        simpa using hm
      · cases heq
  · intro hmem
    exact ⟨(l ++ [name], e), hmem, by simp⟩

theorem children_eq_nil_iff {l : Location} :
    d.children l = [] ↔ ∀ name, d.find? (l ++ [name]) = none := by
  rw [List.eq_nil_iff_forall_not_mem]
  constructor
  · intro h name
    rw [Option.eq_none_iff_forall_not_mem]
    exact fun e he => h (name, e) (d.mem_children_iff.2 he)
  · rintro h ⟨name, e⟩ he
    simp [d.mem_children_iff, h] at he

end Disk

end Recompile
