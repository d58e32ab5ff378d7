import Mathlib.Data.List.Infix
import Mathlib.Tactic.Common
import Recompile.Text.Affix

/-!
# Where a text is cut

Cutting at the first separator gives the two sides of the one occurrence before which there is no
other; an occurrence that begins earlier and overlaps it counts as well. Cutting at the last
separator is the same on the reversed text.
-/

namespace Recompile.Text

variable {separator text before rest : List Char}

theorem afterOf_eq_some_iff {start : List Char} :
    afterOf start text = some rest ↔ text = start ++ rest := by
  induction start generalizing text with
  | nil => simp [afterOf, eq_comm]
  | cons c start ih =>
    cases text with
    | nil => simp [afterOf]
    | cons d text =>
      by_cases hc : c = d
      · simp [afterOf, hc, ih]
      · simp [afterOf, hc, Ne.symm hc]

theorem afterOf_eq_none_iff {start : List Char} : afterOf start text = none ↔ ¬start <+: text := by
  constructor
  · rintro h ⟨rest, hrest⟩
    rw [afterOf_eq_some_iff.2 hrest.symm] at h
    cases h
  · intro h
    cases hafter : afterOf start text with
    | none => rfl
    | some rest => exact absurd ⟨rest, (afterOf_eq_some_iff.1 hafter).symm⟩ h

/-- An occurrence at the beginning that ends before `rest` does so whatever `rest` is. -/
theorem isPrefix_dropLast_of_isPrefix {c : Char}
    (h : separator <+: c :: (before ++ separator ++ rest)) :
    separator <+: c :: (before ++ separator.dropLast) := by
  have hlong : c :: (before ++ separator.dropLast) <+: c :: (before ++ separator ++ rest) := by
    rw [List.cons_prefix_cons, List.append_assoc, List.prefix_append_right_inj]
    exact ⟨rfl, (List.dropLast_prefix separator).trans (List.prefix_append separator rest)⟩
  refine List.prefix_of_prefix_length_le h hlong ?_
  simp only [List.length_cons, List.length_append, List.length_dropLast]
  omega

theorem isPrefix_of_isPrefix_dropLast {c : Char}
    (h : separator <+: c :: (before ++ separator.dropLast)) :
    separator <+: c :: (before ++ separator ++ rest) := by
  refine h.trans ?_
  rw [List.cons_prefix_cons, List.append_assoc, List.prefix_append_right_inj]
  exact ⟨rfl, (List.dropLast_prefix separator).trans (List.prefix_append separator rest)⟩

theorem cutFirstOf_append (h : ¬separator <:+: before ++ separator.dropLast) :
    cutFirstOf separator (before ++ separator ++ rest) = some (before, rest) := by
  induction before with
  | nil =>
    have hafter : afterOf separator (separator ++ rest) = some rest := afterOf_eq_some_iff.2 rfl
    rw [List.nil_append]
    cases hlist : separator ++ rest with
    | nil =>
      rw [hlist] at hafter
      simp [cutFirstOf, hafter]
    | cons c more =>
      rw [hlist] at hafter
      rw [cutFirstOf, hafter]
  | cons c before ih =>
    rw [List.cons_append, List.infix_cons_iff, not_or] at h
    have hafter : afterOf separator (c :: (before ++ separator ++ rest)) = none :=
      afterOf_eq_none_iff.2 fun hstart => h.1 (isPrefix_dropLast_of_isPrefix hstart)
    rw [List.cons_append, List.cons_append, cutFirstOf, hafter, ih h.2]
    rfl

theorem cutFirstOf_eq_some_iff (hne : separator ≠ []) :
    cutFirstOf separator text = some (before, rest) ↔
      text = before ++ separator ++ rest ∧ ¬separator <:+: before ++ separator.dropLast := by
  constructor
  · intro h
    induction text generalizing before with
    | nil =>
      cases separator with
      | nil => exact absurd rfl hne
      | cons c more => simp [cutFirstOf, afterOf] at h
    | cons c text ih =>
      rw [cutFirstOf] at h
      cases hafter : afterOf separator (c :: text) with
      | some more =>
        simp only [hafter, Option.some.injEq, Prod.mk.injEq] at h
        obtain ⟨rfl, rfl⟩ := h
        refine ⟨afterOf_eq_some_iff.1 hafter, fun hinfix => ?_⟩
        have hlength := hinfix.length_le
        have hpos := List.length_pos_iff.2 hne
        simp only [List.nil_append, List.length_dropLast] at hlength
        omega
      | none =>
        simp only [hafter, Option.map_eq_some_iff] at h
        obtain ⟨⟨before', rest'⟩, hcut, heq⟩ := h
        simp only [Prod.mk.injEq] at heq
        obtain ⟨rfl, rfl⟩ := heq
        obtain ⟨rfl, hinfix⟩ := ih hcut
        refine ⟨rfl, ?_⟩
        rw [List.cons_append, List.infix_cons_iff, not_or]
        have hnone := afterOf_eq_none_iff.1 hafter
        exact ⟨fun hstart => hnone (isPrefix_of_isPrefix_dropLast hstart), hinfix⟩
  · rintro ⟨rfl, h⟩
    exact cutFirstOf_append h

theorem cutLastOf_eq_some_iff (hne : separator ≠ []) :
    cutLastOf separator text = some (before, rest) ↔
      text = before ++ separator ++ rest ∧ ¬separator <:+: separator.tail ++ rest := by
  have hne' : separator.reverse ≠ [] := by simpa using hne
  have hreverse : rest.reverse ++ separator.reverse.dropLast =
      (separator.tail ++ rest).reverse := by
    rw [List.reverse_append, List.dropLast_reverse]
  rw [cutLastOf, Option.map_eq_some_iff]
  constructor
  · rintro ⟨⟨after, start⟩, hcut, heq⟩
    simp only [Prod.mk.injEq] at heq
    obtain ⟨rfl, rfl⟩ := heq
    obtain ⟨htext, hinfix⟩ := (cutFirstOf_eq_some_iff hne').1 hcut
    constructor
    · rw [← List.reverse_inj, htext]
      simp
    · rwa [← List.reverse_reverse after, hreverse, List.reverse_infix] at hinfix
  · rintro ⟨rfl, hinfix⟩
    refine ⟨(rest.reverse, before.reverse), (cutFirstOf_eq_some_iff hne').2 ⟨by simp, ?_⟩, by simp⟩
    rwa [hreverse, List.reverse_infix]

/-- The separator occurs in the text. -/
def Occurs (separator text : String) : Prop := separator.toList <:+: text.toList

instance (separator text : String) : Decidable (Occurs separator text) :=
  inferInstanceAs (Decidable (separator.toList <:+: text.toList))

section Ends

variable {start ending text rest : String}

theorem after?_eq_some_iff : after? start text = some rest ↔ text = start ++ rest := by
  simp [after?, afterOf_eq_some_iff, ← String.toList_inj]

theorem before?_eq_some_iff : before? ending text = some rest ↔ text = rest ++ ending := by
  simp only [before?, beforeOf, Option.map_map, Option.map_eq_some_iff, afterOf_eq_some_iff,
    List.reverse_eq_append_iff, List.reverse_reverse, ← String.toList_inj, String.toList_append]
  constructor
  · rintro ⟨chars, htext, hrest⟩
    rw [htext, ← hrest]
    simp
  · intro htext
    exact ⟨rest.toList.reverse, by simpa using htext, by simp⟩

theorem startsWith_iff : startsWith start text = true ↔ ∃ rest, text = start ++ rest := by
  simp [startsWith, Option.isSome_iff_exists, after?_eq_some_iff]

theorem endsWith_iff : endsWith ending text = true ↔ ∃ rest, text = rest ++ ending := by
  simp [endsWith, Option.isSome_iff_exists, before?_eq_some_iff]

end Ends

end Recompile.Text
