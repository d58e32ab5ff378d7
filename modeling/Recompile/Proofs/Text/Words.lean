import Mathlib.Data.List.TakeWhile
import Recompile.Text.Blank

/-!
# Words between blanks

Blanks in front of a text do not matter, and the characters that are not blank at the beginning of a
text are the first of its words.
-/

namespace Recompile.Text

/-- Characters none of which is blank, and at least one. -/
structure IsWord (text : String) : Prop where
  ne_empty : text ≠ ""
  solid : ∀ c ∈ text.toList, isBlank c = false

/-- Blanks and nothing else, possibly none. -/
def IsBlanks (text : String) : Prop := ∀ c ∈ text.toList, isBlank c = true

instance (text : String) : Decidable (IsWord text) :=
  decidable_of_iff (text ≠ "" ∧ text.toList.all (fun c => !isBlank c) = true)
    ⟨fun ⟨hne, hsolid⟩ => ⟨hne, by simpa using hsolid⟩,
      fun h => ⟨h.ne_empty, by simpa using h.solid⟩⟩

instance (text : String) : Decidable (IsBlanks text) :=
  decidable_of_iff (text.toList.all isBlank = true) List.all_eq_true

section Characters

variable {word : List Char} {c : Char}

theorem wordsOf_append_blank (hc : isBlank c = true) (before after : List Char) :
    wordsOf (before ++ c :: after) = wordsOf before ++ wordsOf after := by
  rw [wordsOf, wordsOf, wordsOf, List.splitOnP_append_cons _ _ hc, List.filter_append]

theorem wordsOf_blank_cons (hc : isBlank c = true) (text : List Char) :
    wordsOf (c :: text) = wordsOf text :=
  wordsOf_append_blank hc [] text

theorem wordsOf_word (hne : word ≠ []) (h : ∀ c ∈ word, isBlank c = false) :
    wordsOf word = [word] := by
  rw [wordsOf, List.splitOnP_eq_singleton h]
  simp [hne]

theorem wordsOf_blanks_append {blanks : List Char} (h : ∀ c ∈ blanks, isBlank c = true)
    (text : List Char) : wordsOf (blanks ++ text) = wordsOf text := by
  induction blanks with
  | nil => rfl
  | cons c blanks ih =>
    rw [List.cons_append, wordsOf_blank_cons (h c List.mem_cons_self),
      ih fun d hd => h d (List.mem_cons_of_mem c hd)]

/-- A word that nothing solid follows is the first one. -/
theorem wordsOf_word_append (hne : word ≠ []) (h : ∀ c ∈ word, isBlank c = false)
    {rest : List Char} (hrest : ∀ c ∈ rest.head?, isBlank c = true) :
    wordsOf (word ++ rest) = word :: wordsOf rest := by
  cases rest with
  | nil => rw [List.append_nil, wordsOf_word hne h]; rfl
  | cons c rest =>
    have hc : isBlank c = true := hrest c rfl
    rw [wordsOf_append_blank hc, wordsOf_word hne h, wordsOf_blank_cons hc, List.singleton_append]

end Characters

theorem words_blanks_append {blanks : String} (h : IsBlanks blanks) (text : String) :
    words (blanks ++ text) = words text := by
  rw [words, String.toList_append, wordsOf_blanks_append h, words]

/-- The first word goes on up to the first blank. -/
theorem words_append_of_isWord {word : String} (h : IsWord word) (rest : String) :
    words (word ++ rest) =
      String.ofList (word.toList ++ rest.toList.takeWhile fun c => !isBlank c) ::
        words (String.ofList (rest.toList.dropWhile fun c => !isBlank c)) := by
  have hsolid : ∀ c ∈ word.toList ++ rest.toList.takeWhile fun c => !isBlank c,
      isBlank c = false := by
    intro c hc
    rcases List.mem_append.1 hc with hc | hc
    · exact h.solid c hc
    · simpa using List.mem_takeWhile_imp hc
  have hne : word.toList ++ rest.toList.takeWhile (fun c => !isBlank c) ≠ [] :=
    List.append_ne_nil_of_left_ne_nil (by simpa using h.ne_empty) _
  have hrest : ∀ c ∈ (rest.toList.dropWhile fun c => !isBlank c).head?, isBlank c = true := by
    intro c hc
    have := List.head?_dropWhile_not (fun c => !isBlank c) rest.toList
    rw [Option.mem_def.1 hc] at this
    simpa using this
  have hwhole : (word ++ rest).toList =
      (word.toList ++ rest.toList.takeWhile fun c => !isBlank c) ++
        rest.toList.dropWhile fun c => !isBlank c := by
    rw [String.toList_append, List.append_assoc, List.takeWhile_append_dropWhile]
  rw [words, hwhole, wordsOf_word_append hne hsolid hrest, words, String.toList_ofList,
    List.map_cons]

/-- A word that a blank follows is the first one as it stands. -/
theorem words_append_of_blank {word rest : String} (h : IsWord word)
    (hrest : ∀ c ∈ rest.toList.head?, isBlank c = true) :
    words (word ++ rest) = word :: words rest := by
  rw [words, String.toList_append, wordsOf_word_append (by simpa using h.ne_empty) h.solid hrest,
    List.map_cons, String.ofList_toList, words]

end Recompile.Text
