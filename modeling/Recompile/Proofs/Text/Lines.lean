import Mathlib.Tactic.Common
import Recompile.Proofs.Path.Push
import Recompile.Text.Lines

/-!
# Lines that were written

A text written line by line, each line ended by a line feed and free of other line feeds, is read
back line by line, less one carriage return at the end of each. No line that is read has a line feed.
-/

namespace Recompile.Text

/-- The text without the one carriage return that may end it. -/
def withoutReturn (text : String) : String := String.ofList (dropReturn text.toList)

theorem dropReturn_sublist (line : List Char) : (dropReturn line).Sublist line := by
  unfold dropReturn
  split
  · exact List.dropLast_sublist line
  · exact .refl line

theorem dropReturn_append {line : List Char} (before : List Char) (hne : line ≠ []) :
    dropReturn (before ++ line) = before ++ dropReturn line := by
  unfold dropReturn
  rw [List.getLast?_append_of_ne_nil before hne]
  split
  · exact List.dropLast_append_of_ne_nil hne
  · rfl

theorem dropReturn_eq_self_iff {line : List Char} :
    dropReturn line = line ↔ line.getLast? ≠ some '\r' := by
  unfold dropReturn
  split
  · next h =>
    refine iff_of_false (fun heq => ?_) (by simp [h])
    have hlength := congrArg List.length heq
    have hpos : 0 < line.length := List.length_pos_of_mem (List.mem_of_getLast? h)
    simp only [List.length_dropLast] at hlength
    omega
  · next h => exact iff_of_true rfl h

theorem not_mem_of_mem_linesOfPieces {pieces : List (List Char)} {line : List Char}
    (h : ∀ piece ∈ pieces, '\n' ∉ piece) (hline : line ∈ linesOfPieces pieces) : '\n' ∉ line := by
  induction pieces with
  | nil => simp [linesOfPieces] at hline
  | cons piece more ih =>
    have hpiece := h piece List.mem_cons_self
    cases more with
    | nil =>
      unfold linesOfPieces at hline
      split at hline
      · simp at hline
      · rwa [List.mem_singleton.1 hline]
    | cons next more =>
      rcases List.mem_cons.1 hline with rfl | hline
      · exact fun hmem => hpiece ((dropReturn_sublist piece).subset hmem)
      · exact ih (fun other hother => h other (List.mem_cons_of_mem piece hother)) hline

/-- No line of a text has a line feed. -/
theorem not_mem_of_mem_lines {text line : String} (h : line ∈ lines text) : '\n' ∉ line.toList := by
  obtain ⟨chars, hchars, rfl⟩ := List.mem_map.1 h
  rw [String.toList_ofList]
  exact not_mem_of_mem_linesOfPieces (fun _ => not_mem_of_mem_splitOn) hchars

theorem linesOfPieces_concat_nil (pieces : List (List Char)) :
    linesOfPieces (pieces ++ [[]]) = pieces.map dropReturn := by
  induction pieces with
  | nil => rfl
  | cons piece more ih =>
    obtain ⟨next, rest, hmore⟩ : ∃ next rest, more ++ [[]] = next :: rest :=
      List.exists_cons_of_ne_nil (by simp)
    have hstep : linesOfPieces (piece :: next :: rest) =
        dropReturn piece :: linesOfPieces (next :: rest) := rfl
    rw [List.cons_append, hmore, hstep, ← hmore, ih, List.map_cons]

theorem splitOn_flatMap_line (texts : List (List Char)) (h : ∀ text ∈ texts, '\n' ∉ text) :
    (texts.flatMap (· ++ ['\n'])).splitOn '\n' = texts ++ [[]] := by
  induction texts with
  | nil => simp
  | cons text rest ih =>
    have hrest := ih fun other hother => h other (List.mem_cons_of_mem text hother)
    have htext := List.splitOn_eq_singleton (h text List.mem_cons_self)
    rw [List.flatMap_cons, List.append_assoc, List.cons_append, List.nil_append,
      List.splitOn_append_cons_self, hrest, htext, List.cons_append, List.nil_append,
      List.cons_append]

/-- What is written line by line is read back line by line. -/
theorem lines_join (texts : List String) (h : ∀ text ∈ texts, '\n' ∉ text.toList) :
    lines (String.join (texts.map (· ++ "\n"))) = texts.map withoutReturn := by
  have hjoin : (String.join (texts.map (· ++ "\n"))).toList =
      (texts.map String.toList).flatMap (· ++ ['\n']) := by
    have hfeed : ("\n" : String).toList = ['\n'] := rfl
    simp [String.toList_join, List.flatMap_map, hfeed]
  rw [lines, hjoin, splitOn_flatMap_line _ (by simpa using h), linesOfPieces_concat_nil]
  simp [withoutReturn, Function.comp_def]

end Recompile.Text
