import Recompile.Proofs.Text.Lines

/-!
# Texts and their lines

`Spells` says which lines a text consists of, without cutting it: each line is ended by a line feed,
or by a carriage return and a line feed, and the last one possibly by neither. Every text is spelled
by the lines that it is cut into, and by no others.
-/

namespace Recompile.Text

/-- The text consists of these lines. A line feed after a carriage return is the end of a line
together with it. -/
inductive Spells : List String → String → Prop
  | nil : Spells [] ""
  | last {line : String} (hne : line ≠ "") (hline : '\n' ∉ line.toList) : Spells [line] line
  | feed {line : String} {lines : List String} {text : String} (hline : '\n' ∉ line.toList)
    (hreturn : line.toList.getLast? ≠ some '\r') (rest : Spells lines text) :
    Spells (line :: lines) (line ++ "\n" ++ text)
  | returnFeed {line : String} {lines : List String} {text : String} (hline : '\n' ∉ line.toList)
    (rest : Spells lines text) : Spells (line :: lines) (line ++ "\r\n" ++ text)

theorem lines_of_not_mem {text : String} (hne : text ≠ "") (h : '\n' ∉ text.toList) :
    lines text = [text] := by
  have hchars : text.toList ≠ [] := by simpa using hne
  rw [lines, List.splitOn_eq_singleton h, linesOfPieces, if_neg hchars]
  simp

/-- The first line of a text is what stands before its first line feed. -/
theorem lines_append_feed {line : String} (h : '\n' ∉ line.toList) (text : String) :
    lines (line ++ "\n" ++ text) = withoutReturn line :: lines text := by
  have hchars : (line ++ "\n" ++ text).toList = line.toList ++ '\n' :: text.toList := by
    have hfeed : ("\n" : String).toList = ['\n'] := rfl
    simp [hfeed]
  obtain ⟨piece, more, hpieces⟩ := List.exists_cons_of_ne_nil (List.splitOn_ne_nil '\n' text.toList)
  have hstep : linesOfPieces (line.toList :: piece :: more) =
      dropReturn line.toList :: linesOfPieces (piece :: more) := rfl
  rw [lines, hchars, List.splitOn_append_cons_self, List.splitOn_eq_singleton h,
    List.singleton_append, hpieces, hstep, ← hpieces, List.map_cons]
  rfl

theorem withoutReturn_eq_self {line : String} (h : line.toList.getLast? ≠ some '\r') :
    withoutReturn line = line := by
  rw [withoutReturn, dropReturn_eq_self_iff.2 h, String.ofList_toList]

theorem withoutReturn_append (line : String) : withoutReturn (line ++ "\r") = line := by
  have hreturn : ("\r" : String).toList = ['\r'] := rfl
  rw [← String.toList_inj]
  simp [withoutReturn, dropReturn, hreturn]

theorem Spells.lines_eq {ls : List String} {text : String} (h : Spells ls text) :
    lines text = ls := by
  induction h with
  | nil => rfl
  | last hne hline => exact lines_of_not_mem hne hline
  | feed hline hreturn _ ih => rw [lines_append_feed hline, withoutReturn_eq_self hreturn, ih]
  | @returnFeed line ls text hline _ ih =>
    have hends : line ++ "\r" ++ "\n" = line ++ "\r\n" := by
      rw [String.append_assoc]
      rfl
    have hfree : '\n' ∉ (line ++ "\r").toList := by
      simpa using hline
    rw [← hends, lines_append_feed hfree, withoutReturn_append, ih]

/-- One more line in front, whose carriage return belongs to its end. -/
theorem Spells.cons {line : String} {ls : List String} {text : String} (h : Spells ls text)
    (hline : '\n' ∉ line.toList) : Spells (withoutReturn line :: ls) (line ++ "\n" ++ text) := by
  by_cases hreturn : line.toList.getLast? = some '\r'
  · obtain ⟨start, hstart⟩ := List.getLast?_eq_some_iff.1 hreturn
    have hchars : ("\r" : String).toList = ['\r'] := rfl
    obtain rfl : line = String.ofList start ++ "\r" := by
      rw [← String.toList_inj, hstart]
      simp [hchars]
    have hends : String.ofList start ++ "\r" ++ "\n" = String.ofList start ++ "\r\n" := by
      rw [String.append_assoc]
      rfl
    rw [withoutReturn_append, hends]
    exact .returnFeed (by simpa using hline) h
  · rw [withoutReturn_eq_self hreturn]
    exact .feed hline hreturn h

/-- A text consists of the lines that it is cut into. -/
theorem spells_lines (text : String) : Spells (lines text) text := by
  induction hn : text.toList.length using Nat.strongRecOn generalizing text with
  | ind n ih =>
    by_cases hfeed : '\n' ∈ text.toList
    · obtain ⟨before, after, hlist, hbefore⟩ := List.eq_append_cons_of_mem hfeed
      have hchars : ("\n" : String).toList = ['\n'] := rfl
      obtain rfl : text = String.ofList before ++ "\n" ++ String.ofList after := by
        rw [← String.toList_inj, hlist]
        simp [hchars]
      have hfree : '\n' ∉ (String.ofList before).toList := by rwa [String.toList_ofList]
      have hshort : (String.ofList after).toList.length < n := by
        rw [← hn, hlist]
        simp
        omega
      rw [lines_append_feed hfree]
      exact (ih _ hshort _ rfl).cons hfree
    · by_cases hempty : text = ""
      · subst hempty
        exact .nil
      · rw [lines_of_not_mem hempty hfeed]
        exact .last hempty hfeed

/-- A text is spelled by its lines and by no others. -/
theorem spells_iff {ls : List String} {text : String} : Spells ls text ↔ lines text = ls :=
  ⟨Spells.lines_eq, fun h => h ▸ spells_lines text⟩

end Recompile.Text
