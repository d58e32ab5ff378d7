/-!
# Fields between separators

A text with `n` separators has `n + 1` fields, some of them possibly empty. Reading and writing
fields are inverse to each other.
-/

namespace Recompile.Text

def fields (separator : Char) (text : String) : List String :=
  (text.toList.splitOn separator).map String.ofList

def unfields (separator : Char) (parts : List String) : String :=
  String.ofList ([separator].intercalate (parts.map String.toList))

@[simp] theorem unfields_fields (separator : Char) (text : String) :
    unfields separator (fields separator text) = text := by
  simp [unfields, fields, Function.comp_def]

theorem fields_unfields (separator : Char) (parts : List String) (nonempty : parts ≠ [])
    (free : ∀ part ∈ parts, separator ∉ part.toList) :
    fields separator (unfields separator parts) = parts := by
  rw [fields, unfields, String.toList_ofList, List.splitOn_intercalate]
  · simp [Function.comp_def]
  · simpa using free
  · simpa using nonempty

end Recompile.Text
