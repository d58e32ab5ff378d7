import Recompile.Proofs.Path.Push
import Recompile.Store.Key

/-!
# Names of stores

A digest is written in digits, so that it can be a part of a name and of a row.
-/

namespace Recompile

namespace Sha256

theorem mem_hex {bytes : ByteArray} {c : Char} (h : c ∈ (hex bytes).toList) :
    ∃ n < 16, c = Nat.digitChar n := by
  simp only [hex, String.toList_ofList, List.mem_flatMap, hexWord, Text.hexByte, List.mem_cons,
    List.not_mem_nil, or_false] at h
  obtain ⟨word, -, shift, -, rfl | rfl⟩ := h
  · exact ⟨_, by have := (word >>> shift).toUInt8.toNat_lt; omega, rfl⟩
  · exact ⟨_, Nat.mod_lt _ (by decide), rfl⟩

theorem digitChar_not_mem : ∀ n < 16, Nat.digitChar n ∉ ['/', '-', '>', '\n', '\r'] := by decide

theorem not_mem_hex {bytes : ByteArray} {c : Char} (h : c ∈ ['/', '-', '>', '\n', '\r']) :
    c ∉ (hex bytes).toList := by
  intro hmem
  obtain ⟨n, hn, rfl⟩ := mem_hex hmem
  exact digitChar_not_mem n hn h

end Sha256

namespace Store

/-- What is longer than two dots and has no slash is a name. -/
theorem isName_of_length {name : String} (hlength : 2 < name.toList.length)
    (hslash : '/' ∉ name.toList) : Path.IsName name := by
  refine ⟨?_, ?_, ?_, hslash⟩
  · intro heq
    simp [heq] at hlength
  · intro heq
    simp [heq] at hlength
  · intro heq
    simp [heq] at hlength

theorem isName_key (sourceTree : Path) : Path.IsName (key sourceTree) := by
  refine isName_of_length (by simp [key]) ?_
  rw [key, String.toList_append, List.mem_append, not_or]
  exact ⟨by decide, Sha256.not_mem_hex (by simp)⟩

end Store

end Recompile
