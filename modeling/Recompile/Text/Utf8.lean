/-!
# Reading bytes as UTF-8

`pieces` cuts any bytes into characters and broken runs; a broken run is the longest beginning of a
well-formed sequence that its bytes still are, or one byte that begins none. `decode` accepts exactly
the well-formed byte sequences, and otherwise says where the first broken run stands.
-/

namespace Recompile.Text

/-- A character, or bytes that are no part of one. -/
inductive Piece where
  | char (c : Char)
  | broken (bytes : List UInt8)

/-- The first broken run: its place, and its length unless the text ends inside it. -/
structure Utf8Error where
  index : Nat
  length? : Option Nat
deriving DecidableEq, Repr

namespace Utf8Error

def message (e : Utf8Error) : String :=
  match e.length? with
  | some n => s!"invalid utf-8 sequence of {n} bytes from index {e.index}"
  | none => s!"incomplete utf-8 byte sequence from index {e.index}"

end Utf8Error

/-- What a byte asks for when it begins a sequence: its own payload bits and the inclusive range of
the second byte. The number of further bytes is the first component. -/
def leadByte (b : UInt8) : Option (Nat × Nat × UInt8 × UInt8) :=
  let n := b.toNat
  if n < 0x80 then some (0, n, 0x80, 0xBF)
  else if n < 0xC2 then none
  else if n < 0xE0 then some (1, n - 0xC0, 0x80, 0xBF)
  else if n < 0xF0 then
    some (2, n - 0xE0, if n = 0xE0 then 0xA0 else 0x80, if n = 0xED then 0x9F else 0xBF)
  else if n < 0xF5 then
    some (3, n - 0xF0, if n = 0xF0 then 0x90 else 0x80, if n = 0xF4 then 0x8F else 0xBF)
  else none

/-- Reads `more` continuation bytes, the first of them between `low` and `high`. The answer is the
number of bytes read and the code point when all were there. -/
def continuation : (more payload : Nat) → (low high : UInt8) → List UInt8 → Nat × Option Nat
  | 0, payload, _, _, _ => (0, some payload)
  | _ + 1, _, _, _, [] => (0, none)
  | more + 1, payload, low, high, b :: rest =>
    if low ≤ b && b ≤ high then
      let (read, point) := continuation more (payload * 64 + (b.toNat - 0x80)) 0x80 0xBF rest
      (read + 1, point)
    else (0, none)

/-- The piece that `first` begins, and how many of the bytes after it belong to it. -/
def nextPiece (first : UInt8) (rest : List UInt8) : Piece × Nat :=
  match leadByte first with
  | none => (.broken [first], 0)
  | some (more, payload, low, high) =>
    match continuation more payload low high rest with
    | (read, some point) => (.char (Char.ofNat point), read)
    | (read, none) => (.broken (first :: rest.take read), read)

def pieces : List UInt8 → List Piece
  | [] => []
  | first :: rest =>
    let (piece, read) := nextPiece first rest
    piece :: pieces (rest.drop read)
termination_by bytes => bytes.length
decreasing_by simp only [List.length_cons, List.length_drop]; omega

/-- Whether `first` asks for more bytes than `given`. -/
def wantsMore (first : UInt8) (given : Nat) : Bool :=
  match leadByte first with
  | some (more, _, _, _) => given < more
  | none => false

/-- The first broken run of a text whose first byte stands at `index`. -/
def firstBroken (index : Nat) : List UInt8 → Option Utf8Error
  | [] => none
  | first :: rest =>
    match nextPiece first rest with
    | (.char _, read) => firstBroken (index + 1 + read) (rest.drop read)
    | (.broken bytes, read) =>
      if (rest.drop read).isEmpty && wantsMore first read then some ⟨index, none⟩
      else some ⟨index, some bytes.length⟩
termination_by bytes => bytes.length
decreasing_by simp only [List.length_cons, List.length_drop]; omega

/-- The text of well-formed bytes. -/
def decode (bytes : ByteArray) : Except Utf8Error String :=
  if h : bytes.IsValidUTF8 then .ok (String.fromUTF8 bytes h)
  else .error ((firstBroken 0 bytes.toList).getD ⟨0, none⟩)

theorem decode_toUTF8 (text : String) : decode text.toUTF8 = .ok text := by
  have h : text.toByteArray.IsValidUTF8 := text.isValidUTF8
  simp [decode, h, String.fromUTF8]

end Recompile.Text
