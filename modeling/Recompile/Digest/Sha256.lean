import Recompile.Text.Quoted

/-!
# The digest SHA-256

The message is followed by one bit, zeros and its length in bits, cut into blocks of sixteen words,
and each block is mixed into a state of eight words. `hex` writes the final state in hexadecimal
digits.
-/

namespace Recompile.Sha256

/-- The fractional parts of the cube roots of the first sixty-four primes. -/
def roundConstants : Array UInt32 :=
  #[0x428a2f98, 0x71374491, 0xb5c0fbcf, 0xe9b5dba5, 0x3956c25b, 0x59f111f1, 0x923f82a4, 0xab1c5ed5,
    0xd807aa98, 0x12835b01, 0x243185be, 0x550c7dc3, 0x72be5d74, 0x80deb1fe, 0x9bdc06a7, 0xc19bf174,
    0xe49b69c1, 0xefbe4786, 0x0fc19dc6, 0x240ca1cc, 0x2de92c6f, 0x4a7484aa, 0x5cb0a9dc, 0x76f988da,
    0x983e5152, 0xa831c66d, 0xb00327c8, 0xbf597fc7, 0xc6e00bf3, 0xd5a79147, 0x06ca6351, 0x14292967,
    0x27b70a85, 0x2e1b2138, 0x4d2c6dfc, 0x53380d13, 0x650a7354, 0x766a0abb, 0x81c2c92e, 0x92722c85,
    0xa2bfe8a1, 0xa81a664b, 0xc24b8b70, 0xc76c51a3, 0xd192e819, 0xd6990624, 0xf40e3585, 0x106aa070,
    0x19a4c116, 0x1e376c08, 0x2748774c, 0x34b0bcb5, 0x391c0cb3, 0x4ed8aa4a, 0x5b9cca4f, 0x682e6ff3,
    0x748f82ee, 0x78a5636f, 0x84c87814, 0x8cc70208, 0x90befffa, 0xa4506ceb, 0xbef9a3f7, 0xc67178f2]

/-- The eight words that are mixed. -/
structure State where
  (a b c d e f g h : UInt32)
deriving DecidableEq, Repr

/-- The fractional parts of the square roots of the first eight primes. -/
def initial : State :=
  ⟨0x6a09e667, 0xbb67ae85, 0x3c6ef372, 0xa54ff53a, 0x510e527f, 0x9b05688c, 0x1f83d9ab, 0x5be0cd19⟩

def rotateRight (x : UInt32) (n : UInt32) : UInt32 := (x >>> n) ||| (x <<< (32 - n))

/-- The bytes that follow a message of `size` bytes. -/
def padding (size : Nat) : ByteArray :=
  let zeros := (119 - size % 64) % 64
  let bits := size * 8
  let length : Array UInt8 := #[56, 48, 40, 32, 24, 16, 8, 0].map fun shift => (bits >>> shift).toUInt8
  ByteArray.mk (#[0x80] ++ Array.replicate zeros 0 ++ length)

def wordAt (message : ByteArray) (start : Nat) : UInt32 :=
  (List.range 4).foldl (fun word i => (word <<< 8) ||| ((message[start + i]?).getD 0).toUInt32) 0

/-- The sixty-four words that the block at `start` spreads into. -/
def schedule (message : ByteArray) (start : Nat) : Array UInt32 :=
  let block := Array.ofFn fun i : Fin 16 => wordAt message (start + 4 * i)
  (List.range 48).foldl (fun words t =>
    let past (back : Nat) : UInt32 := (words[t + 16 - back]?).getD 0
    let x := past 15
    let y := past 2
    let small0 := rotateRight x 7 ^^^ rotateRight x 18 ^^^ (x >>> 3)
    let small1 := rotateRight y 17 ^^^ rotateRight y 19 ^^^ (y >>> 10)
    words.push (past 16 + small0 + past 7 + small1)) block

def round (s : State) (constant word : UInt32) : State :=
  let big1 := rotateRight s.e 6 ^^^ rotateRight s.e 11 ^^^ rotateRight s.e 25
  let choice := (s.e &&& s.f) ^^^ (~~~s.e &&& s.g)
  let t1 := s.h + big1 + choice + constant + word
  let big0 := rotateRight s.a 2 ^^^ rotateRight s.a 13 ^^^ rotateRight s.a 22
  let majority := (s.a &&& s.b) ^^^ (s.a &&& s.c) ^^^ (s.b &&& s.c)
  ⟨t1 + big0 + majority, s.a, s.b, s.c, s.d + t1, s.e, s.f, s.g⟩

def mixBlock (message : ByteArray) (s : State) (start : Nat) : State :=
  let words := schedule message start
  let r := (List.range 64).foldl (fun r t =>
    round r ((roundConstants[t]?).getD 0) ((words[t]?).getD 0)) s
  ⟨s.a + r.a, s.b + r.b, s.c + r.c, s.d + r.d, s.e + r.e, s.f + r.f, s.g + r.g, s.h + r.h⟩

def digest (bytes : ByteArray) : State :=
  let message := bytes ++ padding bytes.size
  (List.range (message.size / 64)).foldl (fun s i => mixBlock message s (64 * i)) initial

def hexWord (w : UInt32) : List Char :=
  [(24 : UInt32), 16, 8, 0].flatMap fun shift => Text.hexByte (w >>> shift).toUInt8

/-- The digest of the bytes as sixty-four hexadecimal digits. -/
def hex (bytes : ByteArray) : String :=
  let s := digest bytes
  String.ofList ([s.a, s.b, s.c, s.d, s.e, s.f, s.g, s.h].flatMap hexWord)

end Recompile.Sha256
