import Recompile.Text.Hidden
import Recompile.Text.Utf8

/-!
# Quoted texts

A text between double quotes, with a backslash before quotes and backslashes, short names for the
common controls, and `\u{…}` with the code point in lower-case hexadecimal digits for every other
character that is hidden or joins the character before it. Bytes that are no character are written
`\x` with two upper-case digits.
-/

namespace Recompile.Text

def escapedChar (c : Char) : String :=
  if c = '\x00' then "\\0"
  else if c = '\t' then "\\t"
  else if c = '\r' then "\\r"
  else if c = '\n' then "\\n"
  else if c = '"' then "\\\""
  else if c = '\\' then "\\\\"
  else if isExtending c || isHidden c then
    "\\u\x7b" ++ String.ofList (Nat.toDigits 16 c.toNat) ++ "\x7d"
  else c.toString

def quoted (text : String) : String :=
  "\"" ++ String.join (text.toList.map escapedChar) ++ "\""

def hexByte (b : UInt8) : List Char :=
  [Nat.digitChar (b.toNat / 16), Nat.digitChar (b.toNat % 16)]

def escapedPiece : Piece → String
  | .char c => escapedChar c
  | .broken bytes =>
    String.join (bytes.map fun b => "\\x" ++ String.ofList ((hexByte b).map Char.toUpper))

def quotedBytes (bytes : ByteArray) : String :=
  "\"" ++ String.join ((pieces bytes.toList).map escapedPiece) ++ "\""

end Recompile.Text
