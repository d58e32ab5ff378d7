import Recompile.Text.Affix

/-!
# Escapes and formats

What `echo` and `printf` write. A backslash and the character after it can stand for a character or
a byte, and a percent sign begins a conversion of an argument.
-/

namespace Recompile.Shell

def octal (digits : List Char) : Nat :=
  digits.foldl (fun n c => n * 8 + (c.toNat - '0'.toNat)) 0

def isOctal (c : Char) : Bool := '0' ≤ c && c ≤ '7'

/-- The character that a letter after a backslash stands for. -/
def escapeLetter? (c : Char) : Option Char :=
  [('n', '\n'), ('t', '\t'), ('r', '\r'), ('\\', '\\'), ('a', '\x07'), ('b', '\x08'),
   ('f', '\x0c'), ('v', '\x0b')].lookup c

def charBytes (c : Char) : List UInt8 := c.toString.toUTF8.toList

namespace Echo

/-- The bytes of a text with its escapes replaced; `\c` ends the output. -/
def bytes : (limit : Nat) → List Char → List UInt8 × Bool
  | 0, _ => ([], false)
  | limit + 1, cs =>
    let go (first : List UInt8) (rest : List Char) : List UInt8 × Bool :=
      let (more, ended) := bytes limit rest
      (first ++ more, ended)
    match cs with
    | [] => ([], false)
    | '\\' :: 'c' :: _ => ([], true)
    | '\\' :: '0' :: rest =>
      let digits := (rest.takeWhile isOctal).take 3
      go [(octal digits).toUInt8] (rest.drop digits.length)
    | '\\' :: c :: rest =>
      match escapeLetter? c with
      | some e => go (charBytes e) rest
      | none => go (charBytes '\\' ++ charBytes c) rest
    | c :: rest => go (charBytes c) rest

def output (arguments : List String) : ByteArray :=
  let (newline, arguments) := match arguments with
    | "-n" :: rest => (false, rest)
    | _ => (true, arguments)
  let text := " ".intercalate arguments
  let (out, ended) := bytes (text.length + 1) text.toList
  ⟨(out ++ if newline && !ended then [10] else []).toArray⟩

end Echo

namespace Printf

/-- A conversion with its flags, its least width and its precision. -/
structure Conversion where
  left : Bool
  zeros : Bool
  sign : Bool
  width : Nat
  precision : Option Nat
  letter : Char
deriving DecidableEq, Repr

/-- The conversion that follows a percent sign. -/
def conversion? (cs : List Char) : Option (Conversion × List Char) :=
  let flags := cs.takeWhile ['-', '+', ' ', '#', '0'].contains
  let rest := cs.drop flags.length
  let digits := rest.takeWhile Char.isDigit
  let rest := rest.drop digits.length
  let number (digits : List Char) : Nat := (String.ofList digits).toNat?.getD 0
  let (precision, rest) := match rest with
    | '.' :: rest =>
      let places := rest.takeWhile Char.isDigit
      (some (number places), rest.drop places.length)
    | _ => (none, rest)
  match rest with
  | [] => none
  | letter :: rest =>
    some (⟨flags.contains '-', flags.contains '0', flags.contains '+', number digits, precision,
      letter⟩, rest)

/-- The number that an argument spells; what is no number counts as zero. -/
def number (argument : String) : Int :=
  match Text.after? "0x" argument, argument.toList with
  | some digits, _ => digits.toList.foldl (fun n c =>
      n * 16 + (if c.isDigit then c.toNat - '0'.toNat else c.toLower.toNat - 'a'.toNat + 10)) 0
  | none, '\'' :: c :: _ | none, '"' :: c :: _ => c.toNat
  | none, '+' :: digits => ((String.ofList digits).toNat?.getD 0 : Nat)
  | none, '0' :: digits => octal (digits.takeWhile isOctal)
  | none, _ => argument.toInt?.getD 0

/-- A number with at least as many digits as the precision asks for. -/
def Conversion.digits (c : Conversion) (n : Int) (digits : List Char) : List Char :=
  let zeros := List.replicate (c.precision.getD 0 - digits.length) '0'
  (if n < 0 then ['-'] else if c.sign then ['+'] else []) ++ zeros ++ digits

/-- Fills a text up to the width. Zeros are put after the sign. -/
def Conversion.padded (c : Conversion) (numeric : Bool) (text : List Char) : List Char :=
  let gap := c.width - text.length
  if c.left then text ++ List.replicate gap ' '
  else if c.zeros && numeric && c.precision.isNone then
    let sign := text.takeWhile fun c => c = '-' || c = '+'
    sign ++ List.replicate gap '0' ++ text.drop sign.length
  else List.replicate gap ' ' ++ text

/-- What a conversion writes for an argument. -/
def Conversion.text (c : Conversion) (argument : String) : List Char :=
  let n := number argument
  match c.letter with
  | 'd' | 'i' | 'u' => c.padded true (c.digits n (toString n.natAbs).toList)
  | 'x' => c.padded true (c.digits 0 (Nat.toDigits 16 n.toNat))
  | 'X' => c.padded true (c.digits 0 ((Nat.toDigits 16 n.toNat).map Char.toUpper))
  | 'o' => c.padded true (c.digits 0 (Nat.toDigits 8 n.toNat))
  | 'c' => c.padded false (argument.toList.take 1)
  | _ => c.padded false (match c.precision with
    | some places => argument.toList.take places
    | none => argument.toList)

/-- What is left to do for a format: the arguments, or nothing when a `\c` has ended the output. -/
abbrev Left := Option (List String)

/-- Writes a format once. -/
def once : (limit : Nat) → List Char → List String → List UInt8 × Left
  | 0, _, arguments => ([], some arguments)
  | limit + 1, cs, arguments =>
    let go (first : List UInt8) (rest : List Char) (arguments : List String) : List UInt8 × Left :=
      let (more, left) := once limit rest arguments
      (first ++ more, left)
    match cs with
    | [] => ([], some arguments)
    | '%' :: '%' :: rest => go [37] rest arguments
    | '%' :: rest =>
      match conversion? rest with
      | none => ([37], some arguments)
      | some (c, rest) =>
        let argument := (arguments.head?).getD ""
        if c.letter = 'b' then
          let (bytes, ended) := Echo.bytes (argument.length + 1) argument.toList
          if ended then (bytes, none) else go bytes rest arguments.tail
        else go ((c.text argument).flatMap charBytes) rest arguments.tail
    | '\\' :: 'c' :: _ => ([], none)
    | '\\' :: c :: rest =>
      let digits := ((c :: rest).takeWhile isOctal).take 3
      if !digits.isEmpty then
        go [(octal digits).toUInt8] ((c :: rest).drop digits.length) arguments
      else
        match escapeLetter? c with
        | some e => go (charBytes e) rest arguments
        | none => go ((if c = '"' then [] else charBytes '\\') ++ charBytes c) rest arguments
    | c :: rest => go (charBytes c) rest arguments

/-- Writes a format as often as there are arguments for it, but once at least. -/
def repeated : (limit : Nat) → String → List String → List UInt8
  | 0, _, _ => []
  | limit + 1, format, arguments =>
    match once (format.length + 1) format.toList arguments with
    | (out, some left) =>
      if left.isEmpty || left.length = arguments.length then out
      else out ++ repeated limit format left
    | (out, none) => out

def output : List String → ByteArray
  | [] => .empty
  | format :: arguments => ⟨(repeated (arguments.length + 1) format arguments).toArray⟩

end Printf

end Recompile.Shell
