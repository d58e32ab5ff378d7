import Recompile.Shell.Token

/-!
# Arithmetic in scripts

Whole numbers of 64 bits, variables, parentheses and the usual operators. Division drops the
fraction; dividing by zero has no value.
-/

namespace Recompile.Shell.Arithmetic

/-- Why an expression has no value. -/
inductive Fault where
  | divisionByZero
  | noOperand
  | notEnded
deriving DecidableEq, Repr

def Fault.text : Fault → String
  | divisionByZero => "division by zero"
  | noOperand => "expecting primary"
  | notEnded => "expecting EOF"

/-- The binary operators from the loosest to the tightest. -/
def levels : List (List String) :=
  [["||"], ["&&"], ["|"], ["^"], ["&"], ["==", "!="], ["<=", ">=", "<", ">"], ["<<", ">>"],
   ["+", "-"], ["*", "/", "%"]]

/-- All binary operators, longer ones first. -/
def symbols : List String :=
  ["||", "&&", "==", "!=", "<=", ">=", "<<", ">>", "|", "^", "&", "<", ">", "+", "-", "*", "/", "%"]

def ofBool (b : Bool) : Int := if b then 1 else 0

/-- Keeps a number within 64 bits. -/
def wrap (n : Int) : Int := n.bmod 18446744073709551616

def onBits (f : BitVec 64 → BitVec 64 → BitVec 64) (a b : Int) : Int :=
  (f (.ofInt 64 a) (.ofInt 64 b)).toInt

def apply (operator : String) (a b : Int) : Except Fault Int :=
  match operator with
  | "||" => .ok (ofBool (a != 0 || b != 0))
  | "&&" => .ok (ofBool (a != 0 && b != 0))
  | "|" => .ok (onBits (· ||| ·) a b)
  | "^" => .ok (onBits (· ^^^ ·) a b)
  | "&" => .ok (onBits (· &&& ·) a b)
  | "==" => .ok (ofBool (a == b))
  | "!=" => .ok (ofBool (a != b))
  | "<=" => .ok (ofBool (a ≤ b))
  | ">=" => .ok (ofBool (a ≥ b))
  | "<" => .ok (ofBool (a < b))
  | ">" => .ok (ofBool (a > b))
  | "<<" => .ok (wrap (a <<< (b % 64).toNat))
  | ">>" => .ok (a >>> (b % 64).toNat)
  | "+" => .ok (wrap (a + b))
  | "-" => .ok (wrap (a - b))
  | "*" => .ok (wrap (a * b))
  | "/" => if b = 0 then .error .divisionByZero else .ok (wrap (a.tdiv b))
  | "%" => if b = 0 then .error .divisionByZero else .ok (a.tmod b)
  | _ => .error .noOperand

def skipBlanks (cs : List Char) : List Char := cs.dropWhile fun c => " \t\n".toList.contains c

/-- The number that a text spells; an empty text is zero. -/
def number? (text : String) : Except Fault Int :=
  if text = "" then .ok 0
  else match text.toInt? with
    | some n => .ok n
    | none => .error .noOperand

mutual

/-- Reads an expression whose operators are at least as tight as `tighter` begins with. -/
def binary (value : String → String) : (limit : Nat) → (tighter : List (List String)) →
    List Char → Except Fault (Int × List Char)
  | 0, _, _ => .error .noOperand
  | limit + 1, tighter, cs =>
    match tighter with
    | [] => unary value limit (skipBlanks cs)
    | operators :: rest => do
      let (first, cs) ← binary value limit rest cs
      more value limit operators rest first cs

def more (value : String → String) : (limit : Nat) → (operators : List String) →
    (tighter : List (List String)) → Int → List Char → Except Fault (Int × List Char)
  | 0, _, _, _, _ => .error .noOperand
  | limit + 1, operators, tighter, first, cs =>
    match oneOf symbols (skipBlanks cs) with
    | none => .ok (first, cs)
    | some (operator, rest) =>
      if operators.contains operator then do
        let (second, rest) ← binary value limit tighter rest
        more value limit operators tighter (← apply operator first second) rest
      else .ok (first, cs)

def unary (value : String → String) : (limit : Nat) → List Char → Except Fault (Int × List Char)
  | 0, _ => .error .noOperand
  | limit + 1, cs =>
    match cs with
    | '-' :: rest => (unary value limit (skipBlanks rest)).map fun r => (wrap (-r.1), r.2)
    | '+' :: rest => unary value limit (skipBlanks rest)
    | '!' :: rest => (unary value limit (skipBlanks rest)).map fun r => (ofBool (r.1 == 0), r.2)
    | '~' :: rest => (unary value limit (skipBlanks rest)).map fun r => (-r.1 - 1, r.2)
    | '(' :: rest => do
      let (a, rest) ← binary value limit levels rest
      match skipBlanks rest with
      | ')' :: rest => return (a, rest)
      | _ => .error .noOperand
    | _ =>
      let digits := cs.takeWhile Char.isDigit
      let name := cs.takeWhile isNameChar
      if !digits.isEmpty then
        (number? (String.ofList digits)).map fun n => (n, cs.drop digits.length)
      else if isName name then
        (number? (value (String.ofList name))).map fun n => (n, cs.drop name.length)
      else .error .noOperand

end

/-- The value of an expression, given the values of variables. -/
def evaluate (value : String → String) (expression : String) : Except Fault Int := do
  let cs := skipBlanks expression.toList
  if cs.isEmpty then return 0
  let (a, rest) ← binary value (32 * cs.length + 32) levels cs
  if (skipBlanks rest).isEmpty then return a else .error .notEnded

end Recompile.Shell.Arithmetic
