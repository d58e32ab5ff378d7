import Recompile.Text.Affix
import Recompile.Text.Lines

/-!
# Rows of a table

A table is written as one line for each row: the key, an arrow and the value. Reading cuts each line
that is not empty at its first or at its last arrow; a line without an arrow is malformed.
-/

namespace Recompile.Store

/-- The arrow of a line at which it is cut. -/
inductive Cut where
  | first
  | last
deriving DecidableEq, Repr

def arrow : String := "->"

def Cut.row? : Cut → String → Option (String × String)
  | first => Text.cutFirst? arrow
  | last => Text.cutLast? arrow

/-- The rows of lines that are counted from `number`, or the number of the first malformed line. -/
def rowsOfLines (cut : Cut) (number : Nat) : List String → Except Nat (List (String × String))
  | [] => .ok []
  | line :: rest =>
    if line = "" then rowsOfLines cut (number + 1) rest
    else
      match cut.row? line with
      | none => .error number
      | some row => (row :: ·) <$> rowsOfLines cut (number + 1) rest

def readRows (cut : Cut) (text : String) : Except Nat (List (String × String)) :=
  rowsOfLines cut 1 (Text.lines text)

def rowText (row : String × String) : String := row.1 ++ arrow ++ row.2 ++ "\n"

def writeRows (rows : List (String × String)) : String := String.join (rows.map rowText)

end Recompile.Store
