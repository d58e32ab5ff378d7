/-!
# Beginnings and ends of a text

Splitting at the first or the last occurrence of a separator, and taking a known beginning or end
away. Each function is stated on characters; the names without a suffix act on texts.
-/

namespace Recompile.Text

/-- What follows `start` in `text`, when `text` begins with it. -/
def afterOf : (start text : List Char) → Option (List Char)
  | [], text => some text
  | _ :: _, [] => none
  | c :: start, d :: text => if c = d then afterOf start text else none

/-- What comes before `ending` in `text`, when `text` ends with it. -/
def beforeOf (ending text : List Char) : Option (List Char) :=
  (afterOf ending.reverse text.reverse).map List.reverse

/-- The parts before and after the first occurrence of `separator`. -/
def cutFirstOf (separator : List Char) : (text : List Char) → Option (List Char × List Char)
  | [] => (afterOf separator []).map fun rest => ([], rest)
  | c :: text =>
    match afterOf separator (c :: text) with
    | some rest => some ([], rest)
    | none => (cutFirstOf separator text).map fun cut => (c :: cut.1, cut.2)

/-- The parts before and after the last occurrence of `separator`. -/
def cutLastOf (separator text : List Char) : Option (List Char × List Char) :=
  (cutFirstOf separator.reverse text.reverse).map fun cut => (cut.2.reverse, cut.1.reverse)

def after? (start text : String) : Option String :=
  (afterOf start.toList text.toList).map String.ofList

def before? (ending text : String) : Option String :=
  (beforeOf ending.toList text.toList).map String.ofList

def cutFirst? (separator text : String) : Option (String × String) :=
  (cutFirstOf separator.toList text.toList).map fun cut =>
    (String.ofList cut.1, String.ofList cut.2)

def cutLast? (separator text : String) : Option (String × String) :=
  (cutLastOf separator.toList text.toList).map fun cut =>
    (String.ofList cut.1, String.ofList cut.2)

def startsWith (start text : String) : Bool := (after? start text).isSome

def endsWith (ending text : String) : Bool := (before? ending text).isSome

end Recompile.Text
