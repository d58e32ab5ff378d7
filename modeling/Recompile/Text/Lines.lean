/-!
# Lines of a text

A line ends at a line feed and loses one carriage return that stands just before it. What follows
the last line feed is a line too unless it is empty, and it keeps its carriage returns.
-/

namespace Recompile.Text

/-- The line without the one carriage return that may end it. -/
def dropReturn (line : List Char) : List Char :=
  if line.getLast? = some '\r' then line.dropLast else line

/-- The lines of a text given by its pieces between line feeds: all but the last piece were ended
by a line feed. -/
def linesOfPieces : List (List Char) → List (List Char)
  | [] => []
  | [last] => if last = [] then [] else [last]
  | piece :: more => dropReturn piece :: linesOfPieces more

def lines (text : String) : List String :=
  (linesOfPieces (text.toList.splitOn '\n')).map String.ofList

end Recompile.Text
