import Recompile.Text.Affix
import Recompile.Text.Fields

/-!
# Paths

A path keeps its exact spelling. Its parts are what stands between the slashes, so that the first
part of an absolute path is empty and repeated or trailing slashes give empty parts. Appending keeps
the spelling of both sides; an absolute path replaces what it is appended to.
-/

namespace Recompile

/-- A path as it is spelled. -/
structure Path where
  text : String
deriving DecidableEq, Repr

namespace Path

def isAbsolute (p : Path) : Bool := Text.startsWith "/" p.text

def parts (p : Path) : List String := Text.fields '/' p.text

def ofParts (parts : List String) : Path := ⟨Text.unfields '/' parts⟩

@[simp] theorem ofParts_parts (p : Path) : ofParts p.parts = p := by
  simp [ofParts, parts]

/-- Puts `more` behind the path, with a slash between unless the path is empty or ends in one. An
absolute `more` replaces the path. -/
def push (p : Path) (more : String) : Path :=
  if Text.startsWith "/" more then ⟨more⟩
  else if p.text.isEmpty || Text.endsWith "/" p.text then ⟨p.text ++ more⟩
  else ⟨p.text ++ "/" ++ more⟩

def join (p more : Path) : Path := p.push more.text

end Path

end Recompile
