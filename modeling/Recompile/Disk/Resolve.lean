import Recompile.Disk.Basic
import Recompile.Disk.Fault

/-!
# Following a path on a disk

A path is followed part by part. Links on the way are replaced by the paths they stand for, at most
forty of them; `..` goes up from where the links have led. A slash at the end asks for a directory.
-/

namespace Recompile

namespace Path

/-- The number of links that may be followed on one path. -/
def linkLimit : Nat := 40

/-- The greatest sizes in bytes of a path and of a name. -/
def sizeLimit : Nat := 4095

def nameLimit : Nat := 255

/-- Whether the operating system takes the path at all. -/
def check (p : Path) : Except Fault Unit :=
  if '\x00' ∈ p.text.toList then .error .zeroByte
  else if p.text = "" then .error .noEntry
  else if p.text.utf8ByteSize > sizeLimit then .error .nameTooLong
  else .ok ()

/-- Where following the path begins. -/
def start (p : Path) (cwd : Location) : Location := if p.isAbsolute then [] else cwd

/-- The parts before the last one that is not empty, that last part, and whether slashes follow. -/
def splitLast (p : Path) : List String × Component × Bool :=
  let ending := p.parts.reverse.dropWhile (· = "")
  let slash := ending.length < p.parts.length
  match ending with
  | [] => ([], .root, slash)
  | last :: before =>
    let component := if last = "." then .here else if last = ".." then .up else .name last
    (before.reverse, component, slash)

end Path

namespace Disk

/-- Refuses what is not a directory. -/
def checkDirectory (d : Disk) (l : Location) : Except Fault Unit :=
  match d.find? l with
  | some .directory => .ok ()
  | some _ => .error .notDirectory
  | none => .error .noEntry

/-- Follows parts from a location as far as they lead without a link on the way, and goes on by
`jump` from a link. A link in the last part is followed only if `follow`. -/
def walkUntilLink (d : Disk) (follow : Bool)
    (jump : Location → List String → Except Fault Location) (l : Location) :
    List String → Except Fault Location
  | [] => .ok l
  | part :: rest =>
    match d.checkDirectory l with
    | .error fault => .error fault
    | .ok () =>
      if part = "" || part = "." then d.walkUntilLink follow jump l rest
      else if part = ".." then d.walkUntilLink follow jump l.dropLast rest
      else if part.utf8ByteSize > Path.nameLimit then .error .nameTooLong
      else
        match d.find? (l ++ [part]) with
        | some (.link target) =>
          if rest = [] && !follow then .ok (l ++ [part])
          else jump (target.start l) (target.parts ++ rest)
        | _ => d.walkUntilLink follow jump (l ++ [part]) rest

@[simp] theorem walkUntilLink_nil (d : Disk) (follow : Bool)
    (jump : Location → List String → Except Fault Location) (l : Location) :
    d.walkUntilLink follow jump l [] = .ok l := by
  rw [walkUntilLink]

/-- Follows parts from a location and up to `links` links on the way. The answer is a location in a
directory; what it names need not exist. -/
def walk (d : Disk) (follow : Bool) : (links : Nat) → Location → List String →
    Except Fault Location
  | 0 => d.walkUntilLink follow fun _ _ => .error .tooManyLinks
  | links + 1 => d.walkUntilLink follow (d.walk follow links)

/-- The location that a path leads to. -/
def resolve (d : Disk) (cwd : Location) (follow : Bool) (p : Path) : Except Fault Location := do
  p.check
  d.walk follow Path.linkLimit (p.start cwd) p.parts

/-- The place where a path would make or take away an entry: the directory, the last component, and
whether slashes follow it. -/
structure Slot where
  directory : Location
  last : Component
  slash : Bool
deriving DecidableEq, Repr

def slot (d : Disk) (cwd : Location) (p : Path) : Except Fault Slot := do
  p.check
  let (before, last, slash) := p.splitLast
  let directory ← d.walk true Path.linkLimit (p.start cwd) before
  d.checkDirectory directory
  match last with
  | .name text => if text.utf8ByteSize > Path.nameLimit then .error .nameTooLong
  | _ => pure ()
  return ⟨directory, last, slash⟩

end Disk

end Recompile
