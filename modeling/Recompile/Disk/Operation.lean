import Recompile.Disk.Resolve

/-!
# Operations on a disk

Each operation acts on the disk as a whole: it answers with a fault and leaves the disk alone, or
with the disk afterwards. Paths are read from a working directory.
-/

namespace Recompile.Disk

variable (d : Disk) (cwd : Location) (p : Path)

/-- What a path leads to. -/
def look : Except Fault Entry := do
  match d.find? (← d.resolve cwd true p) with
  | some entry => .ok entry
  | none => .error .noEntry

/-- What stands at a path, a link included. -/
def lookAt : Except Fault Entry := do
  match d.find? (← d.resolve cwd false p) with
  | some entry => .ok entry
  | none => .error .noEntry

def isDirectory : Bool :=
  match d.look cwd p with
  | .ok entry => entry.isDirectory
  | .error _ => false

def isFile : Bool :=
  match d.look cwd p with
  | .ok entry => entry.isFile
  | .error _ => false

def readDirectory : Except Fault (List (String × Entry)) := do
  let l ← d.resolve cwd true p
  d.checkDirectory l
  return d.children l

def readFile : Except Fault ByteArray := do
  match ← d.look cwd p with
  | .file bytes _ => .ok bytes
  | _ => .error .isDirectory

/-- Makes a file empty, and new if there is none; gives its location. -/
def createFile : Except Fault (Location × Disk) := do
  let slot ← d.slot cwd p
  match slot.last, slot.slash with
  | .name _, false =>
    let l ← d.resolve cwd true p
    match d.find? l with
    | some (.file _ runnable) => .ok (l, d.put l (.file .empty runnable))
    | some _ => .error .isDirectory
    | none => .ok (l, d.put l (.file .empty false))
  | _, _ => .error .isDirectory

/-- Puts bytes into the file at a location; without a file there nothing happens. -/
def fill (l : Location) (bytes : ByteArray) : Disk :=
  match d.find? l with
  | some (.file _ runnable) => d.put l (.file bytes runnable)
  | _ => d

def writeFile (bytes : ByteArray) : Except Fault Disk := do
  let (l, d) ← d.createFile cwd p
  return d.fill l bytes

def setRunnable (runnable : Bool) : Except Fault Disk := do
  let l ← d.resolve cwd true p
  match d.find? l with
  | some (.file bytes _) => .ok (d.put l (.file bytes runnable))
  | some _ => .ok d
  | none => .error .noEntry

def makeDirectory : Except Fault Disk := do
  let slot ← d.slot cwd p
  match slot.last with
  | .name text =>
    let l := slot.directory ++ [text]
    if (d.find? l).isSome then .error .exists else .ok (d.put l .directory)
  | _ => .error .exists

def makeLink (target : Path) : Except Fault Disk := do
  target.check
  let slot ← d.slot cwd p
  match slot.last with
  | .name text =>
    let l := slot.directory ++ [text]
    if (d.find? l).isSome then .error .exists
    else if slot.slash then .error .noEntry
    else .ok (d.put l (.link target))
  | _ => .error .exists

/-- Removes a file or a link. -/
def removeFile : Except Fault Disk := do
  let slot ← d.slot cwd p
  match slot.last with
  | .name text =>
    let l := slot.directory ++ [text]
    match d.find? l with
    | none => .error .noEntry
    | some .directory => .error .isDirectory
    | some _ => if slot.slash then .error .notDirectory else .ok (d.erase l)
  | _ => .error .isDirectory

/-- Removes an empty directory. -/
def removeDirectory : Except Fault Disk := do
  let slot ← d.slot cwd p
  match slot.last with
  | .name text =>
    let l := slot.directory ++ [text]
    match d.find? l with
    | none => .error .noEntry
    | some .directory => if (d.children l).isEmpty then .ok (d.erase l) else .error .notEmpty
    | some _ => .error .notDirectory
  | .here => .error .invalid
  | .up => .error .notEmpty
  | .root => .error .busy

/-- Moves what stands at a path. A file replaces a file, a directory an empty directory. -/
def rename (target : Path) : Except Fault Disk := do
  let old ← d.slot cwd p
  let new ← d.slot cwd target
  match old.last, new.last with
  | .name oldName, .name newName =>
    let source := old.directory ++ [oldName]
    let target := new.directory ++ [newName]
    match d.find? source with
    | none => .error .noEntry
    | some entry =>
      if !entry.isDirectory && (old.slash || new.slash) then .error .notDirectory
      else if source = target then .ok d
      else if source.covers target then .error .invalid
      else if target.covers source then .error .notEmpty
      else
        match d.find? target with
        | none => .ok (d.move source target)
        | some .directory =>
          if !entry.isDirectory then .error .isDirectory
          else if (d.children target).isEmpty then .ok (d.move source target)
          else .error .notEmpty
        | some _ => if entry.isDirectory then .error .notDirectory else .ok (d.move source target)
  | _, _ => .error .busy

end Recompile.Disk
