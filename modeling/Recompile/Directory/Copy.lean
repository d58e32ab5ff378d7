import Recompile.World

/-!
# Copying a file

The target is made empty before the first byte is read, so a file copied onto itself ends empty. The
copy can be run if the source can.
-/

namespace Recompile

/-- The file that `source` names, copied into the file at `target`, which it replaces. -/
def Disk.transfer (d : Disk) (source target : Location) (runnable : Bool) : Disk :=
  match d.find? source with
  | some (.file bytes _) => d.put target (.file bytes runnable)
  | _ => d

namespace Directory

def copyFile (source target : Path) : Action Unit := do
  match ← Action.query fun d cwd => d.look cwd source with
  | .file _ runnable =>
    let sourcePlace ← Action.query fun d cwd => d.resolve cwd true source
    let (targetPlace, disk) ← Action.query fun d cwd => d.createFile cwd target
    modify fun world => { world with disk := disk.transfer sourcePlace targetPlace runnable }
  | _ => Action.failed .notFile

end Directory

end Recompile
