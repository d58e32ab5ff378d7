import Recompile.Directory.Create

/-!
# Removing what is at a path

Links are removed as links: what they stand for stays. Cleaning a directory removes all that is in
it, and makes it if it is missing.
-/

namespace Recompile.Directory

/-- Removes a directory with all that is in it, or a link. -/
def removeTree (p : Path) : Action Unit := do
  match ← Action.query fun d cwd => d.lookAt cwd p with
  | .link _ => Action.change fun d cwd => d.removeFile cwd p
  | .file .. => Action.failed (.fault .notDirectory)
  | .directory =>
    Action.change fun d cwd => return d.clear (← d.resolve cwd false p)
    match ← Action.attempt fun d cwd => d.removeDirectory cwd p with
    | .ok () | .error .noEntry => return ()
    | .error fault => Action.failed (.fault fault)

/-- Removes a file, a link or a directory tree; nothing to remove is fine. -/
def removeAny (p : Path) : Action Unit := do
  match ← Action.ask fun d cwd => d.lookAt cwd p with
  | .ok .directory => removeTree p
  | .ok _ => Action.change fun d cwd => d.removeFile cwd p
  | .error .noEntry => return ()
  | .error fault => Action.failed (.fault fault)

/-- Makes `directory` an existing directory with nothing in it. -/
def clean (directory : Path) : Action Unit := do
  match ← Action.ask fun d cwd => d.look cwd directory with
  | .ok .directory =>
    let entries ← Action.within (.cleaning directory)
      (Action.query fun d cwd => d.readDirectory cwd directory)
    entries.forM fun e =>
      let p := directory.push e.1
      Action.within (.removing p) (removeAny p)
  | .ok _ => Action.failed (.classpathNotDirectory directory)
  | .error .noEntry => Action.within (.creating directory) (create directory)
  | .error fault => Action.within (.looking directory) (Action.failed (.fault fault))

end Recompile.Directory
