import Recompile.Directory.Remove

/-!
# Scratch directories

A scratch directory is made under the directory for temporary files, with a name that nothing there
has.
-/

namespace Recompile.Directory

/-- The directory for temporary files. -/
def temporary : Action Path := do
  let world ← get
  let directory : Path := ⟨(world.environment["TMPDIR"]?).getD "/tmp"⟩
  if directory.isAbsolute then return directory
  Action.query fun d cwd => d.checkDirectory cwd
  return world.cwd.toPath.join directory

/-- The name of a scratch directory: six letters count the names from `n = 0` on. -/
def scratchName (n : Nat) : String :=
  "tmp-incjc-" ++ String.ofList ((List.range 6).reverse.map fun i =>
    Char.ofNat ('a'.toNat + n / Nat.pow 26 i % 26))

/-- Makes a scratch directory under `parent` with the first name from the `n`-th on that is not
taken, trying at most `limit` names. -/
def makeScratchFrom (parent : Path) : (limit n : Nat) → Action Path
  | 0, _ => Action.failed (.faultAt .exists parent)
  | limit + 1, n => do
    let p := parent.push (scratchName n)
    match ← Action.attempt fun d cwd => d.makeDirectory cwd p with
    | .ok () => return p
    | .error .exists => makeScratchFrom parent limit (n + 1)
    | .error fault => Action.failed (.faultAt fault p)

def makeScratch : Action Path :=
  Action.within .creatingScratch do
    let parent ← temporary
    let limit := (← get).disk.entries.length + 1
    makeScratchFrom parent limit 0

/-- Removes a directory tree if that is possible. -/
def discard (directory : Path) : Action Unit :=
  tryCatch (removeTree directory) fun _ => return ()

end Recompile.Directory
