import Recompile.CommandLine

/-!
# The program

The directories that a build may look at are read into a disk, the command line runs on it, and what
it has changed in the output directory, in the store and in the trace file is written back.
-/

namespace Recompile.Main

/-- The variables that the program looks at. -/
def variableNames : List String :=
  ["INCJC_META_ROOT", "HOME", "USERPROFILE", "JDK_HOME", "JAVA_HOME", "CLASSPATH", "INCJC_DEBUG",
   "INCJC_TRACE", "RUST_LOG", "TMPDIR", "PATH"]

def environment : IO Table := do
  variableNames.foldlM (fun t name => do
    match ← IO.getEnv name with
    | some value => return t.insert name value
    | none => return t) ∅

/-- The disk with a directory at a location and at every location above it. -/
def withDirectories (d : Disk) (l : Location) : Disk :=
  (List.range l.length).foldl (fun d i =>
    let above := l.take (i + 1)
    if (d.find? above).isSome then d else d.put above .directory) d

/-- Reads a directory and all below it into a disk. Links are left out. -/
def load : (limit : Nat) → Location → Disk → IO Disk
  | 0, _, d => return d
  | limit + 1, l, d => do
    let directory ← IO.FS.realPath l.toPath.text
    (← directory.readDir).foldlM (fun d e => do
      let here := l ++ [e.fileName]
      match (← e.path.symlinkMetadata).type with
      | .dir => load limit here d
      | .file => return d.put here (.file (← IO.FS.readBinFile e.path) true)
      | _ => return d) (withDirectories d l)

/-- How deep directories are read. -/
def depthLimit : Nat := 4096

def isRealDirectory (l : Location) : IO Bool :=
  try (← IO.FS.realPath l.toPath.text).isDir catch _ => return false

/-- Reads a directory if there is one, and notes the directories above it. -/
def loadIfThere (d : Disk) (l : Location) : IO Disk := do
  let d ← (List.range l.length).foldlM (fun d i => do
    if ← isRealDirectory (l.take i) then return withDirectories d (l.take i) else return d) d
  if ← isRealDirectory l then load depthLimit l d else return d

/-- The disk before any directory is read: the built-in programs and the places they need. -/
def startDisk (cwd : Location) (world : Table) : Disk :=
  let temporary := (Path.mk (world["TMPDIR"]?.getD "/tmp")).location cwd
  ([temporary, cwd].foldl withDirectories .empty).withPrograms

/-- The places that a build writes: the output directory, the store and the trace file. -/
def written (cwd : Location) (config : Config) (classpath sourceTree : Path) : List Location :=
  let store := Store.directoryOf config.storeRoot (sourceTree.absolute cwd)
  [classpath.location cwd, store.location cwd, (Store.stagingDirectory store).location cwd]
    ++ (config.tracePath.map fun p => p.location cwd).toList

/-- The places that a build only reads. -/
def consulted (cwd : Location) (config : Config) (sourceTree : Path) : List Location :=
  let libraries := ((config.jdk.extraClasspath.map (Text.fields ':')).getD []).map Path.mk
  let home := config.jdk.home.map fun home => home.push "bin"
  (sourceTree :: home.toList ++ libraries).map fun p => p.location cwd

/-- Removes what is gone or has become something else. -/
def removeOld (before after : Disk) (places : List Location) : IO Unit := do
  let old := before.entries.filter fun e => places.any fun top => top.covers e.1
  (old.mergeSort fun a b => b.1.length ≤ a.1.length).forM fun (l, entry) =>
    let keeps := match entry, after.find? l with
      | .directory, some .directory => true
      | .file .., some (.file ..) => true
      | _, _ => false
    if keeps then return ()
    else if entry.isDirectory then IO.FS.removeDir l.toPath.text
    else IO.FS.removeFile l.toPath.text

/-- Writes what is new or has changed. -/
def writeNew (before after : Disk) (places : List Location) : IO Unit := do
  let new := after.entries.filter fun e => places.any fun top => top.covers e.1
  (new.mergeSort fun a b => a.1.length ≤ b.1.length).forM fun (l, entry) =>
    match entry with
    | .directory => IO.FS.createDirAll l.toPath.text
    | .file bytes _ =>
      match before.find? l with
      | some (.file old _) =>
        if old.toList = bytes.toList then return () else IO.FS.writeBinFile l.toPath.text bytes
      | _ => IO.FS.writeBinFile l.toPath.text bytes
    | .link _ => return ()

/-- Runs the program in a world and shows what it has written. -/
def runIn (world : World) (arguments : List String) : IO (UInt32 × World) := do
  let (code, world) := (CommandLine.run "incjc" arguments).run world
  let out ← IO.getStdout
  let err ← IO.getStderr
  (CommandLine.shown world).forM fun e => err.putStrLn (e.level.name ++ " " ++ e.message)
  out.write world.out
  out.flush
  err.write world.err
  err.flush
  return (code.toUInt32, world)

def workingDirectory : IO Location := do
  return (Path.mk (← IO.currentDir).toString).location []

/-- Builds in the directories that the arguments name. -/
def build (arguments : List String) : IO UInt32 := do
  let environment ← environment
  let cwd ← workingDirectory
  let disk := startDisk cwd environment
  let config := Config.ofVariables fun name => environment[name]?
  match CommandLine.read arguments, config with
  | .build classpath sourceTree, .ok config => do
    let places := written cwd config classpath sourceTree
    let disk ← (places ++ consulted cwd config sourceTree).foldlM loadIfThere disk
    let (code, world) ← runIn (.start disk cwd environment) arguments
    removeOld disk world.disk places
    writeNew disk world.disk places
    return code
  | _, _ => return (← runIn (.start disk cwd environment) arguments).1

end Recompile.Main

def main (arguments : List String) : IO UInt32 := Recompile.Main.build arguments
