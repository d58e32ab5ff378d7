import Recompile.Directory.Remove
import Recompile.Store.Basic
import Recompile.Store.Row

/-!
# Stores on disk

On disk a store is a directory with three tables; it counts as a store only when all three are
there. A store is saved beside its directory first and then moved into its place, so that an
interrupted save leaves the old store or none.
-/

namespace Recompile.Store

def classesTable (directory : Path) : Path := directory.push "classes.txt"

def sourcesTable (directory : Path) : Path := directory.push "sources.txt"

def dependenciesTable (directory : Path) : Path := directory.push "deps.txt"

def tables (directory : Path) : List Path :=
  [classesTable directory, sourcesTable directory, dependenciesTable directory]

/-- Whether there is a complete store. -/
def isAt (d : Disk) (cwd : Location) (directory : Path) : Bool :=
  d.isDirectory cwd directory && (tables directory).all (d.isFile cwd)

/-- Puts an empty store in the place of whatever is there. -/
def reset (directory : Path) : Action Unit :=
  Action.within (.initializingStore directory) do
    Directory.removeAny directory
    Directory.create directory
    (tables directory).forM fun table =>
      Action.change fun d cwd => d.writeFile cwd table .empty

def readTable (table : Path) (cut : Cut) : Action (List (String × String)) := do
  let text ← Action.within (.readingTable table) (Action.readText table)
  match readRows cut text with
  | .ok rows => return rows
  | .error line => Action.failed (.malformedLine table line)

def writeTable (table : Path) (rows : List (String × String)) : Action Unit :=
  Action.within (.writingTable table)
    (Action.change fun d cwd => d.writeFile cwd table (writeRows rows).toUTF8)

/-- The table with the given rows; of two rows with one key the later one counts. -/
def ofRows (rows : List (String × String)) : Table :=
  rows.foldl (fun t row => t.insert row.1 row.2) ∅

def load (directory : Path) : Action Store := do
  let classes ← readTable (classesTable directory) .first
  let sources ← readTable (sourcesTable directory) .last
  let edges ← readTable (dependenciesTable directory) .first
  return ⟨directory, ofRows sources, ofRows classes, Graph.ofEdges edges⟩

/-- Where a store is written before it is moved into its place. -/
def stagingDirectory (directory : Path) : Path := ⟨directory.text ++ ".tmp"⟩

def save (s : Store) : Action Unit := do
  let staging := stagingDirectory s.directory
  reset staging
  writeTable (classesTable staging) s.classes.toList
  writeTable (sourcesTable staging) s.sources.toList
  writeTable (dependenciesTable staging) s.dependencies.sortedEdges
  Action.within (.removing s.directory) (Directory.removeAny s.directory)
  Action.within (.savingStore s.directory)
    (Action.change fun d cwd => d.rename cwd staging s.directory)

end Recompile.Store
