import Recompile.Failure
import Recompile.Graph.Closure
import Recompile.Toolchain.Fact

/-!
# The store of a source tree

A store holds what the last successful build of a source tree saw: the digest of each source, the
source of each class, and the dependencies between these classes.
-/

namespace Recompile

structure Store where
  directory : Path
  /-- The digest of each source. -/
  sources : Table
  /-- The source of each class. -/
  classes : Table
  dependencies : Graph

namespace Store

def new (directory : Path) : Store := ⟨directory, ∅, ∅, ∅⟩

def addSources (s : Store) (digests : Table) : Store := { s with sources := s.sources ∪ digests }

def deleteSources (s : Store) (gone : Names) : Store :=
  { s with sources := s.sources.filter fun source _ => !gone.contains source }

/-- Forgets classes and every dependency that touches one of them. -/
def deleteClasses (s : Store) (gone : Names) : Store :=
  { s with
    classes := s.classes.filter fun className _ => !gone.contains className
    dependencies := gone.toList.foldl Graph.purge s.dependencies }

def recordSource (sourceTree : Path) (classes : Table) (fact : ClassFact) : Table :=
  classes.insert fact.className (sourceTree.join fact.source).text

/-- Adds the dependencies of one class on classes that are known. -/
def recordDependencies (classes : Table) (g : Graph) (fact : ClassFact) : Graph :=
  (fact.dependencies.toList.filter fun name => classes.contains name).foldl
    (fun g name => g.addEdge name fact.className) g

/-- Records the facts of one compilation. All their classes are known before the first dependency
is recorded, so the order of the facts does not matter to dependencies between them. -/
def record (s : Store) (sourceTree : Path) (facts : List ClassFact) : Store :=
  let classes := facts.foldl (recordSource sourceTree) s.classes
  { s with classes, dependencies := facts.foldl (recordDependencies classes) s.dependencies }

/-- The events of recording facts: one for each dependency on an unknown class. -/
def recordLog (s : Store) (sourceTree : Path) (facts : List ClassFact) : List Log.Event :=
  let classes := (s.record sourceTree facts).classes
  facts.flatMap fun fact =>
    (fact.dependencies.toList.filter fun name => !classes.contains name).map fun _ =>
      ⟨.debug, "incjc::meta", "ignoring external dependency"⟩

/-- The classes of some sources. -/
def classesOf (s : Store) (sources : Names) : Names :=
  .ofList (s.classes.filter fun _ source => sources.contains source).keys

/-- The classes that must be compiled again when some sources change. -/
def affectedClasses (s : Store) (changed : Names) : Names :=
  s.dependencies.closure (s.classesOf changed).toList fun name => s.classes.contains name

def sourceOf (s : Store) (className : String) : Except Failure String :=
  match s.classes[className]? with
  | some source => .ok source
  | none => .error (Cause.classWithoutSource className)

/-- The sources of the classes that must be compiled again when some sources change. -/
def affectedSources (s : Store) (changed : Names) : Except Failure Names := do
  return .ofList (← (s.affectedClasses changed).toList.mapM s.sourceOf)

def affectedLog (s : Store) (changed : Names) : List Log.Event :=
  s.dependencies.closureLog (s.classesOf changed).toList fun name => s.classes.contains name

end Store

end Recompile
