import Recompile.Changes
import Recompile.Directory.Find
import Recompile.Staging
import Recompile.Store.Files
import Recompile.Store.Key
import Recompile.Toolchain.Basic

/-!
# Builds

A build makes the class files of a source tree current. Without a store for the tree everything is
compiled straight into the output directory. With one, only the changed sources and what depends on
them are compiled, into a scratch directory against a copy of the class files that stay; the store
and the output directory are changed only after the compiler has succeeded.
-/

namespace Recompile

/-- How a build ends. -/
inductive Outcome where
  | noSources
  | upToDate
  | compiled (count : Nat)
  | compileFailed
deriving DecidableEq, Repr

namespace Outcome

def success (o : Outcome) : Bool := o != compileFailed

end Outcome

namespace Build

def log (level : Log.Level) (message : String) : Action Unit :=
  Action.log level "incjc::build" message

/-- Records new digests and the facts about every class file of a class directory. -/
def recordClasses (tools : Toolchain) (store : Store) (sourceTree : Path) (digests : Table)
    (classDirectory : Path) : Action (Store × List ClassFact) := do
  let store := store.addSources digests
  let classFiles := Path.sorted (← Directory.findClassFiles classDirectory)
  let facts ← Action.phase "examine" (tools.runExaminer classFiles)
  Action.logAll (store.recordLog sourceTree facts)
  return (store.record sourceTree facts, facts)

/-- What a build works on: all sources of a tree, which is compiled into a directory. -/
structure Target where
  output : Path
  sourceTree : Path
  sources : Names

/-- Finds the sources of a tree. -/
def locate (output sourceTree : Path) : Action Target := do
  let output ← Action.within .resolvingClasspath (Action.absolute output)
  let sourceTree ← Action.within .resolvingSources (Action.absolute sourceTree)
  return ⟨output, sourceTree, .ofList ((← Directory.findSources sourceTree).map Path.text)⟩

/-- Compiles every source into the cleaned output directory. The answer is the digests of all
sources, or nothing if the compiler rejects them. -/
def compileAll (tools : Toolchain) (t : Target) : Action (Option Table) := do
  Directory.clean t.output
  let changes ← Action.phase "detect" (Changes.detect t.sources ∅)
  if ← Action.phase "compile" (tools.runCompiler t.sources.toList t.output t.output) then
    return some changes.changed
  else return none

/-- Begins a store with the facts about all class files of the output directory. -/
def recordAll (tools : Toolchain) (t : Target) (digests : Table) (storeAt : Path) :
    Action Unit := do
  Store.reset storeAt
  let (store, _) ← recordClasses tools (.new storeAt) t.sourceTree digests t.output
  Action.phase "save" store.save

/-- Tells that there is no store. -/
def announceFull (storeAt : Path) : Action Unit :=
  Action.print ("No meta information found in " ++ storeAt.text ++ ". Recompiling all sources.\n")

def full (tools : Toolchain) (t : Target) (storeAt : Path) : Action Outcome := do
  match ← compileAll tools t with
  | none => return .compileFailed
  | some digests =>
    recordAll tools t digests storeAt
    log .info "full build done"
    return .compiled t.sources.toList.length

/-- What a build with a store has to do. -/
structure Plan where
  /-- The sources to compile. -/
  recompile : Names
  /-- The classes whose sources are to be compiled or are gone. -/
  stale : Names

def plan (store : Store) (changes : Changes) (affected : Names) : Plan :=
  let recompile := (affected ∪ changes.seeds).filter fun source => !changes.deleted.contains source
  ⟨recompile, store.classesOf (recompile ∪ changes.deleted)⟩

/-- The classes that a plan leaves alone. -/
def unaffected (store : Store) (p : Plan) : List String :=
  store.classes.keys.filter fun className => !p.stale.contains className

/-- The store without the stale classes of a plan and without the deleted sources. -/
def strip (store : Store) (p : Plan) (deleted : Names) : Store :=
  (store.deleteClasses p.stale).deleteSources deleted

/-- What a build with a store has made ready, before it changes the store or the output directory. -/
inductive Ready where
  | nothing
  /-- Sources are gone and nothing has to be compiled. -/
  | pruned (store : Store) (stale : Names)
  | rejected
  /-- The destination of the workspace holds the classes that are `produced`. -/
  | compiled (w : Staging.Workspace) (store : Store) (stale produced : Names) (count : Nat)

/-- Compiles in a workspace, which stays if the compiler accepts the sources. -/
def compileIn (tools : Toolchain) (w : Staging.Workspace) (store : Store) (changes : Changes)
    (p : Plan) (sourceTree : Path) : Action Ready := do
  let list := p.recompile.toList
  if ← Action.phase "compile" (tools.runCompiler list w.classpath w.destination) then
    let (store, facts) ← recordClasses tools (strip store p changes.deleted) sourceTree
      changes.changed w.destination
    return .compiled w store p.stale (.ofList (facts.map ClassFact.className)) list.length
  else
    w.discard
    return .rejected

/-- Everything up to the point of no return: neither the store nor the output directory changes. -/
def prepare (tools : Toolchain) (t : Target) (storeAt : Path) : Action Ready := do
  let store ← Store.load storeAt
  let changes ← Action.phase "detect" (Changes.detect t.sources store.sources)
  let affected ← Action.phase "closure" do
    Action.logAll (store.affectedLog changes.seeds)
    Action.ofExcept (store.affectedSources changes.seeds)
  let p := plan store changes affected
  if p.recompile.isEmpty then
    if changes.deleted.isEmpty then return .nothing
    else
      log .debug "pruning deleted sources"
      return .pruned (strip store p changes.deleted) p.stale
  else
    Action.print ("Sources to compile:\n" ++ "\n".intercalate p.recompile.toList ++ "\n")
    let w ← Action.phase "stage" (Staging.Workspace.stage t.output (unaffected store p))
    Action.undoing w.discard (compileIn tools w store changes p t.sourceTree)

/-- Saves what was made ready and publishes it in the output directory. -/
def commit (output : Path) : Ready → Action Outcome
  | .nothing => do
    Action.print "Nothing to compile.\n"
    return .upToDate
  | .pruned store stale => do
    Action.phase "save" store.save
    Staging.deleteClassFiles output stale.toList
    Action.print "Nothing to compile.\n"
    return .upToDate
  | .rejected => return .compileFailed
  | .compiled w store stale produced count => Action.finishing w.discard do
    Action.phase "save" store.save
    Action.phase "publish" do
      Staging.deleteClassFiles output stale.toList
      Staging.copyClassFiles w.destination output produced.toList
    log .info "incremental build done"
    return .compiled count

/-- What a build has found to do, before it changes anything that stays. -/
inductive Job where
  | empty
  | full (t : Target) (storeAt : Path)
  | incremental (output : Path) (ready : Ready)

/-- Finds out what there is to do. With a store, everything up to the point of no return is done. -/
def survey (tools : Toolchain) (storeRoot output sourceTree : Path) : Action Job := do
  let t ← locate output sourceTree
  if t.sources.isEmpty then return .empty
  log .debug "all sources"
  let storeAt := Store.directoryOf storeRoot t.sourceTree
  let world ← get
  if Store.isAt world.disk world.cwd storeAt then
    return .incremental t.output (← prepare tools t storeAt)
  else return .full t storeAt

def carryOut (tools : Toolchain) : Job → Action Outcome
  | .empty => do
    Action.print "No sources found.\n"
    return .noSources
  | .full t storeAt => do
    announceFull storeAt
    full tools t storeAt
  | .incremental output ready => commit output ready

/-- Builds every source below `sourceTree` into `output`. -/
def run (tools : Toolchain) (storeRoot output sourceTree : Path) : Action Outcome := do
  carryOut tools (← survey tools storeRoot output sourceTree)

end Build

end Recompile
