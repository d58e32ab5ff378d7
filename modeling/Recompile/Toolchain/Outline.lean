import Recompile.ClassName
import Recompile.Directory.Create
import Recompile.Text.Blank
import Recompile.Text.Lines
import Recompile.Toolchain.Basic

/-!
# A toolchain for outlines

An outline is a source that only says which classes it declares and which it uses, one on a line:
`class A`, `class A as B` for a class whose file is that of `B`, and `uses A`. The lines `error`,
`crash` and `exfail` make the compiler reject it, the compiler fail, and the examiner fail. What the
compiler writes depends on the declaring source alone.
-/

namespace Recompile

structure Outline where
  /-- Each declared class and the class whose file it is written to. -/
  classes : List (String × String)
  uses : List String
  rejected : Bool
  crashes : Bool
  unreadable : Bool
deriving DecidableEq, Repr

namespace Outline

def empty : Outline := ⟨[], [], false, false, false⟩

def addLine (o : Outline) (line : String) : Outline :=
  match Text.after? "class " line, Text.after? "uses " line with
  | some declaration, _ =>
    let (name, file) := (Text.cutFirst? " as " declaration).getD (declaration, declaration)
    { o with classes := o.classes ++ [(Text.trim name, Text.trim file)] }
  | none, some name => { o with uses := o.uses ++ [Text.trim name] }
  | none, none =>
    match Text.trim line with
    | "error" => { o with rejected := true }
    | "crash" => { o with crashes := true }
    | "exfail" => { o with unreadable := true }
    | _ => o

def parse (text : String) : Outline := (Text.lines text).foldl addLine empty

/-- The source of a class as its class file tells it: the package as a directory, and the name of
the source file. -/
def sourceText (className file : String) : String :=
  match Text.cutLast? "." className with
  | none => file
  | some (package, _) => Text.unfields '/' (Text.fields '.' package) ++ "/" ++ file

/-- The class file of a declared class. -/
def classFile (o : Outline) (file className : String) : String :=
  "source " ++ sourceText className file ++ "\n" ++ "class " ++ className ++ "\n"
    ++ String.join (o.uses.map fun name => "uses " ++ name ++ "\n")
    ++ (if o.unreadable then "exfail\n" else "")

/-- Whether every name that the outline uses is declared or has a class file. -/
def resolves (o : Outline) (declared : List String) (classpath : Path) (d : Disk)
    (cwd : Location) : Bool :=
  o.uses.all fun name =>
    declared.contains name || d.isFile cwd (classpath.join (ClassName.artifact name))

/-- Whether all outlines can be compiled together; the first one that cannot decides. -/
def accepts (declared : List String) (classpath : Path) (d : Disk) (cwd : Location) :
    List Outline → Except Failure Bool
  | [] => .ok true
  | o :: rest =>
    if o.crashes then .error (Cause.tool "compiler crashed")
    else if o.rejected || !o.resolves declared classpath d cwd then .ok false
    else accepts declared classpath d cwd rest

def writeClass (o : Outline) (file : String) (destination : Path) (declared : String × String) :
    Action Unit := do
  let target := destination.join (ClassName.artifact declared.2)
  match target.parent with
  | some directory => Directory.create directory
  | none => pure ()
  Action.change fun d cwd => d.writeFile cwd target (o.classFile file declared.1).toUTF8

def compile (sources : List String) (classpath destination : Path) : Action Bool := do
  let outlines ← sources.mapM fun source => do return (source, parse (← Action.readText ⟨source⟩))
  let declared := outlines.flatMap fun o => o.2.classes.map Prod.fst
  let world ← get
  if ← Action.ofExcept
      (accepts declared classpath world.disk world.cwd (outlines.map Prod.snd)) then
    outlines.forM fun (source, o) =>
      let file := ((Path.mk source).fileName).getD ""
      o.classes.forM (o.writeClass file destination)
    return true
  else return false

/-- The fact that a class file tells; none if it cannot be examined. -/
def addFactLine (fact : ClassFact) (line : String) : Option ClassFact :=
  if line = "exfail" then none
  else
    match Text.after? "source " line, Text.after? "class " line, Text.after? "uses " line with
    | some source, _, _ => some { fact with source := ⟨source⟩ }
    | none, some name, _ => some { fact with className := name }
    | none, none, some name =>
      some { fact with dependencies := fact.dependencies.insert name }
    | none, none, none => some fact

def examine (classFiles : List Path) : Action (List ClassFact) :=
  classFiles.mapM fun file => do
    match (Text.lines (← Action.readText file)).foldlM addFactLine ⟨"", ⟨""⟩, ∅⟩ with
    | some fact => return fact
    | none => Action.failed (.tool "examiner failed")

def toolchain : Toolchain := ⟨compile, examine⟩

end Outline

end Recompile
