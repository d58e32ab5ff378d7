import Recompile.Disk.Fault
import Recompile.Path.Basic
import Recompile.Text.Quoted

/-!
# Failures

A failure has a cause and the steps in which it arose, the outermost first. Its message joins the
texts of the steps and of the cause by `": "`.
-/

namespace Recompile

/-- A step of the work in which something can fail. -/
inductive Step where
  | resolvingClasspath
  | resolvingSources
  | findingSources
  | findingClassFiles (directory : Path)
  | readingDirectory (directory : Path)
  | hashing (file : Path)
  | looking (path : Path)
  | cleaning (directory : Path)
  | creating (directory : Path)
  | removing (path : Path)
  | copyingClass (source target : Path)
  | deletingClass (file : Path)
  | readingTable (file : Path)
  | writingTable (file : Path)
  | initializingStore (directory : Path)
  | savingStore (directory : Path)
  | creatingScratch
  | spawning (command : String)
  | readingOutput (command : String)
  | openingTrace (file : Path)
  | writingTrace
deriving DecidableEq, Repr

namespace Step

def text : Step → String
  | resolvingClasspath => "resolve classpath"
  | resolvingSources => "resolve source directory"
  | findingSources => "find source files"
  | findingClassFiles directory => "find class files in " ++ directory.text
  | readingDirectory directory => "read dir " ++ directory.text
  | hashing file => "hash " ++ file.text
  | looking path => "stat " ++ path.text
  | cleaning directory => "clean " ++ directory.text
  | creating directory => "create " ++ directory.text
  | removing path => "remove " ++ path.text
  | copyingClass source target => "copy class from " ++ source.text ++ " to " ++ target.text
  | deletingClass file => "delete class file " ++ file.text
  | readingTable file => "read metadata " ++ file.text
  | writingTable file => "write metadata " ++ file.text
  | initializingStore directory => "initialize metadata directory " ++ directory.text
  | savingStore directory => "save metadata to " ++ directory.text
  | creatingScratch => "create temporary directory"
  | spawning command => "spawn " ++ command
  | readingOutput command => "output of " ++ command ++ " is not utf-8"
  | openingTrace file => "open trace " ++ file.text
  | writingTrace => "write trace"

end Step

inductive Cause where
  | fault (fault : Fault)
  /-- A fault that names the path it is about. -/
  | faultAt (fault : Fault) (path : Path)
  /-- The source of a copy is not a file. -/
  | notFile
  /-- A file that is read as text is not UTF-8. -/
  | notText
  /-- Captured output is not UTF-8. -/
  | badOutput (error : Text.Utf8Error)
  | badPath (quoted : String)
  | classpathNotDirectory (path : Path)
  | malformedLine (table : Path) (line : Nat)
  | classNotFound (className : String)
  | classWithoutSource (className : String)
  | noHome
  | commandFailed (command : String)
  | commandInterrupted (command : String)
  /-- What a tool says about itself. -/
  | tool (message : String)
deriving DecidableEq, Repr

namespace Cause

def text : Cause → String
  | fault f => f.message
  | faultAt f path => f.message ++ " at path " ++ Text.quoted path.text
  | notFile => "the source path is neither a regular file nor a symlink to a regular file"
  | notText => "stream did not contain valid UTF-8"
  | badOutput error => error.message
  | badPath quoted => "path is not valid unicode: " ++ quoted
  | classpathNotDirectory path => "classpath provided is not a directory: " ++ path.text
  | malformedLine table line => table.text ++ ":" ++ toString line ++ ": malformed metadata line"
  | classNotFound className => "internal error; class not found: " ++ className
  | classWithoutSource className =>
    "internal error; class " ++ className ++ " has no recorded source"
  | noHome => "cannot locate home directory; set HOME or INCJC_META_ROOT"
  | commandFailed command => command ++ " failed"
  | commandInterrupted command => command ++ " interrupted"
  | tool message => message

end Cause

structure Failure where
  steps : List Step
  cause : Cause
deriving DecidableEq, Repr

namespace Failure

def message (f : Failure) : String :=
  ": ".intercalate (f.steps.map Step.text ++ [f.cause.text])

/-- The failure as it is seen from an enclosing step. -/
def within (step : Step) (f : Failure) : Failure := { f with steps := step :: f.steps }

end Failure

instance : Coe Cause Failure := ⟨fun cause => ⟨[], cause⟩⟩

instance : Coe Fault Failure := ⟨fun fault => ⟨[], .fault fault⟩⟩

end Recompile
