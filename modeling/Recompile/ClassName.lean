import Recompile.Path.Name

/-!
# Names of classes and the files they stand for

The segments of a class name between its dots are directories and the last one is the file of the
class; the segments before the last are its package, the directory of its source as well.
-/

namespace Recompile.ClassName

/-- The file of a class below a class directory. -/
def artifact (className : String) : Path :=
  ((Text.fields '.' className).foldl Path.push ⟨""⟩).withExtension "class"

/-- The source of a class below a source directory, given the name of its file. -/
def source (className file : String) : Path :=
  let package := match Text.cutLast? "." className with
    | none => []
    | some (package, _) => Text.fields '.' package
  (package.foldl Path.push ⟨""⟩).push file

end Recompile.ClassName
