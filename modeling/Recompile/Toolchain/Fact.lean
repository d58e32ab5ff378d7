import Recompile.Path.Basic
import Recompile.Table

/-!
# Facts about compiled classes

What is known about one compiled class: its name, its source relative to the source tree, and the
classes it refers to. A collection of facts holds one fact for each class name.
-/

namespace Recompile

structure ClassFact where
  className : String
  source : Path
  dependencies : Names

abbrev Facts := Std.ExtTreeMap String ClassFact

namespace Facts

/-- The facts by class name; of two facts about one class the later one stays. -/
def ofList (facts : List ClassFact) : Facts :=
  facts.foldl (fun known fact => known.insert fact.className fact) ∅

end Facts

end Recompile
