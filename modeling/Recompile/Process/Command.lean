/-!
# Commands

A program and the arguments that it is given. `line` shows a command in messages, without quoting.
-/

namespace Recompile

structure Command where
  program : String
  arguments : List String
deriving DecidableEq, Repr

namespace Command

def line (c : Command) : String := " ".intercalate (c.program :: c.arguments)

end Command

end Recompile
