/-!
# Log events

An event has a level, the part of the program it comes from, and a message.
-/

namespace Recompile.Log

/-- Levels in the order of growing detail. -/
inductive Level where
  | error | warn | info | debug | trace
deriving DecidableEq, Repr

namespace Level

def detail : Level → Nat
  | error => 1
  | warn => 2
  | info => 3
  | debug => 4
  | trace => 5

def name : Level → String
  | error => "ERROR"
  | warn => "WARN"
  | info => "INFO"
  | debug => "DEBUG"
  | trace => "TRACE"

end Level

structure Event where
  level : Level
  target : String
  message : String
deriving DecidableEq, Repr

end Recompile.Log
