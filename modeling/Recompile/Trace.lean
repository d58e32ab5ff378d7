import Recompile.Path.Absolute
import Recompile.Text.Quoted

/-!
# Traces of the work

While a trace is open, each phase that ends adds one event to it, so that inner phases come before
the phase around them. Closing it adds an event for the whole time. A trace is written as an array
of events; all times are written as `0`.
-/

namespace Recompile

/-- An open trace: the file it goes to and the names of its events so far. -/
structure Trace where
  place : Location
  events : List String
deriving DecidableEq, Repr

namespace Trace

def eventText (name : String) : String :=
  "\x7b \"pid\": 0, \"name\": " ++ Text.quoted name ++ ", \"ts\": 0, \"ph\": \"X\", \"dur\": 0 \x7d"

def text (t : Trace) : String :=
  "[\n" ++ String.join (t.events.map fun name => eventText name ++ ",\n") ++ eventText "main" ++ "\n]\n"

end Trace

end Recompile
