import Recompile.Failure

/-!
# Paths from bytes

The operating system gives paths as bytes; only those that are UTF-8 can be recorded.
-/

namespace Recompile.Path

def ofBytes (bytes : ByteArray) : Except Failure Path :=
  match Text.decode bytes with
  | .ok text => .ok ⟨text⟩
  | .error _ => .error (Cause.badPath (Text.quotedBytes bytes))

end Recompile.Path
