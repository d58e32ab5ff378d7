/-!
# What a process does before its end

A process writes chunks of bytes to its two output streams and then ends, by itself with a code or
killed by a signal.
-/

namespace Recompile

inductive Stream where
  | out
  | err
deriving DecidableEq, Repr

structure Chunk where
  stream : Stream
  bytes : ByteArray

inductive Ending where
  | exited (code : Nat)
  | killed (signal : Nat)
deriving DecidableEq, Repr

structure Transcript where
  chunks : List Chunk
  ending : Ending

namespace Transcript

/-- Everything written to a stream, in order. -/
def written (t : Transcript) (stream : Stream) : ByteArray :=
  (t.chunks.filter fun c => c.stream = stream).foldl (fun all c => all ++ c.bytes) .empty

end Transcript

end Recompile
