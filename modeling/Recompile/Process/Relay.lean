import Recompile.Process.Run

/-!
# Relaying what a command writes

A command writes into two pipes that hold only so much. Two pumps, one for each pipe, carry what is in
them to where the output is kept, until they meet its end. The caller waits for the command and then
for both pumps, and only then looks at the ending and adds its notice. Each of the four goes on
whenever it can, in any order.
-/

namespace Recompile.Relay

/-- Who takes a step. -/
inductive Party where
  | command
  | pump (stream : Stream)
  | caller
deriving DecidableEq, Repr

/-- What a pump is about to do. -/
inductive Pump where
  | reading
  | keeping (bytes : ByteArray)
  | finished

/-- A stream on its way from the command to where its bytes are kept. -/
structure Channel where
  /-- The command has not closed its end of the pipe. -/
  isOpen : Bool
  pipe : ByteArray
  pump : Pump
  kept : ByteArray

/-- What the caller is about to do. -/
inductive Caller where
  | waiting
  | joiningOut (ending : Ending)
  | joiningErr (ending : Ending)
  | reporting (ending : Ending)
  | returned (termination : Termination)
deriving DecidableEq, Repr

structure State where
  /-- What the command has still to write. -/
  unwritten : List Chunk
  /-- How the command has ended, once it has. -/
  ended : Option Ending
  channel : Stream → Channel
  caller : Caller

namespace State

def setChannel (s : State) (stream : Stream) (c : Channel) : State :=
  { s with channel := fun other => if other = stream then c else s.channel other }

end State

def Channel.start : Channel where
  isOpen := true
  pipe := .empty
  pump := .reading
  kept := .empty

/-- The command is about to write the chunks of the transcript; nothing is kept yet. -/
def start (t : Transcript) : State where
  unwritten := t.chunks
  ended := none
  channel _ := .start
  caller := .waiting

/-- The steps of the four parties. The command writes as much of a chunk as there is room for, closes a
stream when nothing is left to write to it, and ends in the given way when both are closed. -/
inductive Step (capacity : Stream → Nat) (ending : Ending) : Party → State → State → Prop
  | write {s : State} {stream : Stream} {piece more : ByteArray} {chunks : List Chunk}
      (next : s.unwritten = ⟨stream, piece ++ more⟩ :: chunks) (some : 0 < piece.size)
      (isOpen : (s.channel stream).isOpen = true)
      (room : (s.channel stream).pipe.size + piece.size ≤ capacity stream) :
      Step capacity ending .command s
        ({ s with unwritten := ⟨stream, more⟩ :: chunks }.setChannel stream
          { s.channel stream with pipe := (s.channel stream).pipe ++ piece })
  | written {s : State} {stream : Stream} {chunks : List Chunk}
      (next : s.unwritten = ⟨stream, .empty⟩ :: chunks) :
      Step capacity ending .command s { s with unwritten := chunks }
  | close {s : State} {stream : Stream} (isOpen : (s.channel stream).isOpen = true)
      (nothing : ∀ chunk ∈ s.unwritten, chunk.stream ≠ stream) :
      Step capacity ending .command s
        (s.setChannel stream { s.channel stream with isOpen := false })
  | finish {s : State} (running : s.ended = none) (nothing : s.unwritten = [])
      (closed : ∀ stream, (s.channel stream).isOpen = false) :
      Step capacity ending .command s { s with ended := some ending }
  | read {s : State} {stream : Stream} {taken left : ByteArray}
      (reading : (s.channel stream).pump = .reading)
      (pipe : (s.channel stream).pipe = taken ++ left) (some : 0 < taken.size) :
      Step capacity ending (.pump stream) s
        (s.setChannel stream { s.channel stream with pipe := left, pump := .keeping taken })
  | keep {s : State} {stream : Stream} {bytes : ByteArray}
      (keeping : (s.channel stream).pump = .keeping bytes) :
      Step capacity ending (.pump stream) s
        (s.setChannel stream { s.channel stream with
          pump := .reading, kept := (s.channel stream).kept ++ bytes })
  | meetEnd {s : State} {stream : Stream} (reading : (s.channel stream).pump = .reading)
      (nothing : (s.channel stream).pipe = .empty) (closed : (s.channel stream).isOpen = false) :
      Step capacity ending (.pump stream) s
        (s.setChannel stream { s.channel stream with pump := .finished })
  | wait {s : State} {e : Ending} (waiting : s.caller = .waiting) (ended : s.ended = some e) :
      Step capacity ending .caller s { s with caller := .joiningOut e }
  | joinOut {s : State} {e : Ending} (joining : s.caller = .joiningOut e)
      (finished : (s.channel .out).pump = .finished) :
      Step capacity ending .caller s { s with caller := .joiningErr e }
  | joinErr {s : State} {e : Ending} (joining : s.caller = .joiningErr e)
      (finished : (s.channel .err).pump = .finished) :
      Step capacity ending .caller s { s with caller := .reporting e }
  | report {s : State} {e : Ending} (reporting : s.caller = .reporting e) :
      Step capacity ending .caller s
        ({ s with caller := .returned e.termination }.setChannel .err
          { s.channel .err with kept := (s.channel .err).kept ++ e.notice.toUTF8 })

/-- A run of so many steps from the start. -/
inductive Run (capacity : Stream → Nat) (t : Transcript) : Nat → State → Prop
  | start : Run capacity t 0 (start t)
  | step {n : Nat} {party : Party} {s s' : State} (run : Run capacity t n s)
      (next : Step capacity t.ending party s s') : Run capacity t (n + 1) s'

end Recompile.Relay
