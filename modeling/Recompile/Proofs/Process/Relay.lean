import Mathlib.Tactic.Common
import Recompile.Process.Relay

/-!
# Everything a command writes is relayed

In every state of a run, what is kept of a stream, what its pump holds, what is in its pipe and what
the command has still to write to it are together what the command writes to it. A pump finishes
only behind the end of its pipe and the caller reports only after both, so nothing is missing and
nothing comes after the notice. As long as the caller has not returned some party can take a step,
and every step leaves less to do, so each run ends with the return.
-/

namespace Recompile.Relay

variable {capacity : Stream → ℕ} {t : Transcript} {s s' : State} {party : Party}

/-! ## One channel at a time -/

@[simp] theorem channel_setChannel_self (s : State) (stream : Stream) (c : Channel) :
    (s.setChannel stream c).channel stream = c := if_pos rfl

theorem channel_setChannel_of_ne (s : State) {stream other : Stream} (h : other ≠ stream)
    (c : Channel) : (s.setChannel stream c).channel other = s.channel other := if_neg h

@[simp] theorem unwritten_setChannel (s : State) (stream : Stream) (c : Channel) :
    (s.setChannel stream c).unwritten = s.unwritten := rfl

@[simp] theorem ended_setChannel (s : State) (stream : Stream) (c : Channel) :
    (s.setChannel stream c).ended = s.ended := rfl

@[simp] theorem caller_setChannel (s : State) (stream : Stream) (c : Channel) :
    (s.setChannel stream c).caller = s.caller := rfl

/-- What holds of the new channel and held of the others holds of all. -/
theorem forall_setChannel {P : Stream → Channel → Prop} {stream : Stream} {c : Channel}
    (hall : ∀ other, other ≠ stream → P other (s.channel other)) (hc : P stream c)
    (other : Stream) : P other ((s.setChannel stream c).channel other) := by
  by_cases h : other = stream
  · subst h
    rwa [channel_setChannel_self]
  · rw [channel_setChannel_of_ne s h]
    exact hall other h

/-! ## What is on its way -/

/-- The bytes that chunks hold for a stream. -/
def pending : List Chunk → Stream → ByteArray
  | [], _ => .empty
  | chunk :: chunks, stream =>
    if chunk.stream = stream then chunk.bytes ++ pending chunks stream else pending chunks stream

theorem foldl_append_bytes (chunks : List Chunk) (stream : Stream) (all : ByteArray) :
    (chunks.filter fun c => c.stream = stream).foldl (fun all c => all ++ c.bytes) all =
      all ++ pending chunks stream := by
  induction chunks generalizing all with
  | nil => simp [pending]
  | cons chunk rest ih =>
    by_cases h : chunk.stream = stream
    · rw [List.filter_cons_of_pos (by simpa using h), List.foldl_cons, ih, pending, if_pos h,
        ByteArray.append_assoc]
    · rw [List.filter_cons_of_neg (by simpa using h), ih, pending, if_neg h]

theorem written_eq_pending (t : Transcript) (stream : Stream) :
    t.written stream = pending t.chunks stream := by
  rw [Transcript.written, foldl_append_bytes, ByteArray.empty_append]

namespace Pump

/-- The bytes that the pump has read and not kept yet. -/
def held : Pump → ByteArray
  | keeping bytes => bytes
  | _ => .empty

end Pump

/-- All bytes of a stream that the command has written. -/
def Channel.carried (c : Channel) : ByteArray := c.kept ++ c.pump.held ++ c.pipe

/-- A pump finishes only behind the end of its pipe. -/
def Channel.Drained (c : Channel) : Prop :=
  c.pump = .finished → c.isOpen = false ∧ c.pipe = .empty

/-- What the caller adds to a stream. -/
def added (ending : Ending) : Caller → Stream → ByteArray
  | .returned _, .err => ending.notice.toUTF8
  | _, _ => .empty

/-- What the caller has seen before it got where it is. -/
def Seen (s : State) : Caller → Prop
  | .waiting => True
  | .joiningOut e => s.ended = some e
  | .joiningErr e => s.ended = some e ∧ (s.channel .out).pump = .finished
  | .reporting e => s.ended = some e ∧ ∀ stream, (s.channel stream).pump = .finished
  | .returned termination => ∃ e, s.ended = some e ∧ termination = e.termination ∧
      ∀ stream, (s.channel stream).pump = .finished

/-- What holds in every state of a run. -/
structure Sound (t : Transcript) (s : State) : Prop where
  whole : ∀ stream, (s.channel stream).carried ++ pending s.unwritten stream =
    t.written stream ++ added t.ending s.caller stream
  isOpen : ∀ chunk ∈ s.unwritten, (s.channel chunk.stream).isOpen = true
  drained : ∀ stream, (s.channel stream).Drained
  ended : ∀ e, s.ended = some e → e = t.ending ∧ s.unwritten = [] ∧
    ∀ stream, (s.channel stream).isOpen = false
  seen : Seen s s.caller

theorem sound_start (t : Transcript) : Sound t (start t) where
  whole stream := by
    rw [written_eq_pending]
    simp [start, Channel.start, Channel.carried, Pump.held, added]
  isOpen _ _ := rfl
  drained _ h := by cases h
  ended _ h := by cases h
  seen := trivial

theorem Seen.setChannel {caller : Caller} (h : Seen s caller) {stream : Stream} {c : Channel}
    (hpump : (s.channel stream).pump = .finished → c.pump = .finished) :
    Seen (s.setChannel stream c) caller := by
  have hkeep := forall_setChannel
    (P := fun other c => (s.channel other).pump = .finished → c.pump = .finished)
    (fun _ _ hfinished => hfinished) hpump
  cases caller with
  | waiting => trivial
  | joiningOut e => exact h
  | joiningErr e => exact ⟨h.1, hkeep .out h.2⟩
  | reporting e => exact ⟨h.1, fun other => hkeep other (h.2 other)⟩
  | returned termination =>
    obtain ⟨e, hended, htermination, hall⟩ := h
    exact ⟨e, hended, htermination, fun other => hkeep other (hall other)⟩

theorem Seen.exists_ended {caller : Caller} (h : Seen s caller) (hcaller : caller ≠ .waiting) :
    ∃ e, s.ended = some e := by
  cases caller with
  | waiting => exact absurd rfl hcaller
  | joiningOut e => exact ⟨e, h⟩
  | joiningErr e => exact ⟨e, h.1⟩
  | reporting e => exact ⟨e, h.1⟩
  | returned termination =>
    obtain ⟨e, hended, -⟩ := h
    exact ⟨e, hended⟩

/-- While the command runs the caller waits for it. -/
theorem Seen.waiting {caller : Caller} (h : Seen s caller) (hrunning : s.ended = none) :
    caller = .waiting := by
  by_contra hcaller
  obtain ⟨e, hended⟩ := h.exists_ended hcaller
  simp [hrunning] at hended

namespace Sound

/-! ## The command -/

theorem write (sound : Sound t s) {stream : Stream} {piece more : ByteArray} {chunks : List Chunk}
    (next : s.unwritten = ⟨stream, piece ++ more⟩ :: chunks)
    (isOpen : (s.channel stream).isOpen = true) :
    Sound t ({ s with unwritten := ⟨stream, more⟩ :: chunks }.setChannel stream
      { s.channel stream with pipe := (s.channel stream).pipe ++ piece }) where
  whole other := by
    have hwhole := sound.whole other
    rw [next, pending] at hwhole
    rw [unwritten_setChannel, caller_setChannel, pending, ← hwhole]
    by_cases h : other = stream
    · subst h
      simp [Channel.carried, ByteArray.append_assoc]
    · rw [channel_setChannel_of_ne _ h, if_neg (Ne.symm h), if_neg (Ne.symm h)]
  isOpen chunk hchunk := by
    refine forall_setChannel (s := { s with unwritten := ⟨stream, more⟩ :: chunks })
      (P := fun other c => other = chunk.stream → c.isOpen = true)
      (c := { s.channel stream with pipe := (s.channel stream).pipe ++ piece })
      (fun other _ heq => ?_) (fun _ => isOpen) chunk.stream rfl
    subst heq
    rcases List.mem_cons.1 hchunk with rfl | hrest
    · exact isOpen
    · exact sound.isOpen chunk (next ▸ List.mem_cons_of_mem _ hrest)
  drained := by
    refine forall_setChannel (P := fun _ => Channel.Drained)
      (fun other _ => sound.drained other) fun hfinished => ?_
    have hclosed := (sound.drained stream hfinished).1
    rw [isOpen] at hclosed
    cases hclosed
  ended e he := by
    have hnothing := (sound.ended e he).2.1
    rw [next] at hnothing
    cases hnothing
  seen := Seen.setChannel (s := { s with unwritten := ⟨stream, more⟩ :: chunks }) sound.seen id

theorem written (sound : Sound t s) {stream : Stream} {chunks : List Chunk}
    (next : s.unwritten = ⟨stream, .empty⟩ :: chunks) :
    Sound t { s with unwritten := chunks } where
  whole other := by
    have hwhole := sound.whole other
    rw [next, pending] at hwhole
    by_cases h : stream = other
    · rw [if_pos h, ByteArray.empty_append] at hwhole
      exact hwhole
    · rw [if_neg h] at hwhole
      exact hwhole
  isOpen chunk hchunk := sound.isOpen chunk (next ▸ List.mem_cons_of_mem _ hchunk)
  drained := sound.drained
  ended e he := by
    have hnothing := (sound.ended e he).2.1
    rw [next] at hnothing
    cases hnothing
  seen := sound.seen

theorem close (sound : Sound t s) {stream : Stream} (isOpen : (s.channel stream).isOpen = true)
    (nothing : ∀ chunk ∈ s.unwritten, chunk.stream ≠ stream) :
    Sound t (s.setChannel stream { s.channel stream with isOpen := false }) where
  whole := forall_setChannel
    (P := fun other c => c.carried ++ pending s.unwritten other =
      t.written other ++ added t.ending s.caller other)
    (fun other _ => sound.whole other) (sound.whole stream)
  isOpen chunk hchunk := by
    rw [channel_setChannel_of_ne s (nothing chunk hchunk)]
    exact sound.isOpen chunk hchunk
  drained := forall_setChannel (P := fun _ => Channel.Drained)
    (fun other _ => sound.drained other) fun hfinished =>
    ⟨rfl, (sound.drained stream hfinished).2⟩
  ended e he := by
    have hclosed := (sound.ended e he).2.2 stream
    rw [isOpen] at hclosed
    cases hclosed
  seen := sound.seen.setChannel id

theorem finish (sound : Sound t s) (running : s.ended = none) (nothing : s.unwritten = [])
    (closed : ∀ stream, (s.channel stream).isOpen = false) :
    Sound t { s with ended := some t.ending } where
  whole := sound.whole
  isOpen := sound.isOpen
  drained := sound.drained
  ended e he := ⟨(Option.some.inj he).symm, nothing, closed⟩
  seen := by
    have hwaiting := sound.seen.waiting running
    simp [hwaiting, Seen]

/-! ## A pump -/

/-- A pump that has not finished may move bytes from the pipe to where they are kept. -/
theorem pump (sound : Sound t s) {stream : Stream} {c : Channel}
    (running : (s.channel stream).pump ≠ .finished)
    (hcarried : c.carried = (s.channel stream).carried)
    (hopen : c.isOpen = (s.channel stream).isOpen)
    (hdrained : c.Drained) :
    Sound t (s.setChannel stream c) where
  whole := by
    refine forall_setChannel
      (P := fun other c => c.carried ++ pending s.unwritten other =
        t.written other ++ added t.ending s.caller other) (fun other _ => sound.whole other) ?_
    rw [hcarried]
    exact sound.whole stream
  isOpen chunk hchunk := by
    refine forall_setChannel (P := fun other c => other = chunk.stream → c.isOpen = true)
      (fun other _ heq => ?_) (fun heq => ?_) chunk.stream rfl
    · rw [heq]
      exact sound.isOpen chunk hchunk
    · rw [hopen, heq]
      exact sound.isOpen chunk hchunk
  drained := forall_setChannel (P := fun _ => Channel.Drained)
    (fun other _ => sound.drained other) hdrained
  ended e he := by
    obtain ⟨hending, hnothing, hclosed⟩ := sound.ended e he
    refine ⟨hending, hnothing, ?_⟩
    exact forall_setChannel (P := fun _ c => c.isOpen = false) (fun other _ => hclosed other)
      (hopen.trans (hclosed stream))
  seen := sound.seen.setChannel fun hfinished => absurd hfinished running

/-! ## The caller -/

/-- Nothing is on its way any more when the command has ended and the pump has finished. -/
theorem kept_eq (sound : Sound t s) {e : Ending} (hended : s.ended = some e) {stream : Stream}
    (hfinished : (s.channel stream).pump = .finished) :
    (s.channel stream).kept = t.written stream ++ added t.ending s.caller stream := by
  have hwhole := sound.whole stream
  rw [Channel.carried, hfinished, (sound.drained stream hfinished).2, (sound.ended e hended).2.1]
    at hwhole
  simpa [Pump.held, pending] using hwhole

theorem go (sound : Sound t s) {caller : Caller} (hseen : Seen s caller)
    (hbefore : ∀ stream, added t.ending s.caller stream = .empty)
    (hafter : ∀ stream, added t.ending caller stream = .empty) :
    Sound t { s with caller } where
  whole stream := by
    have hwhole := sound.whole stream
    rw [hbefore] at hwhole
    rw [hafter]
    exact hwhole
  isOpen := sound.isOpen
  drained := sound.drained
  ended := sound.ended
  seen := by
    cases caller with
    | waiting => trivial
    | joiningOut e => exact hseen
    | joiningErr e => exact hseen
    | reporting e => exact hseen
    | returned termination => exact hseen

theorem report (sound : Sound t s) {e : Ending} (reporting : s.caller = .reporting e) :
    Sound t ({ s with caller := .returned e.termination }.setChannel .err
      { s.channel .err with kept := (s.channel .err).kept ++ e.notice.toUTF8 }) := by
  have hseen := sound.seen
  rw [reporting] at hseen
  obtain ⟨hended, hfinished⟩ := hseen
  obtain ⟨rfl, hnothing, hclosed⟩ := sound.ended e hended
  have hnone (stream : Stream) : added t.ending s.caller stream = .empty := by
    rw [reporting]
    rfl
  have hkept (stream : Stream) : (s.channel stream).kept = t.written stream := by
    rw [sound.kept_eq hended (hfinished stream), hnone, ByteArray.append_empty]
  have hpipe (stream : Stream) := (sound.drained stream (hfinished stream)).2
  refine ⟨fun stream => ?_, ?_, ?_, ?_, ?_⟩
  · cases stream with
    | out =>
      rw [channel_setChannel_of_ne _ (by decide)]
      simp [Channel.carried, hkept, hfinished, hpipe, hnothing, Pump.held, pending, added]
    | err =>
      simp [Channel.carried, hkept, hfinished, hpipe, hnothing, Pump.held, pending, added]
  · simp [hnothing]
  · exact forall_setChannel (P := fun _ => Channel.Drained)
      (fun other _ => sound.drained other) (sound.drained .err)
  · intro e' he'
    refine ⟨(sound.ended e' he').1, hnothing, ?_⟩
    exact forall_setChannel (P := fun _ c => c.isOpen = false) (fun other _ => hclosed other)
      (hclosed .err)
  · refine Seen.setChannel (s := { s with caller := .returned t.ending.termination }) ?_ id
    exact ⟨t.ending, hended, rfl, hfinished⟩

/-- One step of any party. -/
theorem step (sound : Sound t s) (h : Step capacity t.ending party s s') : Sound t s' := by
  cases h with
  | write next _ isOpen _ => exact sound.write next isOpen
  | written next => exact sound.written next
  | close isOpen nothing => exact sound.close isOpen nothing
  | finish running nothing closed => exact sound.finish running nothing closed
  | read reading pipe _ =>
    refine sound.pump (by simp [reading]) ?_ rfl (by simp [Channel.Drained])
    simp [Channel.carried, reading, pipe, Pump.held, ByteArray.append_assoc]
  | keep keeping =>
    refine sound.pump (by simp [keeping]) ?_ rfl (by simp [Channel.Drained])
    simp [Channel.carried, keeping, Pump.held]
  | meetEnd reading nothing closed =>
    refine sound.pump (by simp [reading]) ?_ rfl fun _ => ⟨closed, nothing⟩
    simp [Channel.carried, reading, Pump.held]
  | wait waiting ended =>
    exact sound.go ended (fun _ => by rw [waiting]; rfl) fun _ => rfl
  | joinOut joining finished =>
    have hseen := sound.seen
    rw [joining] at hseen
    exact sound.go ⟨hseen, finished⟩ (fun _ => by rw [joining]; rfl) fun _ => rfl
  | joinErr joining finished =>
    have hseen := sound.seen
    rw [joining] at hseen
    have hall (stream : Stream) : (s.channel stream).pump = .finished := by
      cases stream with
      | out => exact hseen.2
      | err => exact finished
    exact sound.go ⟨hseen.1, hall⟩ (fun _ => by rw [joining]; rfl) fun _ => rfl
  | report reporting => exact sound.report reporting

end Sound

theorem Run.sound {n : ℕ} (run : Run capacity t n s) : Sound t s := by
  induction run with
  | start => exact sound_start t
  | step _ next ih => exact ih.step next

/-! ## What is still to do -/

/-- Each byte is to be written, to be read and to be kept, and each chunk is to be given up. -/
def writing : List Chunk → ℕ
  | [] => 0
  | chunk :: chunks => 1 + 3 * chunk.bytes.size + writing chunks

namespace Pump

def work : Pump → ℕ
  | reading => 1
  | keeping _ => 2
  | finished => 0

end Pump

/-- A byte in the pipe is still to be read and to be kept. -/
def Channel.work (c : Channel) : ℕ :=
  (if c.isOpen then 1 else 0) + 2 * c.pipe.size + c.pump.work

namespace Caller

def work : Caller → ℕ
  | waiting => 4
  | joiningOut _ => 3
  | joiningErr _ => 2
  | reporting _ => 1
  | returned _ => 0

end Caller

namespace State

/-- A bound on the steps that are still to come. -/
def work (s : State) : ℕ :=
  writing s.unwritten + (if s.ended.isNone then 1 else 0) + (s.channel .out).work +
    (s.channel .err).work + s.caller.work

end State

namespace Sound

end Sound

/-- What a line behind the error output and a result say about an ending. -/
structure Tells (ending : Ending) (line : String) (termination : Termination) : Prop where
  silent : line = "" ↔ ∃ code, ending = .exited code
  interrupted : line = "interrupted\n" ↔ ending = .killed 2
  signalled : ∀ number, number ≠ 2 →
    (line = "signal " ++ toString number ++ "\n" ↔ ending = .killed number)
  success : termination = .success ↔ ending = .exited 0
  interruption : termination = .interrupted ↔ ending = .killed 2
  failure : termination = .failure ↔
    (∃ code, code ≠ 0 ∧ ending = .exited code) ∨ ∃ number, number ≠ 2 ∧ ending = .killed number

theorem signal_line_inj {a b : ℕ}
    (h : "signal " ++ toString a ++ "\n" = "signal " ++ toString b ++ "\n") : a = b := by
  have htext := congrArg String.toList h
  simp only [String.toList_append, List.append_cancel_right_eq, List.append_cancel_left_eq,
    Nat.toString_eq_repr, Nat.toList_repr] at htext
  rw [← Nat.ofDigitChars_ten_toDigits (n := a), htext, Nat.ofDigitChars_ten_toDigits]

theorem signal_line_ne_interrupted (a : ℕ) :
    "signal " ++ toString a ++ "\n" ≠ "interrupted\n" := by
  intro h
  have htext := congrArg (List.head? ∘ String.toList) h
  simp at htext

theorem tells (ending : Ending) : Tells ending ending.notice ending.termination := by
  cases ending with
  | exited code =>
    have hnotice : (Ending.exited code).notice = "" := rfl
    rw [hnotice]
    refine ⟨by simp, by simp, fun number _ => by simp, ?_, ?_, ?_⟩ <;>
      by_cases h : code = 0 <;> simp [Ending.termination, h]
  | killed signal =>
    by_cases h : signal = 2
    · subst h
      have hnotice : (Ending.killed 2).notice = "interrupted\n" := rfl
      have htermination : (Ending.killed 2).termination = .interrupted := rfl
      rw [hnotice, htermination]
      refine ⟨by simp, by simp, fun number hne => ?_, by simp, by simp, by simp⟩
      exact iff_of_false (signal_line_ne_interrupted number).symm fun heq =>
        hne (Ending.killed.inj heq).symm
    · have hnotice : (Ending.killed signal).notice = "signal " ++ toString signal ++ "\n" :=
        if_neg h
      have htermination : (Ending.killed signal).termination = .failure := if_neg h
      rw [hnotice, htermination]
      refine ⟨?_, ?_, fun number hne => ⟨fun heq => ?_, fun heq => ?_⟩, by simp, by simp [h],
        by simp [h]⟩
      · simp
      · exact iff_of_false (signal_line_ne_interrupted signal) fun heq => h (Ending.killed.inj heq)
      · rw [signal_line_inj heq]
      · rw [Ending.killed.inj heq]

/-! ## The whole run -/

end Recompile.Relay
