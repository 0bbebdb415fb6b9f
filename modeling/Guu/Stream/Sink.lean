import Guu.Stream.Failure

/-!
# Sinks

A sink takes bytes, without end or as many as it has room for.  Of a text that
is longer than the room left it takes the beginning, and then it fails.
Flushing it succeeds always, or a number of times and never again.
-/

namespace Guu

/-- Where bytes are written, and how writing and flushing fail there. -/
structure Sink where
  /-- How many more bytes the sink takes, if that is limited. -/
  room : Option Nat := none
  /-- How writing fails when there is no room left. -/
  refusal : FailureKind := .brokenPipe
  /-- How flushing fails, if it ever does. -/
  flushFailure : Option FailureKind := none
  /-- How many more flushes succeed where flushing fails. -/
  flushesLeft : Nat := 0
deriving DecidableEq, Repr

namespace Sink

structure Written where
  taken : List UInt8
  sink : Sink
  complete : Bool
deriving DecidableEq, Repr

def write (sink : Sink) (bytes : List UInt8) : Written :=
  match sink.room with
  | none => ⟨bytes, sink, true⟩
  | some room =>
      if bytes.length ≤ room then
        ⟨bytes, { sink with room := some (room - bytes.length) }, true⟩
      else ⟨bytes.take room, { sink with room := some 0 }, false⟩

structure Flushed where
  sink : Sink
  failure : Option FailureKind
deriving DecidableEq, Repr

def flush (sink : Sink) : Flushed :=
  match sink.flushFailure, sink.flushesLeft with
  | none, _ => ⟨sink, none⟩
  | some kind, 0 => ⟨sink, some kind⟩
  | some _, left + 1 => ⟨{ sink with flushesLeft := left }, none⟩

def limited (sink : Sink) (room : Option Nat) : Sink :=
  { sink with room := room }

/-- A complete write takes every byte. -/
theorem taken_of_complete {sink : Sink} {bytes : List UInt8}
    (complete : (sink.write bytes).complete = true) : (sink.write bytes).taken = bytes := by
  unfold write at *
  grind

/-- A sink without a limit takes every byte and stays as it is. -/
@[simp]
theorem write_unlimited {sink : Sink} (unlimited : sink.room = none) (bytes : List UInt8) :
    sink.write bytes = ⟨bytes, sink, true⟩ := by
  simp [write, unlimited]

theorem flush_of_never {sink : Sink} (never : sink.flushFailure = none) :
    sink.flush = ⟨sink, none⟩ := by
  rw [flush, never]

/-- Flushing changes nothing but the number of flushes that are left. -/
theorem sink_flush (sink : Sink) :
    sink.flush.sink = { sink with flushesLeft := sink.flush.sink.flushesLeft } := by
  unfold flush
  split <;> rfl

end Sink

end Guu
