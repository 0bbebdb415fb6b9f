import Guu.Proofs.Machine.Transition

/-!
# Writing to a sink that never fails

A sink that takes whatever is written to it has no limit.  Writing to it leaves
the machine as it is and tells the journal every piece.
-/

namespace Guu

namespace Sink

def Unfailing (sink : Sink) : Prop :=
  ∀ bytes, (sink.write bytes).complete = true

theorem unfailing_iff {sink : Sink} : sink.Unfailing ↔ sink.room = none := by
  constructor
  · intro unfailing
    cases room : sink.room with
    | none => rfl
    | some limit =>
        have tooLong : ¬limit + 1 ≤ limit := by omega
        have taken := unfailing (List.replicate (limit + 1) 0)
        simp [write, room, tooLong] at taken
  · intro unlimited bytes
    rw [write_unlimited unlimited]

end Sink

namespace Machine

theorem write_of_unlimited {machine : Machine} (unlimited : machine.output.room = none)
    (pieces : List (List Char)) :
    machine.write pieces =
      ⟨machine, (pieces.map fun piece => Event.wrote .output (Text.Utf8.encode piece)).toArray,
        none⟩ := by
  induction pieces with
  | nil => rfl
  | cons piece rest ih =>
      simp only [write, Sink.write_unlimited unlimited, if_true]
      rw [Outcome.andThen_of_success rfl]
      simp only [Outcome.after]
      rw [ih]
      simp

theorem bytesTo_of_pieces (pieces : List (List Char)) :
    Journal.bytesTo .output
        (pieces.map fun piece => Event.wrote .output (Text.Utf8.encode piece)).toArray =
      Text.Utf8.encode pieces.flatten := by
  unfold Journal.bytesTo
  induction pieces with
  | nil => rfl
  | cons piece rest ih => simp_all [Event.bytesTo]

@[simp]
theorem bytesTo_departures (program : Program) (position : Position) (callers : List Position) :
    (departures program position callers).bytesTo .output = [] := by
  simp [departures, Journal.bytesTo, Event.bytesTo]

@[simp]
theorem bytesTo_noted (channel : Channel) (note : Note) :
    Journal.bytesTo channel #[.noted note] = [] :=
  rfl

@[simp]
theorem bytesTo_announcement (statement : Statement) (effect : Effect) :
    (announcement statement effect).bytesTo .output = [] := by
  rfl

end Machine

end Guu
