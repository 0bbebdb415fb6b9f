import Guu.Journal.Note
import Guu.Stream.Sink

/-!
# Outcomes

An operation changes a state, does things that can be seen from outside, and
may fail.  Its outcome keeps all three: the state is kept although the
operation failed, and so are the events before the failure.
-/

namespace Guu

inductive Channel where
  | output
  | console
deriving DecidableEq, Repr

inductive Event where
  | wrote (channel : Channel) (bytes : List UInt8)
  | flushed (channel : Channel)
  | noted (note : Note)
deriving DecidableEq, Repr

namespace Event

def note? : Event → Option Note
  | noted note => some note
  | _ => none

def bytesTo (channel : Channel) : Event → List UInt8
  | wrote written bytes => if written = channel then bytes else []
  | _ => []

end Event

/-- Events in the order in which they happened. -/
abbrev Journal : Type :=
  Array Event

namespace Journal

def notes (journal : Journal) : List Note :=
  journal.toList.filterMap Event.note?

def bytesTo (channel : Channel) (journal : Journal) : List UInt8 :=
  journal.toList.flatMap (Event.bytesTo channel)

@[simp]
theorem notes_append (earlier later : Journal) :
    (earlier ++ later : Journal).notes = earlier.notes ++ later.notes := by
  simp [notes]

@[simp]
theorem bytesTo_append (channel : Channel) (earlier later : Journal) :
    (earlier ++ later : Journal).bytesTo channel =
      earlier.bytesTo channel ++ later.bytesTo channel := by
  simp [bytesTo]

end Journal

/-- The state an operation leaves, the events in their order, and why it failed, if it did. -/
structure Outcome (State Failure : Type) where
  state : State
  journal : Journal
  failure : Option Failure
deriving DecidableEq, Repr

namespace Outcome

variable {State Failure : Type}

def done (state : State) : Outcome State Failure :=
  ⟨state, #[], none⟩

def after (events : List Event) (state : State) : Outcome State Failure :=
  ⟨state, events.toArray, none⟩

def failed (events : List Event) (state : State) (failure : Failure) : Outcome State Failure :=
  ⟨state, events.toArray, some failure⟩

/-- Go on with a second operation, unless the first one failed. -/
def andThen (first : Outcome State Failure) (second : State → Outcome State Failure) :
    Outcome State Failure :=
  match first.failure with
  | some _ => first
  | none =>
      let last := second first.state
      { last with journal := first.journal ++ last.journal }

/-- Success keeps an operation from being skipped. -/
theorem andThen_of_success {first : Outcome State Failure} (success : first.failure = none)
    (second : State → Outcome State Failure) :
    first.andThen second =
      ⟨(second first.state).state, first.journal ++ (second first.state).journal,
        (second first.state).failure⟩ := by
  simp [andThen, success]

/-- Two operations succeed together when each of them succeeds. -/
theorem failure_andThen_eq_none {first : Outcome State Failure}
    {second : State → Outcome State Failure} :
    (first.andThen second).failure = none ↔
      first.failure = none ∧ (second first.state).failure = none := by
  unfold andThen
  split <;> simp_all

/-- Nothing happens after a failure. -/
theorem andThen_of_failure {first : Outcome State Failure} {failure : Failure}
    (failed : first.failure = some failure) (second : State → Outcome State Failure) :
    first.andThen second = first := by
  simp [andThen, failed]

@[simp]
theorem andThen_done (first : Outcome State Failure) : first.andThen done = first := by
  obtain ⟨state, journal, failure⟩ := first
  cases failure <;> simp [andThen, done]

/-- Of three operations in a row, either two may be taken together. -/
theorem andThen_assoc (first : Outcome State Failure)
    (second third : State → Outcome State Failure) :
    (first.andThen second).andThen third =
      first.andThen fun state => (second state).andThen third := by
  cases failed : first.failure with
  | some failure => simp [andThen, failed]
  | none =>
      cases failedNext : (second first.state).failure with
      | some failure => simp [andThen, failed, failedNext]
      | none => simp [andThen, failed, failedNext, Array.append_assoc]

end Outcome

end Guu
