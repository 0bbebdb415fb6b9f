import Guu.Proofs.Journal.Flush
import Guu.Proofs.Machine.Confluence
import Guu.Proofs.Machine.Refusal

/-!
# What a machine does of itself

A machine writes to its output and something is noted, but it never writes to
the console and never flushes.  An output that takes whatever is written to it
is not changed by that.
-/

namespace Guu

namespace Machine

open Journal (internal_empty internal_noted internal_notes)

variable {machine : Machine} {position : Position} {callers : List Position}
  {outcome : MachineOutcome}

/-! ## The events -/

theorem internal_write (machine : Machine) (pieces : List (List Char)) :
    (machine.write pieces).journal.Internal := by
  intro event member
  obtain ⟨bytes, rfl⟩ := exists_wrote_of_mem_write member
  rfl

theorem internal_departures (program : Program) (position : Position)
    (callers : List Position) : (departures program position callers).Internal :=
  internal_notes _

theorem internal_start (machine : Machine) : machine.start.journal.Internal := by
  have entered := entered_start machine
  generalize machine.start = outcome at entered
  cases entered with
  | absent ready missing => exact internal_empty
  | entered ready found => exact (internal_noted .entered).append (internal_departures _ _ _)
  | already started => exact internal_empty

theorem Executed.internal (executed : Executed machine position callers outcome) :
    outcome.journal.Internal := by
  cases executed with
  | absent missing => exact internal_empty
  | undefined found refused => exact internal_empty
  | unprinted found defined refused => exact (internal_noted _).append (internal_write _ _)
  | printed found defined written =>
      exact (internal_noted _).append ((internal_write _ _).append (internal_departures _ _ _))
  | assigned found defined => exact (internal_noted _).append (internal_departures _ _ _)
  | overflowed found defined full => exact internal_noted _
  | called found defined free => exact (internal_noted _).append (internal_departures _ _ _)

theorem internal_stepInto (machine : Machine) : machine.stepInto.journal.Internal := by
  cases entered : machine.start.failure with
  | some error =>
      rw [stepInto_of_start_failure entered]
      exact internal_empty
  | none =>
      rw [stepInto_of_start_success entered]
      rcases finished_or_running (control_start_ne_ready entered) with
        finished | ⟨position, callers, running⟩
      · rw [stepInto_of_finished finished]
        exact (internal_start machine).append internal_empty
      · exact (internal_start machine).append (executed_stepInto running).internal

theorem Execution.internal {continues : Machine → Bool} {count : Nat} {last : Machine}
    {journal : Journal} (execution : Execution continues count machine journal last) :
    journal.Internal := by
  induction execution with
  | refl => exact internal_empty
  | next unfinished goesOn success rest ih => exact (internal_stepInto _).append ih

/-- No operation writes to the console or flushes. -/
theorem internal_apply (operation : Operation) (machine : Machine) :
    (operation.apply machine).journal.Internal := by
  obtain ⟨count, journal, last, execution, ends⟩ := exists_ends_apply operation machine
  generalize operation.apply machine = outcome at ends
  cases ends with
  | succeeded => exact execution.internal
  | failed failure => exact execution.internal.append (internal_stepInto last)

/-! ## The output -/

theorem Executed.output_eq (executed : Executed machine position callers outcome)
    (unlimited : machine.output.room = none) : outcome.state.output = machine.output := by
  cases executed with
  | unprinted found defined refused => rw [write_of_unlimited unlimited]
  | printed found defined written => rw [write_of_unlimited unlimited, resume]
  | _ => rfl

theorem output_start (machine : Machine) : machine.start.state.output = machine.output := by
  have entered := entered_start machine
  generalize machine.start = outcome at entered
  cases entered <;> rfl

/-- Operations do not change an output that takes whatever is written to it. -/
theorem output_apply (operation : Operation) (unlimited : machine.output.room = none) :
    (operation.apply machine).state.output = machine.output := by
  refine apply_preserves (·.output = machine.output) ?_ operation rfl
  intro other same
  refine stepInto_preserves (·.output = machine.output) ?_ ?_ other same
  · intro fresh same
    rw [output_start, same]
  · intro started position callers outcome running executed same
    rw [executed.output_eq (by rw [same, unlimited]), same]

end Machine

end Guu
