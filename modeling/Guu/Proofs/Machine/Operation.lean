import Guu.Proofs.Machine.Execution

/-!
# Operations

A machine is driven from outside by three operations, in any order, and also
after one of them has failed.  Between two operations its output may be
exchanged, so that a sink may begin to fail, or stop failing, at any time.
Whatever an operation does, it does by steps: its outcome is an execution,
with at most one failing step behind it.
-/

namespace Guu

inductive Operation where
  | run
  | stepInto
  | stepOver
deriving DecidableEq, Repr

namespace Operation

def apply (operation : Operation) (machine : Machine) : MachineOutcome :=
  match operation with
  | run => machine.run
  | stepInto => machine.stepInto
  | stepOver => machine.stepOver

/-- How long an operation repeats steps behind its first one. -/
def continues (operation : Operation) (machine : Machine) : Machine → Bool :=
  match operation with
  | run => Machine.always
  | stepInto => fun _ => false
  | stepOver => machine.start.state.isInside

end Operation

namespace Machine

open Operation

/-- The machines that can arise when a program is executed. -/
inductive Reachable (program : Program) : Machine → Prop where
  | fresh (output : Sink) : Reachable program (.ofProgram program output)
  | operated {machine : Machine} (reachable : Reachable program machine)
      (operation : Operation) : Reachable program (operation.apply machine).state
  | redirected {machine : Machine} (reachable : Reachable program machine) (output : Sink) :
      Reachable program { machine with output := output }

/-- Stepping over is a step, and further steps while the machine is inside the call. -/
theorem stepOver_eq_stepInto_andThen (machine : Machine) :
    machine.stepOver =
      machine.stepInto.andThen fun stepped =>
        stepped.stepWhile machine.start.state.isInside #[] := by
  rw [stepInto_eq_start_andThen, Outcome.andThen_assoc]
  unfold stepOver Outcome.andThen
  cases machine.start.failure <;> rfl

/-- Every operation is a step and a loop of further steps. -/
theorem apply_eq_stepInto_andThen (operation : Operation) (machine : Machine) :
    operation.apply machine =
      machine.stepInto.andThen fun stepped =>
        stepped.stepWhile (operation.continues machine) #[] := by
  cases operation with
  | run => exact run_eq_stepInto_andThen machine
  | stepOver => exact stepOver_eq_stepInto_andThen machine
  | stepInto =>
      have once : stepWhile (fun _ => false) #[] = Outcome.done := by
        funext stepped
        exact stepWhile_of_stops (.inr rfl) #[]
      show machine.stepInto = machine.stepInto.andThen (stepWhile (fun _ => false) #[])
      rw [once, Outcome.andThen_done]

theorem stepOver_of_not_ready {machine : Machine} (started : machine.control ≠ .ready) :
    machine.stepOver =
      machine.stepInto.andThen fun stepped => stepped.stepWhile machine.isInside #[] := by
  rw [stepOver_eq_stepInto_andThen, start_of_not_ready started, Outcome.done]

/-- Every operation enters `main`, if that has not been done, and goes on from there. -/
theorem apply_eq_start_andThen (operation : Operation) (machine : Machine) :
    operation.apply machine = machine.start.andThen operation.apply := by
  cases operation with
  | run => exact run_eq_start_andThen machine
  | stepInto => exact stepInto_eq_start_andThen machine
  | stepOver =>
      show machine.stepOver = machine.start.andThen stepOver
      cases entered : machine.start.failure with
      | some error => rw [stepOver, Outcome.andThen_of_failure entered,
          Outcome.andThen_of_failure entered]
      | none =>
          rw [stepOver, Outcome.andThen_of_success entered, Outcome.andThen_of_success entered,
            stepOver_of_not_ready (control_start_ne_ready entered)]

/-- How an operation ends behind its last successful step: with it, or with a failing step. -/
inductive Ends (last : Machine) (journal : Journal) : MachineOutcome → Prop where
  | succeeded : Ends last journal ⟨last, journal, none⟩
  | failed {error : RuntimeError} (failure : last.stepInto.failure = some error) :
      Ends last journal ⟨last.stepInto.state, journal ++ last.stepInto.journal, some error⟩

theorem Ends.of_success {last : Machine} {journal : Journal} {outcome : MachineOutcome}
    (ends : Ends last journal outcome) (success : outcome.failure = none) :
    outcome = ⟨last, journal, none⟩ := by
  cases ends with
  | succeeded => rfl
  | failed failure => simp at success

theorem Ends.after {last : Machine} {journal : Journal} {outcome : MachineOutcome}
    (ends : Ends last journal outcome) (earlier : Journal) :
    Ends last (earlier ++ journal)
      ⟨outcome.state, earlier ++ outcome.journal, outcome.failure⟩ := by
  cases ends with
  | succeeded => exact .succeeded
  | failed failure =>
      rw [← Array.append_assoc]
      exact .failed failure

theorem Ends.preserves {last : Machine} {journal : Journal} {outcome : MachineOutcome}
    {Holds : Machine → Prop} (ends : Ends last journal outcome)
    (kept : ∀ machine, Holds machine → Holds machine.stepInto.state) (holds : Holds last) :
    Holds outcome.state := by
  cases ends with
  | succeeded => exact holds
  | failed failure => exact kept last holds

theorem exists_ends_stepWhile (continues : Machine → Bool) (machine : Machine) :
    ∃ count journal last, Execution always count machine journal last ∧
      Ends last journal (machine.stepWhile continues #[]) := by
  obtain ⟨count, journal, last, ending, execution, ends, loop⟩ :=
    exists_execution_of_loop continues machine
  refine ⟨count, journal, last, execution.unconditional, ?_⟩
  rw [loop, Array.empty_append]
  cases ends with
  | stopped stops => exact .succeeded
  | failed unfinished goesOn failure =>
      rw [failure]
      exact .failed failure

theorem exists_ends_stepInto (machine : Machine) :
    ∃ count journal last, Execution always count machine journal last ∧
      Ends last journal machine.stepInto := by
  by_cases finished : machine.control = .finished
  · rw [stepInto_of_finished finished]
    exact ⟨0, #[], machine, .refl machine, .succeeded⟩
  · have unfinished : machine.control.isFinished = false :=
      Control.isFinished_eq_false.mpr finished
    cases failure : machine.stepInto.failure with
    | some error =>
        have ends : Ends machine #[]
            ⟨machine.stepInto.state, #[] ++ machine.stepInto.journal, some error⟩ :=
          .failed failure
        rw [Array.empty_append, ← failure] at ends
        exact ⟨0, #[], machine, .refl machine, ends⟩
    | none =>
        have ends : Ends machine.stepInto.state machine.stepInto.journal
            ⟨machine.stepInto.state, machine.stepInto.journal, none⟩ :=
          .succeeded
        rw [← failure] at ends
        exact ⟨_, _, _, .single unfinished rfl failure, ends⟩

/-- Every operation is an execution with an end. -/
theorem exists_ends_apply (operation : Operation) (machine : Machine) :
    ∃ count journal last, Execution always count machine journal last ∧
      Ends last journal (operation.apply machine) := by
  obtain ⟨count, journal, last, execution, ends⟩ := exists_ends_stepInto machine
  rw [apply_eq_stepInto_andThen]
  cases stepped : machine.stepInto.failure with
  | some error =>
      rw [Outcome.andThen_of_failure stepped]
      exact ⟨count, journal, last, execution, ends⟩
  | none =>
      rw [Outcome.andThen_of_success stepped, ends.of_success stepped]
      obtain ⟨more, further, final, continued, finalEnds⟩ :=
        exists_ends_stepWhile (operation.continues machine) last
      exact ⟨_, _, final, execution.trans continued, finalEnds.after journal⟩

/-- What every step keeps, whether it succeeds or fails, every loop of steps keeps. -/
theorem stepWhile_preserves (Holds : Machine → Prop)
    (kept : ∀ machine, Holds machine → Holds machine.stepInto.state)
    (continues : Machine → Bool) {machine : Machine} (holds : Holds machine) :
    Holds (machine.stepWhile continues #[]).state := by
  obtain ⟨count, journal, last, execution, ends⟩ := exists_ends_stepWhile continues machine
  exact ends.preserves kept (execution.preserves (fun machine holds _ => kept machine holds) holds)

/-- What every step keeps, whether it succeeds or fails, every operation keeps. -/
theorem apply_preserves (Holds : Machine → Prop)
    (kept : ∀ machine, Holds machine → Holds machine.stepInto.state) (operation : Operation)
    {machine : Machine} (holds : Holds machine) : Holds (operation.apply machine).state := by
  obtain ⟨count, journal, last, execution, ends⟩ := exists_ends_apply operation machine
  exact ends.preserves kept (execution.preserves (fun machine holds _ => kept machine holds) holds)

/-- What holds at the beginning and is kept by steps and other outputs holds everywhere. -/
theorem Reachable.holds {program : Program} (Holds : Machine → Prop)
    (fresh : ∀ output, Holds (.ofProgram program output))
    (kept : ∀ machine, Holds machine → Holds machine.stepInto.state)
    (redirected : ∀ machine output, Holds machine → Holds { machine with output := output })
    {machine : Machine} (reachable : Reachable program machine) : Holds machine := by
  induction reachable with
  | fresh output => exact fresh output
  | operated reachable operation ih => exact apply_preserves Holds kept operation ih
  | redirected reachable output ih => exact redirected _ output ih

theorem Reachable.program_eq {program : Program} {machine : Machine}
    (reachable : Reachable program machine) : machine.program = program := by
  refine reachable.holds (fun machine => machine.program = program) ?_ ?_ ?_
  · intro output
    rfl
  · intro machine same
    rw [program_stepInto, same]
  · intro machine output same
    exact same

end Machine

end Guu
