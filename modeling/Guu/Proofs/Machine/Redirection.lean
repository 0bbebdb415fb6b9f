import Guu.Proofs.Machine.Refusal

/-!
# Exchanging outputs that never fail

Of an output that takes whatever is written to it a machine can see nothing: how
it is flushed, and how it would refuse, make no difference to any operation.
-/

namespace Guu.Machine

def redirected (output : Sink) (outcome : MachineOutcome) : MachineOutcome :=
  { outcome with state := outcome.state.redirect output }

variable {machine : Machine} {output : Sink}

theorem andThen_redirected {first : MachineOutcome} {second other : Machine → MachineOutcome}
    (same : first.failure = none →
      other (first.state.redirect output) = redirected output (second first.state)) :
    (redirected output first).andThen other = redirected output (first.andThen second) := by
  have failures : (redirected output first).failure = first.failure := rfl
  cases failed : first.failure with
  | some error =>
      rw [Outcome.andThen_of_failure failed, Outcome.andThen_of_failure (failures.trans failed)]
  | none =>
      rw [Outcome.andThen_of_success failed, Outcome.andThen_of_success (failures.trans failed)]
      simp only [redirected, same failed]

/-! ## One step -/

theorem perform_redirect (unlimited : machine.output.room = none) (accepts : output.room = none)
    (position : Position) (callers : List Position) (line : Nat) (effect : Effect) :
    (machine.redirect output).perform position callers line effect =
      redirected output (machine.perform position callers line effect) := by
  cases effect with
  | print value =>
      have unlimitedToo : (machine.redirect output).output.room = none := accepts
      simp only [perform, write_of_unlimited unlimited, write_of_unlimited unlimitedToo]
      rfl
  | set name value => rfl
  | call procedure =>
      simp only [perform]
      split <;> rfl

theorem execute_redirect (unlimited : machine.output.room = none) (accepts : output.room = none) :
    (machine.redirect output).execute = redirected output machine.execute := by
  have controls : (machine.redirect output).control = machine.control := rfl
  cases control : machine.control with
  | ready | finished =>
      simp only [execute, controls, control]
      rfl
  | running position callers =>
      have running := controls.trans control
      cases found : machine.program.statement? position with
      | none =>
          simp only [execute, running, control, program_redirect, found]
          rfl
      | some statement =>
          cases defined : machine.effect statement with
          | error error =>
              rw [execute_of_error control found defined,
                execute_of_error running found (by rw [effect_redirect, defined])]
              rfl
          | ok effect =>
              rw [execute_of_effect control found defined,
                execute_of_effect running found (by rw [effect_redirect, defined]),
                perform_redirect unlimited accepts]
              rfl

theorem stepInto_redirect (unlimited : machine.output.room = none) (accepts : output.room = none) :
    (machine.redirect output).stepInto = redirected output machine.stepInto := by
  unfold stepInto
  rw [start_redirect]
  exact andThen_redirected fun _ => execute_redirect (unlimited_start unlimited) accepts

/-! ## Operations -/

theorem stepWhile_redirect {continues goesOn : Machine → Bool} (accepts : output.room = none)
    (blind : ∀ machine, goesOn (redirect machine output) = continues machine)
    (unlimited : machine.output.room = none) (journal : Journal) :
    (machine.redirect output).stepWhile goesOn journal =
      redirected output (machine.stepWhile continues journal) := by
  -- The loop takes the same turns, since neither its condition nor a step can see the output.
  fun_induction stepWhile continues journal machine with
  | case1 journal machine unfinished step success ih =>
      have same := stepInto_redirect unlimited accepts
      have running : (machine.redirect output).control.isFinished = false := unfinished.1
      have succeeds : (machine.redirect output).stepInto.failure = none := by
        rw [same]
        exact success
      rw [stepWhile_of_success running ((blind machine).trans unfinished.2) succeeds, same]
      exact ih (unlimited_stepInto machine unlimited)
  | case2 journal machine unfinished step error failure =>
      have same := stepInto_redirect unlimited accepts
      have running : (machine.redirect output).control.isFinished = false := unfinished.1
      have fails : (machine.redirect output).stepInto.failure = some error := by
        rw [same]
        exact failure
      rw [stepWhile_of_failure running ((blind machine).trans unfinished.2) fails, same]
      rfl
  | case3 journal machine stops =>
      have controls : (machine.redirect output).control = machine.control := rfl
      have stopped : machine.control.isFinished = true ∨ continues machine = false := by
        simpa [Decidable.or_iff_not_imp_left] using stops
      rw [← blind machine, ← controls] at stopped
      exact stepWhile_of_stops stopped journal

/-- An operation does the same over every output that takes whatever is written to it. -/
theorem apply_redirect (unlimited : machine.output.room = none) (accepts : output.room = none)
    (operation : Operation) :
    operation.apply (machine.redirect output) = redirected output (operation.apply machine) := by
  have blind : ∀ other, operation.continues (machine.redirect output) (redirect other output) =
      operation.continues machine other := by
    intro other
    cases operation with
    | run => rfl
    | stepInto => rfl
    | stepOver => simp only [Operation.continues, start_redirect]; rfl
  rw [apply_eq_stepInto_andThen, apply_eq_stepInto_andThen, stepInto_redirect unlimited accepts]
  exact andThen_redirected fun _ =>
    stepWhile_redirect accepts blind (unlimited_stepInto machine unlimited) #[]

end Guu.Machine
