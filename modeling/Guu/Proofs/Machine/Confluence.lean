import Guu.Machine.Report
import Guu.Proofs.Machine.Failure

/-!
# Stepping is confluent

Running, stepping into calls and stepping over them may alternate in any order
and go on after failures.  As long as the output never fails, this makes no
difference: every sequence of operations stands somewhere on the one execution
that a program has, and a failure is always the failure at its end.
-/

namespace Guu

namespace Machine

/-! ## Steps over an output without a limit -/

theorem unlimited_start {machine : Machine} (unlimited : machine.output.room = none) :
    machine.start.state.output.room = none := by
  have entered := entered_start machine
  generalize machine.start = outcome at entered
  cases entered <;> exact unlimited

theorem Executed.unlimited {machine : Machine} {position : Position} {callers : List Position}
    {outcome : MachineOutcome} (executed : Executed machine position callers outcome)
    (unlimited : machine.output.room = none) : outcome.state.output.room = none := by
  cases executed with
  | unprinted found defined refused => rwa [write_of_unlimited unlimited]
  | printed found defined written => rwa [write_of_unlimited unlimited]
  | _ => exact unlimited

theorem unlimited_stepInto (machine : Machine) (unlimited : machine.output.room = none) :
    machine.stepInto.state.output.room = none := by
  refine stepInto_preserves (·.output.room = none) (fun _ => unlimited_start) ?_ machine unlimited
  intro other position callers outcome running executed unlimited
  exact executed.unlimited unlimited

theorem Execution.unlimited {continues : Machine → Bool} {count : Nat} {first last : Machine}
    {journal : Journal} (execution : Execution continues count first journal last)
    (unlimited : first.output.room = none) : last.output.room = none :=
  execution.preserves (fun machine unlimited _ => unlimited_stepInto machine unlimited) unlimited

/-- A step never blames an output without a limit. -/
theorem stepInto_ne_output {machine : Machine} (unlimited : machine.output.room = none)
    (kind : FailureKind) : machine.stepInto.failure ≠ some (.output kind) := by
  intro failure
  rcases fails_stepInto failure with missing | ⟨position, callers, running, fails⟩
  · cases missing
  · cases fails with
    | unwritten refused => simp [write_of_unlimited (unlimited_start unlimited)] at refused

/-! ## Operations stand on one execution -/

/--
What operations left lies on the execution from a machine: behind successful
steps, or behind the step after them, which fails.  The journal has the output
of that execution, although notes about repeated failures may have been added.
-/
inductive OnExecution (first : Machine) : MachineOutcome → Prop where
  | arrived {count : Nat} {journal events : Journal} {last : Machine}
      (execution : Execution always count first journal last)
      (same : Journal.bytesTo .output events = Journal.bytesTo .output journal) :
      OnExecution first ⟨last, events, none⟩
  | failed {count : Nat} {journal events : Journal} {last : Machine} {error : RuntimeError}
      (execution : Execution always count first journal last)
      (failure : last.stepInto.failure = some error)
      (same : Journal.bytesTo .output events =
        Journal.bytesTo .output (journal ++ last.stepInto.journal)) :
      OnExecution first ⟨last.stepInto.state, events, some error⟩

/-- Another operation stays on the execution. -/
theorem OnExecution.applyAfter {first : Machine} {outcome : MachineOutcome}
    (onExecution : OnExecution first outcome) (unlimited : first.output.room = none)
    (operation : Operation) : OnExecution first (Operation.applyAfter outcome operation) := by
  cases onExecution with
  | @arrived count journal events last execution same =>
      obtain ⟨more, further, final, continued, ends⟩ := exists_ends_apply operation last
      simp only [Operation.applyAfter]
      generalize operation.apply last = outcome at ends
      cases ends with
      | succeeded =>
          exact .arrived (execution.trans continued) (by simp only [Journal.bytesTo_append, same])
      | failed failure =>
          exact .failed (execution.trans continued) failure
            (by simp only [Journal.bytesTo_append, same, List.append_assoc])
  | @failed count journal events last error execution failure same =>
      -- The failure is not the output's, hence the operation only repeats it.
      have other : ∀ kind, error ≠ .output kind := by
        rintro kind rfl
        exact stepInto_ne_output (execution.unlimited unlimited) kind failure
      obtain ⟨again, applied, silent⟩ :=
        apply_of_failsWith (failsWith_stepInto failure other) operation
      simp only [Operation.applyAfter, applied]
      exact .failed execution failure
        (by rw [Journal.bytesTo_append, silent, List.append_nil, same])

theorem onExecution_applyAll {first : Machine} (unlimited : first.output.room = none)
    (operations : List Operation) : OnExecution first (Operation.applyAll operations first) := by
  induction operations using List.reverseRecOn with
  | nil => exact .arrived (.refl first) rfl
  | append_singleton earlier operation ih =>
      rw [Operation.applyAll_concat]
      exact ih.applyAfter unlimited operation

/-! ## The execution is a row of steps -/

theorem exists_steps_of_execution {continues : Machine → Bool} {count : Nat}
    {first last : Machine} {journal : Journal}
    (execution : Execution continues count first journal last) :
    ∃ steps, ∀ earlier, (List.replicate steps Operation.stepInto).foldl Operation.applyAfter
      ⟨first, earlier, none⟩ = ⟨last, earlier ++ journal, none⟩ := by
  induction execution with
  | refl machine => exact ⟨0, fun earlier => by simp⟩
  | @next count machine last journal unfinished goesOn success rest ih =>
      obtain ⟨steps, walked⟩ := ih
      refine ⟨steps + 1, fun earlier => ?_⟩
      have step : Operation.applyAfter ⟨machine, earlier, none⟩ .stepInto =
          ⟨machine.stepInto.state, earlier ++ machine.stepInto.journal, none⟩ := by
        rw [← success]
        rfl
      rw [List.replicate_succ, List.foldl_cons, step, walked, Array.append_assoc]

/-- What lies on the execution from a machine is left by steps alone. -/
theorem OnExecution.exists_steps {first : Machine} {outcome : MachineOutcome}
    (onExecution : OnExecution first outcome) :
    ∃ steps, (Operation.applyAll (List.replicate steps .stepInto) first).state = outcome.state ∧
      Journal.bytesTo .output (Operation.applyAll (List.replicate steps .stepInto) first).journal =
        Journal.bytesTo .output outcome.journal := by
  cases onExecution with
  | @arrived count journal events last execution same =>
      obtain ⟨steps, walked⟩ := exists_steps_of_execution execution
      have reached := walked #[]
      rw [Array.empty_append] at reached
      refine ⟨steps, ?_⟩
      rw [Operation.applyAll, Outcome.done, reached]
      exact ⟨rfl, same.symm⟩
  | @failed count journal events last error execution failure same =>
      obtain ⟨steps, walked⟩ := exists_steps_of_execution execution
      have reached := walked #[]
      rw [Array.empty_append] at reached
      refine ⟨steps + 1, ?_⟩
      rw [List.replicate_succ', Operation.applyAll_concat, Operation.applyAll, Outcome.done,
        reached]
      exact ⟨rfl, same.symm⟩

/-! ## A single run -/

theorem run_of_failure {machine : Machine} {error : RuntimeError}
    (failure : machine.stepInto.failure = some error) : machine.run = machine.stepInto := by
  rw [run_eq_stepInto_andThen, Outcome.andThen_of_failure failure]

/-- The output on the way is a beginning of what a run writes. -/
theorem OnExecution.prefix_run {first : Machine} {outcome : MachineOutcome}
    (onExecution : OnExecution first outcome) :
    Journal.bytesTo .output outcome.journal <+: Journal.bytesTo .output first.run.journal := by
  cases onExecution with
  | @arrived count journal events last execution same =>
      rw [run_of_execution execution, Outcome.andThen_of_success rfl, same]
      simp only [Journal.bytesTo_append]
      exact List.prefix_append _ _
  | @failed count journal events last error execution failure same =>
      have equal : Journal.bytesTo .output first.run.journal = Journal.bytesTo .output events := by
        rw [run_of_execution execution, Outcome.andThen_of_success rfl, run_of_failure failure]
        exact same.symm
      exact ⟨[], (List.append_nil _).trans equal.symm⟩

/-- A failure on the way is that of a run. -/
theorem OnExecution.run_of_failure {first : Machine} {outcome : MachineOutcome}
    (onExecution : OnExecution first outcome) {error : RuntimeError}
    (failure : outcome.failure = some error) :
    first.run.failure = some error ∧ first.run.state = outcome.state ∧
      Journal.bytesTo .output first.run.journal = Journal.bytesTo .output outcome.journal := by
  cases onExecution with
  | arrived execution same => cases failure
  | failed execution failed same =>
      cases failure
      rw [run_of_execution execution, Outcome.andThen_of_success rfl,
        Machine.run_of_failure failed]
      exact ⟨failed, rfl, same.symm⟩

/-- Where execution is over, a run ends as well. -/
theorem OnExecution.run_of_finished {first : Machine} {outcome : MachineOutcome}
    (onExecution : OnExecution first outcome) (finished : outcome.state.control = .finished) :
    first.run.state = outcome.state ∧
      Journal.bytesTo .output first.run.journal = Journal.bytesTo .output outcome.journal := by
  cases failure : outcome.failure with
  | some error => exact (onExecution.run_of_failure failure).2
  | none =>
      cases onExecution with
      | failed execution failed same => cases failure
      | @arrived count journal events last execution same =>
          have done : last.run = .done last := apply_of_finished finished .run
          rw [run_of_execution execution, Outcome.andThen_of_success rfl, done]
          exact ⟨rfl, by simp [Outcome.done, same]⟩

/--
However operations follow each other on a fresh machine whose output never
fails, they leave what some number of steps leaves, and their output is a
beginning of what a single run writes.  If the last of them fails, that run
fails with the same error, the same variables and the same frames, and where
execution is over, a run has the same variables; in both cases it has written
the same output.
-/
theorem stepping_is_confluent {program : Program} {output : Sink} (unfailing : output.Unfailing)
    (operations : List Operation) :
    let fresh := ofProgram program output
    let reached := Operation.applyAll operations fresh
    (∃ count, (Operation.applyAll (List.replicate count .stepInto) fresh).state = reached.state ∧
      Journal.bytesTo .output (Operation.applyAll (List.replicate count .stepInto) fresh).journal =
        Journal.bytesTo .output reached.journal) ∧
    Journal.bytesTo .output reached.journal <+: Journal.bytesTo .output fresh.run.journal ∧
    (∀ error, reached.failure = some error →
      fresh.run.failure = some error ∧
      Journal.bytesTo .output fresh.run.journal = Journal.bytesTo .output reached.journal ∧
      fresh.run.state.store = reached.state.store ∧
      fresh.run.state.backtrace = reached.state.backtrace) ∧
    (reached.state.control = .finished →
      Journal.bytesTo .output fresh.run.journal = Journal.bytesTo .output reached.journal ∧
      fresh.run.state.store = reached.state.store) := by
  intro fresh reached
  have unlimited : fresh.output.room = none := Sink.unfailing_iff.mp unfailing
  have onExecution : OnExecution fresh reached := onExecution_applyAll unlimited operations
  refine ⟨onExecution.exists_steps, onExecution.prefix_run, ?_, ?_⟩
  · intro error failure
    obtain ⟨failed, same, written⟩ := onExecution.run_of_failure failure
    exact ⟨failed, written, by rw [same], by rw [same]⟩
  · intro finished
    obtain ⟨same, written⟩ := onExecution.run_of_finished finished
    exact ⟨written, by rw [same]⟩

/-- The sample fails for every way of stepping through it as it does when it is run. -/
theorem confluence_of_sample :
    let operations : List Operation := [.stepOver, .stepInto, .stepOver, .run, .stepOver]
    let fresh := ofProgram .sample {}
    let reached := Operation.applyAll operations fresh
    Sink.Unfailing {} ∧ reached.failure = some (.undefinedProcedure "nowhere" 5) ∧
      fresh.run.failure = some (.undefinedProcedure "nowhere" 5) ∧
      Journal.bytesTo .output fresh.run.journal = Journal.bytesTo .output reached.journal := by
  intro operations fresh reached
  have unfailing : Sink.Unfailing {} := Sink.unfailing_iff.mpr rfl
  have failure : reached.failure = some (.undefinedProcedure "nowhere" 5) := by decide +kernel
  obtain ⟨failed, written, _⟩ := (stepping_is_confluent unfailing operations).2.2.1 _ failure
  exact ⟨unfailing, failure, failed, written⟩

end Machine

end Guu
