import Guu.Proofs.Machine.Operation

/-!
# Every operation ends

However the procedures of a program call each other, only so many instructions
can be executed before execution is over or a step fails.  The bound is the
weight of a longest body in the frame of `main`, since every instruction makes
the weight of the machine smaller.
-/

namespace Guu

namespace Program

/-- The number of instructions that can be executed at most: a longest body's weight in `main`. -/
def instructionBound (program : Program) : Nat :=
  program.longestBody * Nat.pow (program.longestBody + 1) (Machine.stackLimit - 1)

theorem instructionBound_eq (program : Program) :
    program.longestBody * program.statementWeight 1 = program.instructionBound :=
  rfl

-- The exponent is too large for the bound ever to be computed.
attribute [irreducible] instructionBound

end Program

namespace Machine

theorem weight_eq_of_control {machine other : Machine} (program : other.program = machine.program)
    (control : other.control = machine.control) : other.weight = machine.weight := by
  rw [weight, weight, program, control]

/-- A step that does not enter `main` never adds weight, whether it succeeds or fails. -/
theorem weight_stepInto_le {machine : Machine} (started : machine.control ≠ .ready) :
    machine.stepInto.state.weight ≤ machine.weight := by
  rcases finished_or_running started with finished | ⟨position, callers, running⟩
  · rw [stepInto_of_finished finished]
    exact Nat.le_refl _
  · have executed := executed_stepInto running
    cases failure : machine.stepInto.failure with
    | none =>
        have unfinished : machine.control.isFinished = false := by rw [running]; rfl
        exact Nat.le_of_lt (weight_stepInto_lt unfinished failure)
    | some error =>
        have same := weight_eq_of_control executed.program_eq (executed.control_of_failure failure)
        exact Nat.le_of_eq same

/-- Once `main` has been entered, a machine weighs no more than a longest body in its frame. -/
def Bounded (machine : Machine) : Prop :=
  machine.control ≠ .ready → machine.weight ≤ machine.program.instructionBound

theorem bounded_start (machine : Machine) (bounded : machine.Bounded) :
    machine.start.state.Bounded := by
  have entered := entered_start machine
  generalize machine.start = outcome at entered
  cases entered with
  | absent ready missing => exact bounded
  | already started => exact bounded
  | @entered procedure ready found =>
      intro _
      have settled := weight_settle_le machine.program (.start procedure) []
      have frame := machine.program.frameWeight_le 1 (.start procedure)
      rw [Program.instructionBound_eq] at frame
      simp only [Control.weight, Program.waitingWeight, List.length_nil, Nat.zero_add,
        Nat.add_zero] at settled
      exact Nat.le_trans settled frame

theorem bounded_stepInto (machine : Machine) (bounded : machine.Bounded) :
    machine.stepInto.state.Bounded := by
  cases success : machine.start.failure with
  | some error => rwa [stepInto_of_start_failure success]
  | none =>
      have started := control_start_ne_ready success
      rw [stepInto_of_start_success success]
      intro _
      rw [program_stepInto]
      exact Nat.le_trans (weight_stepInto_le started) (bounded_start machine bounded started)

/-- Every machine that can arise is bounded. -/
theorem Reachable.bounded {program : Program} {machine : Machine}
    (reachable : Reachable program machine) : machine.Bounded := by
  refine reachable.holds Bounded ?_ bounded_stepInto ?_
  · intro output started
    exact absurd rfl started
  · intro machine output bounded
    exact bounded

/-! ## Counting instructions -/

theorem instructionsAhead_of_finished {machine : Machine}
    (finished : machine.start.state.control = .finished) : machine.instructionsAhead = 0 := by
  simp [instructionsAhead, finished, Control.isRunning]

theorem instructionsAhead_le_one (machine : Machine) : machine.instructionsAhead ≤ 1 := by
  rw [instructionsAhead]
  split <;> omega

/-- An execution behind the beginning executes no more instructions than its machine weighs. -/
theorem Execution.count_le_weight {continues : Machine → Bool} {count : Nat}
    {machine last : Machine} {journal : Journal}
    (execution : Execution continues count machine journal last)
    (started : machine.control ≠ .ready) : count ≤ machine.weight := by
  induction execution with
  | refl => exact Nat.zero_le _
  | @next count machine last journal unfinished goesOn success rest ih =>
      have lighter := weight_stepInto_lt unfinished success
      have counted := ih (control_stepInto_ne_ready started)
      have single := instructionsAhead_le_one machine
      omega

/-- An execution executes no more instructions than its machine weighs once it is started. -/
theorem Execution.count_le_weight_start {continues : Machine → Bool} {count : Nat}
    {machine last : Machine} {journal : Journal}
    (execution : Execution continues count machine journal last)
    (entered : machine.start.failure = none) : count ≤ machine.start.state.weight := by
  have started := control_start_ne_ready entered
  cases execution with
  | refl => exact Nat.zero_le _
  | @next count _ _ journal unfinished goesOn success rest =>
      rw [stepInto_of_start_success entered] at rest success
      dsimp only at rest success
      have counted := rest.count_le_weight (control_stepInto_ne_ready started)
      rcases finished_or_running started with finished | ⟨position, callers, running⟩
      · have idle := weight_stepInto_le started
        rw [instructionsAhead_of_finished finished]
        omega
      · have lighter := weight_stepInto_lt (by rw [running]; rfl) success
        have single := instructionsAhead_le_one machine
        omega

theorem Execution.count_le_instructionBound {continues : Machine → Bool} {count : Nat}
    {machine last : Machine} {journal : Journal}
    (execution : Execution continues count machine journal last) (bounded : machine.Bounded) :
    count ≤ machine.program.instructionBound := by
  cases entered : machine.start.failure with
  | none =>
      have counted := execution.count_le_weight_start entered
      have start := bounded_start machine bounded (control_start_ne_ready entered)
      rw [program_start] at start
      exact Nat.le_trans counted start
  | some error =>
      cases execution with
      | refl => exact Nat.zero_le _
      | next unfinished goesOn success rest =>
          rw [stepInto_of_start_failure entered] at success
          simp at success

/-- No more procedures are left at once than there are frames. -/
theorem length_notes_settle_le (program : Program) (position : Position)
    (callers : List Position) :
    (settle program position callers).notes.length ≤ callers.length + 1 := by
  induction callers generalizing position with
  | nil =>
      unfold settle
      split <;> simp
  | cons caller outer ih =>
      unfold settle
      split
      · simp
      · simpa using ih caller.next

/-! ## The operations end -/

theorem run_ends {program : Program} {machine : Machine} (reachable : Reachable program machine) :
    ∃ count journal last ending, count ≤ program.instructionBound ∧
      Execution always count machine journal last ∧ LoopEnd always last ending ∧
      machine.run = ⟨ending.state, journal ++ ending.journal, ending.failure⟩ := by
  obtain ⟨count, journal, last, ending, execution, ends, loop⟩ :=
    exists_execution_of_loop always machine
  have counted := execution.count_le_instructionBound reachable.bounded
  rw [reachable.program_eq] at counted
  refine ⟨count, journal, last, ending, counted, execution, ends, ?_⟩
  have run := loop #[]
  rw [Array.empty_append] at run
  exact run

theorem control_run_of_success {machine : Machine} (success : machine.run.failure = none) :
    machine.run.state.control = .finished := by
  obtain ⟨count, journal, last, ending, execution, ends, loop⟩ :=
    exists_execution_of_loop always machine
  have run := loop #[]
  change machine.run = _ at run
  rw [run] at success ⊢
  cases ends with
  | stopped stops =>
      rcases stops with finished | stop
      · exact Control.isFinished_eq_true.mp finished
      · cases stop
  | failed unfinished goesOn failure => simp [failure] at success

theorem stepOver_ends {program : Program} {machine : Machine}
    (reachable : Reachable program machine) (success : machine.stepInto.failure = none) :
    ∃ count journal last ending,
      machine.instructionsAhead + count ≤ program.instructionBound ∧
      Execution machine.start.state.isInside count machine.stepInto.state journal last ∧
      LoopEnd machine.start.state.isInside last ending ∧
      machine.stepOver =
        ⟨ending.state, machine.stepInto.journal ++ (journal ++ ending.journal),
          ending.failure⟩ := by
  obtain ⟨count, journal, last, ending, execution, ends, loop⟩ :=
    exists_execution_of_loop machine.start.state.isInside machine.stepInto.state
  have counted : machine.instructionsAhead + count ≤ program.instructionBound := by
    cases unfinished : machine.control.isFinished with
    | false =>
        have whole := Execution.next unfinished rfl success execution.unconditional
        rw [← reachable.program_eq]
        exact whole.count_le_instructionBound reachable.bounded
    | true =>
        have finished := Control.isFinished_eq_true.mp unfinished
        have idle := stepInto_of_finished finished
        have started : machine.start = .done machine := start_of_not_ready (by simp [finished])
        rw [idle] at execution
        rw [instructionsAhead_of_finished (by rw [started]; exact finished), Nat.zero_add,
          ← reachable.program_eq]
        exact execution.count_le_instructionBound reachable.bounded
  refine ⟨count, journal, last, ending, counted, execution, ends, ?_⟩
  rw [stepOver_eq_stepInto_andThen, Outcome.andThen_of_success success, loop, Array.empty_append]

/--
However a machine has been driven so far, and whatever its output refuses, only
a bounded number of instructions is executed before execution is over or a step
fails.  Running and stepping over are executions of that kind with an end behind
them, and leaving procedures passes every waiting call at most once.
-/
theorem every_operation_ends {program : Program} {machine : Machine}
    (reachable : Reachable program machine) :
    (∀ continues count journal last, Execution continues count machine journal last →
      count ≤ program.instructionBound) ∧
    (∃ count journal last ending, count ≤ program.instructionBound ∧
      Execution always count machine journal last ∧ LoopEnd always last ending ∧
      machine.run = ⟨ending.state, journal ++ ending.journal, ending.failure⟩ ∧
      (machine.run.failure = none → machine.run.state.control = .finished)) ∧
    (machine.stepInto.failure = none → ∃ count journal last ending,
      machine.instructionsAhead + count ≤ program.instructionBound ∧
      Execution machine.start.state.isInside count machine.stepInto.state journal last ∧
      LoopEnd machine.start.state.isInside last ending ∧
      machine.stepOver =
        ⟨ending.state, machine.stepInto.journal ++ (journal ++ ending.journal),
          ending.failure⟩) ∧
    (∀ error, machine.stepInto.failure = some error → machine.stepOver = machine.stepInto) ∧
    ∀ position callers,
      (settle program position callers).notes.length ≤ callers.length + 1 := by
  refine ⟨?_, ?_, stepOver_ends reachable, ?_, length_notes_settle_le program⟩
  · intro continues count journal last execution
    rw [← reachable.program_eq]
    exact execution.count_le_instructionBound reachable.bounded
  · obtain ⟨count, journal, last, ending, counted, execution, ends, run⟩ := run_ends reachable
    exact ⟨count, journal, last, ending, counted, execution, ends, run, control_run_of_success⟩
  · intro error failure
    rw [stepOver_eq_stepInto_andThen, Outcome.andThen_of_failure failure]

/-- Running a `main` that does nothing but call itself ends. -/
theorem recursive_main_ends :
    let program : Program := ⟨#[⟨"main", 1, #[⟨2, .call "main"⟩]⟩]⟩
    let machine := (ofProgram program {}).stepInto.state
    Reachable program machine ∧ ∃ count journal last ending, count ≤ program.instructionBound ∧
      Execution always count machine journal last ∧ LoopEnd always last ending ∧
      machine.run = ⟨ending.state, journal ++ ending.journal, ending.failure⟩ := by
  intro program machine
  have reachable : Reachable program machine := .operated (.fresh {}) .stepInto
  obtain ⟨count, journal, last, ending, counted, execution, ends, run, _⟩ :=
    (every_operation_ends reachable).2.1
  exact ⟨reachable, count, journal, last, ending, counted, execution, ends, run⟩

end Machine

end Guu
