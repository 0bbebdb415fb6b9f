import Guu.Proofs.Machine.Transition

/-!
# Executions

An execution is a chain of successful steps, each of them from a machine that
is not finished.  It counts the instructions that are executed, which is one for
each step, except for the step that enters a `main` without statements.  Running
and stepping over a call are both loops of steps, and the main statement is
that a loop is an execution followed by one of two ends.
-/

namespace Guu

namespace Machine

/-! ## Steps that start elsewhere than in front of a statement -/

theorem start_of_not_ready {machine : Machine} (started : machine.control ≠ .ready) :
    machine.start = .done machine := by
  unfold start
  split
  · rename_i ready
    exact absurd ready started
  · rfl

theorem stepInto_of_not_ready {machine : Machine} (started : machine.control ≠ .ready) :
    machine.stepInto = machine.execute := by
  rw [stepInto, start_of_not_ready started, Outcome.andThen_of_success rfl]
  simp [Outcome.done]

/-- A step from the front of a statement ends in one of the ways that are listed. -/
theorem executed_stepInto {machine : Machine} {position : Position} {callers : List Position}
    (running : machine.control = .running position callers) :
    Executed machine position callers machine.stepInto := by
  rw [stepInto_of_not_ready (by simp [running])]
  exact executed_execute running

theorem stepInto_of_finished {machine : Machine} (finished : machine.control = .finished) :
    machine.stepInto = .done machine := by
  rw [stepInto_of_not_ready (by simp [finished])]
  simp [execute, finished]

theorem start_of_ready {machine : Machine} {procedure : Nat} (ready : machine.control = .ready)
    (found : machine.program.find? Program.entryPoint = some procedure) :
    machine.start =
      ⟨machine.resume (.start procedure) [],
        #[.noted .entered] ++ departures machine.program (.start procedure) [], none⟩ := by
  simp only [start, ready, enter, found]
  rw [Outcome.andThen_of_success rfl]
  rfl

theorem start_of_absent {machine : Machine} (ready : machine.control = .ready)
    (absent : machine.program.find? Program.entryPoint = none) :
    machine.start = ⟨machine, #[], some .entryPointNotFound⟩ := by
  simp only [start, ready, enter, absent]
  rfl

/-- The ways in which entering `main` can end, also where it has been entered before. -/
inductive Entered (machine : Machine) : MachineOutcome → Prop where
  | absent (ready : machine.control = .ready)
      (missing : machine.program.find? Program.entryPoint = none) :
      Entered machine ⟨machine, #[], some .entryPointNotFound⟩
  | entered {procedure : Nat} (ready : machine.control = .ready)
      (found : machine.program.find? Program.entryPoint = some procedure) :
      Entered machine
        ⟨machine.resume (.start procedure) [],
          #[.noted .entered] ++ departures machine.program (.start procedure) [], none⟩
  | already (started : machine.control ≠ .ready) : Entered machine ⟨machine, #[], none⟩

theorem entered_start (machine : Machine) : Entered machine machine.start := by
  by_cases ready : machine.control = .ready
  · cases found : machine.program.find? Program.entryPoint with
    | none =>
        rw [start_of_absent ready found]
        exact .absent ready found
    | some procedure =>
        rw [start_of_ready ready found]
        exact .entered ready found
  · rw [start_of_not_ready ready]
    exact .already ready

/-- Leaving procedures ends in front of a statement or behind `main`, hence not before `main`. -/
theorem control_settle_ne_ready (program : Program) (position : Position)
    (callers : List Position) : (settle program position callers).control ≠ .ready := by
  have unwinds := unwinds_settle program position callers
  generalize (settle program position callers).control = control at unwinds
  induction unwinds with
  | stay found => simp
  | left ended => simp
  | leave ended rest ih => exact ih

theorem control_start_ne_ready {machine : Machine} (success : machine.start.failure = none) :
    machine.start.state.control ≠ .ready := by
  have entered := entered_start machine
  generalize machine.start = outcome at entered success ⊢
  cases entered with
  | absent ready missing => cases success
  | entered ready found => exact control_settle_ne_ready _ _ _
  | already started => exact started

/-- A step is entering `main`, if that has not been done, and a step from there. -/
theorem stepInto_eq_start_andThen (machine : Machine) :
    machine.stepInto = machine.start.andThen stepInto := by
  unfold stepInto Outcome.andThen
  cases success : machine.start.failure with
  | some error => rfl
  | none =>
      have entered := stepInto_of_not_ready (control_start_ne_ready success)
      unfold stepInto Outcome.andThen at entered
      simp only [entered]

@[simp]
theorem program_start (machine : Machine) : machine.start.state.program = machine.program := by
  have entered := entered_start machine
  generalize machine.start = outcome at entered
  cases entered <;> rfl

/-- How a step that is not the first one begins: behind the end, or in front of a statement. -/
theorem finished_or_running {machine : Machine} (started : machine.control ≠ .ready) :
    machine.control = .finished ∨
      ∃ position callers, machine.control = .running position callers := by
  cases control : machine.control with
  | ready => exact absurd control started
  | running position callers => exact .inr ⟨position, callers, rfl⟩
  | finished => exact .inl rfl

theorem stepInto_of_start_failure {machine : Machine} {error : RuntimeError}
    (failure : machine.start.failure = some error) :
    machine.stepInto = ⟨machine, #[], some .entryPointNotFound⟩ := by
  have entered := entered_start machine
  unfold stepInto
  generalize machine.start = outcome at entered failure
  cases entered with
  | absent ready missing => rw [Outcome.andThen_of_failure rfl]
  | entered ready found => cases failure
  | already started => cases failure

theorem stepInto_of_start_success {machine : Machine} (success : machine.start.failure = none) :
    machine.stepInto =
      ⟨machine.start.state.stepInto.state,
        machine.start.journal ++ machine.start.state.stepInto.journal,
        machine.start.state.stepInto.failure⟩ := by
  rw [stepInto_eq_start_andThen, Outcome.andThen_of_success success]

/-- A step fails for want of a `main`, or because of the statement that it executes. -/
theorem fails_stepInto {machine : Machine} {error : RuntimeError}
    (failure : machine.stepInto.failure = some error) :
    error = .entryPointNotFound ∨
      ∃ position callers, machine.start.state.control = .running position callers ∧
        Fails machine.start.state position callers error := by
  cases entered : machine.start.failure with
  | some other =>
      rw [stepInto_of_start_failure entered] at failure
      cases failure
      exact .inl rfl
  | none =>
      rw [stepInto_of_start_success entered] at failure
      rcases finished_or_running (control_start_ne_ready entered) with
        finished | ⟨position, callers, running⟩
      · simp [stepInto_of_finished finished, Outcome.done] at failure
      · exact .inr ⟨position, callers, running, (executed_stepInto running).fails failure⟩

/-- A machine that has entered `main` never stands before it again. -/
theorem control_stepInto_ne_ready {machine : Machine} (started : machine.control ≠ .ready) :
    machine.stepInto.state.control ≠ .ready := by
  rcases finished_or_running started with finished | ⟨position, callers, running⟩
  · rw [stepInto_of_finished finished]
    exact started
  · have executed := executed_stepInto running
    generalize machine.stepInto = outcome at executed
    cases executed with
    | unprinted found defined refused => simpa using started
    | printed found defined written => exact control_settle_ne_ready _ _ _
    | assigned found defined => exact control_settle_ne_ready _ _ _
    | called found defined free => exact control_settle_ne_ready _ _ _
    | absent missing => exact started
    | undefined found refused => exact started
    | overflowed found defined full => exact started

theorem control_stepInto_of_success {machine : Machine}
    (success : machine.stepInto.failure = none) : machine.stepInto.state.control ≠ .ready := by
  cases entered : machine.start.failure with
  | some error => simp [stepInto_of_start_failure entered] at success
  | none =>
      rw [stepInto_of_start_success entered]
      exact control_stepInto_ne_ready (control_start_ne_ready entered)

/-- What entering `main` and executing a statement keep, every step keeps. -/
theorem stepInto_preserves (Holds : Machine → Prop)
    (entered : ∀ machine, Holds machine → Holds machine.start.state)
    (executed : ∀ machine position callers outcome,
      machine.control = .running position callers → Executed machine position callers outcome →
      Holds machine → Holds outcome.state)
    (machine : Machine) (holds : Holds machine) : Holds machine.stepInto.state := by
  cases success : machine.start.failure with
  | some error =>
      rw [stepInto_of_start_failure success]
      exact holds
  | none =>
      rw [stepInto_of_start_success success]
      rcases finished_or_running (control_start_ne_ready success) with
        finished | ⟨position, callers, running⟩
      · rw [stepInto_of_finished finished]
        exact entered machine holds
      · exact executed _ _ _ machine.start.state.stepInto running (executed_stepInto running)
          (entered machine holds)

@[simp]
theorem program_stepInto (machine : Machine) :
    machine.stepInto.state.program = machine.program := by
  refine stepInto_preserves (fun other => other.program = machine.program) ?_ ?_ machine rfl
  · intro other same
    rw [program_start, same]
  · intro other position callers outcome running executed same
    rw [executed.program_eq, same]

/-! ## Chains of steps -/

def instructionsAhead (machine : Machine) : Nat :=
  if machine.start.state.control.isRunning then 1 else 0

/-- Successful steps from one machine to another, while a condition holds, with their events. -/
inductive Execution (continues : Machine → Bool) : Nat → Machine → Journal → Machine → Prop where
  | refl (machine : Machine) : Execution continues 0 machine #[] machine
  | next {count : Nat} {machine last : Machine} {journal : Journal}
      (unfinished : machine.control.isFinished = false) (goesOn : continues machine = true)
      (success : machine.stepInto.failure = none)
      (rest : Execution continues count machine.stepInto.state journal last) :
      Execution continues (machine.instructionsAhead + count) machine
        (machine.stepInto.journal ++ journal) last

def always : Machine → Bool :=
  fun _ => true

namespace Execution

variable {continues : Machine → Bool} {first middle last : Machine}

theorem single (unfinished : first.control.isFinished = false) (goesOn : continues first = true)
    (success : first.stepInto.failure = none) :
    Execution continues first.instructionsAhead first first.stepInto.journal
      first.stepInto.state := by
  have chain := Execution.next unfinished goesOn success (.refl first.stepInto.state)
  simpa using chain

theorem trans {earlier later : Nat} {before behind : Journal}
    (left : Execution continues earlier first before middle)
    (right : Execution continues later middle behind last) :
    Execution continues (earlier + later) first (before ++ behind) last := by
  induction left with
  | refl => simpa using right
  | next unfinished goesOn success rest ih =>
      have joined := Execution.next unfinished goesOn success (ih right)
      simpa only [Nat.add_assoc, Array.append_assoc] using joined

theorem unconditional {count : Nat} {journal : Journal}
    (execution : Execution continues count first journal last) :
    Execution always count first journal last := by
  induction execution with
  | refl => exact .refl _
  | next unfinished goesOn success rest ih => exact .next unfinished rfl success ih

/-- What holds at the beginning of an execution and is kept by its steps holds at its end. -/
theorem preserves {count : Nat} {journal : Journal} {Holds : Machine → Prop}
    (execution : Execution continues count first journal last)
    (kept : ∀ machine, Holds machine → machine.stepInto.failure = none →
      Holds machine.stepInto.state)
    (holds : Holds first) : Holds last := by
  induction execution with
  | refl => exact holds
  | next unfinished goesOn success rest ih => exact ih (kept _ holds success)

end Execution

/-! ## Loops -/

/-- How a loop of steps ends behind its last successful step: it stops, or a step fails. -/
inductive LoopEnd (continues : Machine → Bool) (last : Machine) : MachineOutcome → Prop where
  | stopped (stops : last.control.isFinished = true ∨ continues last = false) :
      LoopEnd continues last (.done last)
  | failed {error : RuntimeError} (unfinished : last.control.isFinished = false)
      (goesOn : continues last = true) (failure : last.stepInto.failure = some error) :
      LoopEnd continues last last.stepInto

theorem stepWhile_of_stops {continues : Machine → Bool} {machine : Machine}
    (stops : machine.control.isFinished = true ∨ continues machine = false) (journal : Journal) :
    machine.stepWhile continues journal = ⟨machine, journal, none⟩ := by
  rw [stepWhile]
  rcases stops with finished | stop
  · simp [finished]
  · simp [stop]

theorem stepWhile_of_success {continues : Machine → Bool} {machine : Machine}
    (unfinished : machine.control.isFinished = false) (goesOn : continues machine = true)
    (success : machine.stepInto.failure = none) (journal : Journal) :
    machine.stepWhile continues journal =
      machine.stepInto.state.stepWhile continues (journal ++ machine.stepInto.journal) := by
  rw [stepWhile, dif_pos ⟨unfinished, goesOn⟩]
  dsimp only
  split
  · rfl
  · rename_i error failure
    simp [success] at failure

theorem stepWhile_of_failure {continues : Machine → Bool} {machine : Machine}
    {error : RuntimeError} (unfinished : machine.control.isFinished = false)
    (goesOn : continues machine = true) (failure : machine.stepInto.failure = some error)
    (journal : Journal) :
    machine.stepWhile continues journal =
      ⟨machine.stepInto.state, journal ++ machine.stepInto.journal, some error⟩ := by
  rw [stepWhile, dif_pos ⟨unfinished, goesOn⟩]
  dsimp only
  split
  · rename_i success
    simp [failure] at success
  · rename_i other other_eq
    rw [failure] at other_eq
    cases other_eq
    rfl

/-- A loop passes along an execution. -/
theorem stepWhile_of_execution {continues : Machine → Bool} {count : Nat} {machine last : Machine}
    {journal : Journal} (execution : Execution continues count machine journal last)
    (earlier : Journal) :
    machine.stepWhile continues earlier = last.stepWhile continues (earlier ++ journal) := by
  induction execution generalizing earlier with
  | refl => simp
  | next unfinished goesOn success rest ih =>
      rw [stepWhile_of_success unfinished goesOn success, ih, Array.append_assoc]

/-- Every loop is an execution with an end behind it. -/
theorem exists_execution_of_loop (continues : Machine → Bool) (machine : Machine) :
    ∃ count journal last ending, Execution continues count machine journal last ∧
      LoopEnd continues last ending ∧
      ∀ earlier, machine.stepWhile continues earlier =
        ⟨ending.state, earlier ++ (journal ++ ending.journal), ending.failure⟩ := by
  -- The weight of the machine, which every step makes smaller, carries the induction.
  induction weight : machine.weight using Nat.strongRecOn generalizing machine with
  | _ _ ih =>
  subst weight
  by_cases stops : machine.control.isFinished = true ∨ continues machine = false
  · refine ⟨0, #[], machine, .done machine, .refl machine, .stopped stops, fun earlier => ?_⟩
    rw [stepWhile_of_stops stops]
    simp [Outcome.done]
  · simp only [not_or, Bool.not_eq_true, Bool.not_eq_false] at stops
    obtain ⟨unfinished, goesOn⟩ := stops
    cases failure : machine.stepInto.failure with
    | some error =>
        refine ⟨0, #[], machine, machine.stepInto, .refl machine,
          .failed unfinished goesOn failure, fun earlier => ?_⟩
        rw [stepWhile_of_failure unfinished goesOn failure, failure, Array.empty_append]
    | none =>
        obtain ⟨count, journal, last, ending, execution, ends, loop⟩ :=
          ih _ (weight_stepInto_lt unfinished failure) machine.stepInto.state rfl
        refine ⟨_, _, last, ending, .next unfinished goesOn failure execution, ends,
          fun earlier => ?_⟩
        rw [stepWhile_of_success unfinished goesOn failure, loop]
        simp only [Array.append_assoc]

/-- The events in front of a loop stay there. -/
theorem stepWhile_eq_andThen (continues : Machine → Bool) (earlier : Journal)
    (machine : Machine) :
    machine.stepWhile continues earlier =
      (Outcome.mk machine earlier none).andThen fun machine => machine.stepWhile continues #[] := by
  obtain ⟨count, journal, last, ending, execution, ends, loop⟩ :=
    exists_execution_of_loop continues machine
  rw [Outcome.andThen_of_success rfl]
  simp only [loop, Array.empty_append]

/-- Running is a step, and running from there. -/
theorem run_eq_stepInto_andThen (machine : Machine) :
    machine.run = machine.stepInto.andThen run := by
  cases unfinished : machine.control.isFinished with
  | true =>
      have finished := Control.isFinished_eq_true.mp unfinished
      rw [stepInto_of_finished finished, Outcome.andThen_of_success rfl]
      simp [Outcome.done]
  | false =>
      unfold run
      cases stepped : machine.stepInto.failure with
      | some error =>
          rw [stepWhile_of_failure unfinished rfl stepped, Outcome.andThen_of_failure stepped,
            ← stepped, Array.empty_append]
      | none =>
          rw [stepWhile_of_success unfinished rfl stepped, stepWhile_eq_andThen,
            Outcome.andThen_of_success rfl, Outcome.andThen_of_success stepped,
            Array.empty_append]

/-- Running is entering `main`, if that has not been done, and running from there. -/
theorem run_eq_start_andThen (machine : Machine) : machine.run = machine.start.andThen run := by
  rw [run_eq_stepInto_andThen, stepInto_eq_start_andThen, Outcome.andThen_assoc]
  simp only [← run_eq_stepInto_andThen]

theorem run_of_execution {count : Nat} {machine last : Machine} {journal : Journal}
    (execution : Execution always count machine journal last) :
    machine.run = (Outcome.mk last journal none).andThen run := by
  have passed := stepWhile_of_execution execution #[]
  rw [Array.empty_append] at passed
  exact passed.trans (stepWhile_eq_andThen always journal last)

end Machine

end Guu
