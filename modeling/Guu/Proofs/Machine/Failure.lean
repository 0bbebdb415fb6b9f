import Guu.Proofs.Machine.CallStack
import Guu.Proofs.Machine.Writing
import Mathlib.Data.List.Induction

/-!
# Failures

A step that fails has found out why before it changed anything.  So it leaves
the machine in front of the statement that failed, with all variables and
waiting calls as they were, and unless the output refused some bytes, every
later operation fails in the same way.
-/

namespace Guu

namespace Operation

def applyAfter (earlier : MachineOutcome) (operation : Operation) : MachineOutcome :=
  let last := operation.apply earlier.state
  { last with journal := earlier.journal ++ last.journal }

/-- Apply operations one after the other, also after failures.  The last of them decides failure. -/
def applyAll (operations : List Operation) (machine : Machine) : MachineOutcome :=
  operations.foldl applyAfter (.done machine)

@[simp]
theorem applyAll_nil (machine : Machine) : applyAll [] machine = .done machine :=
  rfl

@[simp]
theorem applyAll_concat (operations : List Operation) (operation : Operation)
    (machine : Machine) :
    applyAll (operations ++ [operation]) machine =
      applyAfter (applyAll operations machine) operation := by
  simp [applyAll]

end Operation

namespace Machine

/-! ## What a failing step leaves -/

/-- A failing operation left a machine as it was, apart from an output that refused some bytes. -/
structure Abandons (machine : Machine) (error : RuntimeError) (outcome : MachineOutcome) :
    Prop where
  state : outcome.state = { machine with output := outcome.state.output }
  silent : (∀ kind, error ≠ .output kind) →
    outcome.state.output = machine.output ∧ Journal.bytesTo .output outcome.journal = []

/-- The next step fails, and neither prints nor changes anything. -/
def FailsWith (machine : Machine) (error : RuntimeError) : Prop :=
  ∃ journal, machine.stepInto = ⟨machine, journal, some error⟩ ∧
    Journal.bytesTo .output journal = []

theorem Abandons.refl {machine : Machine} {error : RuntimeError} {journal : Journal}
    (silent : Journal.bytesTo .output journal = []) :
    Abandons machine error ⟨machine, journal, some error⟩ :=
  ⟨rfl, fun _ => ⟨rfl, silent⟩⟩

theorem Abandons.state_eq {machine : Machine} {error : RuntimeError} {outcome : MachineOutcome}
    (abandons : Abandons machine error outcome) (other : ∀ kind, error ≠ .output kind) :
    outcome.state = machine := by
  rw [abandons.state, (abandons.silent other).1]

/-- Every way in which executing a statement fails is found out before anything changes. -/
theorem Executed.abandons {machine : Machine} {position : Position} {callers : List Position}
    {outcome : MachineOutcome} (executed : Executed machine position callers outcome)
    {error : RuntimeError} (failure : outcome.failure = some error) :
    Abandons machine error outcome := by
  cases executed with
  | absent missing =>
      cases failure
      exact .refl rfl
  | undefined found refused =>
      cases failure
      exact .refl rfl
  | overflowed found defined full =>
      cases failure
      exact .refl rfl
  | unprinted found defined refused =>
      cases failure
      refine ⟨state_write _ _, fun other => ?_⟩
      obtain ⟨kind, same⟩ := failure_write refused
      exact absurd same (other kind)
  | printed found defined written => cases failure
  | assigned found defined => cases failure
  | called found defined free => cases failure

@[simp]
theorem bytesTo_start (machine : Machine) :
    Journal.bytesTo .output machine.start.journal = [] := by
  have entered := entered_start machine
  generalize machine.start = outcome at entered
  cases entered with
  | absent ready missing => rfl
  | entered ready found => simp
  | already started => rfl

theorem state_start_of_failure {machine : Machine} {error : RuntimeError}
    (failure : machine.start.failure = some error) : machine.start.state = machine := by
  have entered := entered_start machine
  generalize machine.start = outcome at entered failure
  cases entered with
  | absent ready missing => rfl
  | entered ready found => cases failure
  | already started => cases failure

/-- A failing step leaves what entering `main` leaves, if that has not been done before. -/
theorem abandons_stepInto {machine : Machine} {error : RuntimeError}
    (failure : machine.stepInto.failure = some error) :
    Abandons machine.start.state error machine.stepInto := by
  cases entered : machine.start.failure with
  | some other =>
      rw [stepInto_of_start_failure entered] at failure ⊢
      rw [state_start_of_failure entered]
      cases failure
      exact .refl rfl
  | none =>
      rw [stepInto_of_start_success entered] at failure ⊢
      rcases finished_or_running (control_start_ne_ready entered) with
        finished | ⟨position, callers, running⟩
      · simp [stepInto_of_finished finished, Outcome.done] at failure
      · have abandons := (executed_stepInto running).abandons failure
        refine ⟨abandons.state, fun other => ?_⟩
        obtain ⟨same, silent⟩ := abandons.silent other
        exact ⟨same, by rw [Journal.bytesTo_append, bytesTo_start, silent, List.nil_append]⟩

/-! ## Failures recur -/

/-- Behind a failing step, unless the output is to blame, the next step fails in the same way. -/
theorem failsWith_stepInto {machine : Machine} {error : RuntimeError}
    (failure : machine.stepInto.failure = some error) (other : ∀ kind, error ≠ .output kind) :
    machine.stepInto.state.FailsWith error := by
  have same := (abandons_stepInto failure).state_eq other
  rw [same]
  -- The step after the failure is the failed one without the entering of `main` in front of it.
  have again : machine.start.state.stepInto.failure = some error := by
    cases entered : machine.start.failure with
    | some _ => rwa [state_start_of_failure entered]
    | none => rwa [stepInto_of_start_success entered] at failure
  have started : machine.start.state.start.state = machine.start.state := by
    cases entered : machine.start.failure with
    | some _ => rw [state_start_of_failure entered, state_start_of_failure entered]
    | none => rw [start_of_not_ready (control_start_ne_ready entered), Outcome.done]
  have abandons := abandons_stepInto again
  rw [started] at abandons
  refine ⟨machine.start.state.stepInto.journal, ?_, (abandons.silent other).2⟩
  rw [← again]
  calc machine.start.state.stepInto
      = ⟨machine.start.state.stepInto.state, machine.start.state.stepInto.journal,
          machine.start.state.stepInto.failure⟩ := rfl
    _ = _ := by rw [abandons.state_eq other]

/-- An operation fails with the last step that it makes. -/
theorem exists_failing_step {operation : Operation} {machine : Machine} {error : RuntimeError}
    (failure : (operation.apply machine).failure = some error) :
    ∃ count journal last, Execution always count machine journal last ∧
      last.stepInto.failure = some error ∧
      operation.apply machine =
        ⟨last.stepInto.state, journal ++ last.stepInto.journal, some error⟩ := by
  obtain ⟨count, journal, last, execution, ends⟩ := exists_ends_apply operation machine
  refine ⟨count, journal, last, execution, ?_⟩
  generalize operation.apply machine = outcome at ends failure
  cases ends with
  | succeeded => cases failure
  | failed failed =>
      cases failure
      exact ⟨failed, rfl⟩

theorem failsWith_apply {operation : Operation} {machine : Machine} {error : RuntimeError}
    (failure : (operation.apply machine).failure = some error)
    (other : ∀ kind, error ≠ .output kind) :
    (operation.apply machine).state.FailsWith error := by
  obtain ⟨count, journal, last, execution, failed, outcome⟩ := exists_failing_step failure
  rw [outcome]
  exact failsWith_stepInto failed other

/-- Where a step fails, every operation fails. -/
theorem apply_of_failsWith {machine : Machine} {error : RuntimeError}
    (fails : machine.FailsWith error) (operation : Operation) :
    ∃ journal, operation.apply machine = ⟨machine, journal, some error⟩ ∧
      Journal.bytesTo .output journal = [] := by
  obtain ⟨journal, step, silent⟩ := fails
  refine ⟨journal, ?_, silent⟩
  rw [apply_eq_stepInto_andThen, Outcome.andThen_of_failure (by rw [step]), step]

/-- Where a step fails, nothing changes however operations follow each other. -/
theorem applyAll_of_failsWith {machine : Machine} {error : RuntimeError}
    (fails : machine.FailsWith error) (operations : List Operation) :
    (Operation.applyAll operations machine).state = machine ∧
      Journal.bytesTo .output (Operation.applyAll operations machine).journal = [] ∧
      (operations ≠ [] → (Operation.applyAll operations machine).failure = some error) := by
  induction operations using List.reverseRecOn with
  | nil => exact ⟨rfl, rfl, fun nonempty => absurd rfl nonempty⟩
  | append_singleton earlier operation ih =>
      obtain ⟨same, silent, _⟩ := ih
      obtain ⟨journal, applied, quiet⟩ := apply_of_failsWith fails operation
      rw [Operation.applyAll_concat, Operation.applyAfter, same, applied]
      exact ⟨rfl, by rw [Journal.bytesTo_append, silent, quiet, List.nil_append], fun _ => rfl⟩

/-! ## Failures name the statement that failed -/

/-- An error about a statement names the current line, and a full stack is as deep as it says. -/
def Located (machine : Machine) : RuntimeError → Prop
  | .undefinedProcedure _ line => machine.currentLine? = some line
  | .undefinedVariable _ line => machine.currentLine? = some line
  | .stackOverflow depth line =>
      machine.currentLine? = some line ∧ depth = machine.depth ∧ machine.depth = 1024
  | _ => True

theorem currentLine?_of_running {machine : Machine} {position : Position}
    {callers : List Position} {statement : Statement}
    (running : machine.control = .running position callers)
    (found : machine.program.statement? position = some statement) :
    machine.currentLine? = some statement.line := by
  simp [currentLine?, running, found]

theorem located_stepInto {machine : Machine} (sound : machine.Sound) {error : RuntimeError}
    (failure : machine.stepInto.failure = some error) : machine.stepInto.state.Located error := by
  have abandons := abandons_stepInto failure
  rcases fails_stepInto failure with rfl | ⟨position, callers, running, fails⟩
  · trivial
  · obtain ⟨_, bounded, _⟩ := sound_start sound position callers running
    cases fails with
    | absent missing => trivial
    | unwritten refused => trivial
    | undefinedVariable found =>
        rw [abandons.state_eq nofun]
        exact currentLine?_of_running running found
    | undefinedProcedure found =>
        rw [abandons.state_eq nofun]
        exact currentLine?_of_running running found
    | overflowed found full =>
        rw [abandons.state_eq nofun]
        have depth : machine.start.state.depth = callers.length + 1 := by
          rw [Machine.depth, running]
          rfl
        have exact_depth : callers.length + 1 = 1024 := Nat.le_antisymm bounded full
        exact ⟨currentLine?_of_running running found, depth.symm, depth.trans exact_depth⟩

theorem located_apply {operation : Operation} {machine : Machine} (sound : machine.Sound)
    {error : RuntimeError} (failure : (operation.apply machine).failure = some error) :
    (operation.apply machine).state.Located error := by
  obtain ⟨count, journal, last, execution, failed, outcome⟩ := exists_failing_step failure
  have atLast : last.Sound :=
    execution.preserves (fun machine sound _ => sound_stepInto machine sound) sound
  rw [outcome]
  exact located_stepInto atLast failed

/--
However a machine has been driven so far, a failing step leaves it where it
stood, or where `main` begins, and writes nothing unless the output is to blame.
An operation that fails for another reason fails again and again, and changes
and writes nothing more.  The line in its error is the current one, and only a
stack of 1024 frames is full.
-/
theorem failures_change_nothing {program : Program} {machine : Machine}
    (reachable : Reachable program machine) :
    (∀ position callers error, machine.control = .running position callers →
      machine.stepInto.failure = some error → Abandons machine error machine.stepInto) ∧
    (∀ error, machine.control = .ready → machine.stepInto.failure = some error →
      (error = .entryPointNotFound ∧ machine.stepInto = ⟨machine, #[], some error⟩) ∨
      (machine.enter.failure = none ∧ Abandons machine.enter.state error machine.stepInto)) ∧
    ∀ (operation : Operation) error, (operation.apply machine).failure = some error →
      (operation.apply machine).state.Located error ∧
      ((∀ kind, error ≠ .output kind) → ∀ later : List Operation,
        let again := Operation.applyAll later (operation.apply machine).state
        again.state = (operation.apply machine).state ∧
          Journal.bytesTo .output again.journal = [] ∧
          (later ≠ [] → again.failure = some error)) := by
  refine ⟨?_, ?_, ?_⟩
  · intro position callers error running failure
    have abandons := abandons_stepInto failure
    rwa [start_of_not_ready (by simp [running])] at abandons
  · intro error ready failure
    have entering : machine.start = machine.enter := by rw [start, ready]
    cases entered : machine.enter.failure with
    | some other =>
        left
        have failed := stepInto_of_start_failure (entering ▸ entered)
        rw [failed] at failure
        cases failure
        exact ⟨rfl, failed⟩
    | none =>
        right
        have abandons := abandons_stepInto failure
        rw [entering] at abandons
        exact ⟨rfl, abandons⟩
  · intro operation error failure
    refine ⟨located_apply reachable.sound failure, fun other later => ?_⟩
    exact applyAll_of_failsWith (failsWith_apply failure other) later

/-- Stepping over a call fails two calls further in, and keeps failing there. -/
theorem inner_failure_recurs :
    let program : Program := ⟨#[
      ⟨"main", 1, #[⟨2, .print (.literal 4)⟩, ⟨3, .call "outer"⟩]⟩,
      ⟨"outer", 4, #[⟨5, .call "inner"⟩]⟩,
      ⟨"inner", 6, #[⟨7, .set "a" (.variable "b")⟩]⟩]⟩
    let machine := (Operation.stepInto.apply (ofProgram program {})).state
    let failed := (Operation.stepOver.apply machine).state
    Reachable program machine ∧
      (Operation.stepOver.apply machine).failure = some (.undefinedVariable "b" 7) ∧
      failed.control = .running ⟨2, 0⟩ [⟨1, 0⟩, ⟨0, 1⟩] ∧
      failed.currentLine? = some 7 ∧
      (Operation.applyAll [.run, .stepInto, .stepOver] failed).state = failed ∧
      (Operation.applyAll [.run, .stepInto, .stepOver] failed).failure =
        some (.undefinedVariable "b" 7) := by
  intro program machine failed
  have reachable : Reachable program machine := .operated (.fresh {}) .stepInto
  have failure : (Operation.stepOver.apply machine).failure = some (.undefinedVariable "b" 7) := by
    decide +kernel
  obtain ⟨located, recurs⟩ := (failures_change_nothing reachable).2.2 .stepOver _ failure
  obtain ⟨same, _, again⟩ := recurs (fun _ => by simp) [.run, .stepInto, .stepOver]
  refine ⟨reachable, failure, ?_, located, same, again (by simp)⟩
  decide +kernel

end Machine

end Guu
