import Guu.Machine.Run

/-!
# What a step does

A step from the front of a statement ends in one of seven ways.  `Executed`
lists them once, with everything that a step changes and notes, so that no
later proof has to open the step itself.  Steps of machines that have not been
started, or that are finished, are described beside it.
-/

namespace Guu

namespace Control

theorem isFinished_eq_true {control : Control} :
    control.isFinished = true ↔ control = .finished := by
  cases control <;> simp [isFinished]

theorem isFinished_eq_false {control : Control} :
    control.isFinished = false ↔ control ≠ .finished := by
  cases control <;> simp [isFinished]

end Control

namespace Machine

def resume (machine : Machine) (position : Position) (callers : List Position) : Machine :=
  { machine with control := (settle machine.program position callers).control }

def departures (program : Program) (position : Position) (callers : List Position) : Journal :=
  ((settle program position callers).notes.map Event.noted).toArray

theorem moveTo_eq_resume (machine : Machine) (position : Position) (callers : List Position) :
    machine.moveTo position callers =
      ⟨machine.resume position callers, departures machine.program position callers, none⟩ :=
  rfl

/-! ## Leaving procedures -/

theorem settle_of_statement {program : Program} {position : Position} {statement : Statement}
    (found : program.statement? position = some statement) (callers : List Position) :
    settle program position callers = ⟨.running position callers, []⟩ := by
  unfold settle
  simp [found]

def returning (program : Program) : List Position → Control
  | [] => .finished
  | caller :: outer => (settle program caller.next outer).control

theorem control_settle_of_end {program : Program} {position : Position}
    (ended : program.statement? position = none) (callers : List Position) :
    (settle program position callers).control = returning program callers := by
  cases callers with
  | nil =>
      rw [settle]
      simp [ended, returning]
  | cons caller outer =>
      rw [settle]
      simp [ended, returning]

/-- Leaving procedures starts at a place and passes through the places behind waiting calls. -/
inductive Unwinds (program : Program) : Position → List Position → Control → Prop where
  | stay {position : Position} {callers : List Position} {statement : Statement}
      (found : program.statement? position = some statement) :
      Unwinds program position callers (.running position callers)
  | left {position : Position} (ended : program.statement? position = none) :
      Unwinds program position [] .finished
  | leave {position caller : Position} {outer : List Position} {control : Control}
      (ended : program.statement? position = none)
      (rest : Unwinds program caller.next outer control) :
      Unwinds program position (caller :: outer) control

theorem unwinds_settle (program : Program) (position : Position) (callers : List Position) :
    Unwinds program position callers (settle program position callers).control := by
  induction callers generalizing position with
  | nil =>
      cases found : program.statement? position with
      | none =>
          rw [control_settle_of_end found]
          exact .left found
      | some statement =>
          rw [settle_of_statement found]
          exact .stay found
  | cons caller outer ih =>
      cases found : program.statement? position with
      | none =>
          rw [control_settle_of_end found]
          exact .leave found (ih caller.next)
      | some statement =>
          rw [settle_of_statement found]
          exact .stay found

/-! ## Executing a statement -/

theorem value_cases (machine : Machine) (line : Nat) (operand : Operand) :
    (∃ value, machine.value line operand = .ok value) ∨
      ∃ name, machine.value line operand = .error (.undefinedVariable name line) := by
  cases operand with
  | literal word => exact .inl ⟨word, rfl⟩
  | «variable» name =>
      cases held : machine.store.get? name with
      | some word => exact .inl ⟨word, by simp [value, held]⟩
      | none => exact .inr ⟨name, by simp [value, held]⟩

/-- What a statement is about to do, or the name in it that stands for nothing. -/
theorem effect_cases (machine : Machine) (statement : Statement) :
    (∃ value, machine.effect statement = .ok (.print value)) ∨
    (∃ name value, machine.effect statement = .ok (.set name value)) ∨
    (∃ name procedure, statement.instruction = .call name ∧
      machine.program.find? name = some procedure ∧
      machine.effect statement = .ok (.call procedure)) ∨
    (∃ name, machine.effect statement = .error (.undefinedVariable name statement.line)) ∨
    (∃ name, machine.effect statement = .error (.undefinedProcedure name statement.line)) := by
  obtain ⟨line, instruction⟩ := statement
  cases instruction with
  | print operand =>
      rcases machine.value_cases line operand with ⟨value, resolved⟩ | ⟨name, resolved⟩
      · exact .inl ⟨value, by simp [effect, resolved, Except.map]⟩
      · exact .inr (.inr (.inr (.inl ⟨name, by simp [effect, resolved, Except.map]⟩)))
  | set name operand =>
      rcases machine.value_cases line operand with ⟨value, resolved⟩ | ⟨other, resolved⟩
      · exact .inr (.inl ⟨name, value, by simp [effect, resolved, Except.map]⟩)
      · exact .inr (.inr (.inr (.inl ⟨other, by simp [effect, resolved, Except.map]⟩)))
  | call name =>
      cases found : machine.program.find? name with
      | some procedure =>
          exact .inr (.inr (.inl ⟨name, procedure, rfl, found, by simp [effect, found]⟩))
      | none => exact .inr (.inr (.inr (.inr ⟨name, by simp [effect, found]⟩)))

def announcement (statement : Statement) (effect : Effect) : Journal :=
  #[.noted (.executing statement.line effect)]

/-- The ways in which executing the statement at a place can end. -/
inductive Executed (machine : Machine) (position : Position) (callers : List Position) :
    MachineOutcome → Prop where
  | absent (missing : machine.program.statement? position = none) :
      Executed machine position callers ⟨machine, #[], some (.invalidInstruction 0)⟩
  | undefined {statement : Statement} {error : RuntimeError}
      (found : machine.program.statement? position = some statement)
      (refused : machine.effect statement = .error error) :
      Executed machine position callers ⟨machine, #[], some error⟩
  | unprinted {statement : Statement} {value : Int64} {error : RuntimeError}
      (found : machine.program.statement? position = some statement)
      (defined : machine.effect statement = .ok (.print value))
      (refused : (machine.write (printedPieces value)).failure = some error) :
      Executed machine position callers
        ⟨(machine.write (printedPieces value)).state,
          announcement statement (.print value) ++ (machine.write (printedPieces value)).journal,
          some error⟩
  | printed {statement : Statement} {value : Int64}
      (found : machine.program.statement? position = some statement)
      (defined : machine.effect statement = .ok (.print value))
      (written : (machine.write (printedPieces value)).failure = none) :
      Executed machine position callers
        ⟨(machine.write (printedPieces value)).state.resume position.next callers,
          announcement statement (.print value) ++
            ((machine.write (printedPieces value)).journal ++
              departures machine.program position.next callers),
          none⟩
  | assigned {statement : Statement} {name : String} {value : Int64}
      (found : machine.program.statement? position = some statement)
      (defined : machine.effect statement = .ok (.set name value)) :
      Executed machine position callers
        ⟨{ machine with store := machine.store.set name value }.resume position.next callers,
          announcement statement (.set name value) ++
            departures machine.program position.next callers,
          none⟩
  | overflowed {statement : Statement} {procedure : Nat}
      (found : machine.program.statement? position = some statement)
      (defined : machine.effect statement = .ok (.call procedure))
      (full : stackLimit ≤ callers.length + 1) :
      Executed machine position callers
        ⟨machine, announcement statement (.call procedure),
          some (.stackOverflow (callers.length + 1) statement.line)⟩
  | called {statement : Statement} {procedure : Nat}
      (found : machine.program.statement? position = some statement)
      (defined : machine.effect statement = .ok (.call procedure))
      (free : callers.length + 1 < stackLimit) :
      Executed machine position callers
        ⟨machine.resume (.start procedure) (position :: callers),
          announcement statement (.call procedure) ++
            departures machine.program (.start procedure) (position :: callers),
          none⟩

@[simp]
theorem program_write (machine : Machine) (pieces : List (List Char)) :
    (machine.write pieces).state.program = machine.program := by
  rw [state_write]

@[simp]
theorem control_write (machine : Machine) (pieces : List (List Char)) :
    (machine.write pieces).state.control = machine.control := by
  rw [state_write]

@[simp]
theorem program_resume (machine : Machine) (position : Position) (callers : List Position) :
    (machine.resume position callers).program = machine.program :=
  rfl

namespace Executed

variable {machine : Machine} {position : Position} {callers : List Position}
  {outcome : MachineOutcome}

theorem program_eq (executed : Executed machine position callers outcome) :
    outcome.state.program = machine.program := by
  cases executed with
  | unprinted found defined refused => exact program_write _ _
  | printed found defined written => simp
  | _ => rfl

/-- A failing step stays where it is. -/
theorem control_of_failure (executed : Executed machine position callers outcome)
    {error : RuntimeError} (failure : outcome.failure = some error) :
    outcome.state.control = machine.control := by
  cases executed with
  | absent missing => rfl
  | undefined found refused => rfl
  | unprinted found defined refused => exact control_write _ _
  | overflowed found defined full => rfl
  | printed found defined written => simp at failure
  | assigned found defined => simp at failure
  | called found defined free => simp at failure

end Executed

inductive Fails (machine : Machine) (position : Position) (callers : List Position) :
    RuntimeError → Prop where
  | absent (missing : machine.program.statement? position = none) :
      Fails machine position callers (.invalidInstruction 0)
  | undefinedVariable {statement : Statement} {name : String}
      (found : machine.program.statement? position = some statement) :
      Fails machine position callers (.undefinedVariable name statement.line)
  | undefinedProcedure {statement : Statement} {name : String}
      (found : machine.program.statement? position = some statement) :
      Fails machine position callers (.undefinedProcedure name statement.line)
  | unwritten {pieces : List (List Char)} {kind : FailureKind}
      (refused : (machine.write pieces).failure = some (.output kind)) :
      Fails machine position callers (.output kind)
  | overflowed {statement : Statement}
      (found : machine.program.statement? position = some statement)
      (full : stackLimit ≤ callers.length + 1) :
      Fails machine position callers (.stackOverflow (callers.length + 1) statement.line)

theorem failure_write {machine : Machine} {pieces : List (List Char)} {error : RuntimeError}
    (failure : (machine.write pieces).failure = some error) : ∃ kind, error = .output kind := by
  induction pieces generalizing machine with
  | nil => cases failure
  | cons piece rest ih =>
      simp only [write] at failure
      split at failure
      · rw [Outcome.andThen_of_success rfl] at failure
        exact ih failure
      · cases failure
        exact ⟨_, rfl⟩

theorem Executed.fails {machine : Machine} {position : Position} {callers : List Position}
    {outcome : MachineOutcome} (executed : Executed machine position callers outcome)
    {error : RuntimeError} (failure : outcome.failure = some error) :
    Fails machine position callers error := by
  cases executed with
  | absent missing =>
      cases failure
      exact .absent missing
  | @undefined statement _ found refused =>
      cases failure
      rcases machine.effect_cases statement with
        ⟨_, same⟩ | ⟨_, _, same⟩ | ⟨_, _, _, _, same⟩ | ⟨_, same⟩ | ⟨_, same⟩ <;>
        cases refused.symm.trans same
      · exact .undefinedVariable found
      · exact .undefinedProcedure found
  | unprinted found defined refused =>
      cases failure
      obtain ⟨kind, rfl⟩ := failure_write refused
      exact .unwritten refused
  | overflowed found defined full =>
      cases failure
      exact .overflowed found full
  | printed found defined written => cases failure
  | assigned found defined => cases failure
  | called found defined free => cases failure

theorem execute_of_effect {machine : Machine} {position : Position} {callers : List Position}
    {statement : Statement} {effect : Effect}
    (running : machine.control = .running position callers)
    (found : machine.program.statement? position = some statement)
    (defined : machine.effect statement = .ok effect) :
    machine.execute =
      ⟨(machine.perform position callers statement.line effect).state,
        announcement statement effect ++
          (machine.perform position callers statement.line effect).journal,
        (machine.perform position callers statement.line effect).failure⟩ := by
  simp only [execute, running, found, defined]
  rw [Outcome.andThen_of_success rfl]
  rfl

theorem execute_of_error {machine : Machine} {position : Position} {callers : List Position}
    {statement : Statement} {error : RuntimeError}
    (running : machine.control = .running position callers)
    (found : machine.program.statement? position = some statement)
    (refused : machine.effect statement = .error error) :
    machine.execute = ⟨machine, #[], some error⟩ := by
  simp only [execute, running, found, refused]
  rfl

/-- Executing a statement ends in one of the ways that are listed. -/
theorem executed_execute {machine : Machine} {position : Position} {callers : List Position}
    (running : machine.control = .running position callers) :
    Executed machine position callers machine.execute := by
  cases found : machine.program.statement? position with
  | none =>
      simp only [execute, running, found]
      exact .absent found
  | some statement =>
      cases defined : machine.effect statement with
      | error error =>
          rw [execute_of_error running found defined]
          exact .undefined found defined
      | ok effect =>
          rw [execute_of_effect running found defined]
          cases effect with
          | print value =>
              simp only [perform]
              cases written : (machine.write (printedPieces value)).failure with
              | some error =>
                  rw [Outcome.andThen_of_failure written, written]
                  exact .unprinted found defined written
              | none =>
                  rw [Outcome.andThen_of_success written]
                  simp only [moveTo_eq_resume, program_write]
                  exact .printed found defined written
          | set name value => exact .assigned found defined
          | call procedure =>
              simp only [perform]
              split
              · rename_i full
                exact .overflowed found defined full
              · rename_i free
                exact .called found defined (Nat.lt_of_not_le free)

end Machine

end Guu
