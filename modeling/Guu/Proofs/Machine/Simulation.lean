import Guu.Proofs.Machine.CallStack
import Guu.Proofs.Program.Indexing

/-!
# Machines with a stack and machines

A machine with a stack does what the machine does whose waiting calls its frames
are for: every step of one is a step of the other, with the same events and the
same failure, and so is every loop of steps.  The frames below a running procedure
are those of the calls in front of the places where they resume, and the lowest one
is that of `main`.
-/

namespace Guu

namespace IndexedProgram.Represents

variable {indexed : IndexedProgram} {program : Program} {position : Position}

theorem tree?_eq_none (represents : indexed.Represents program) :
    indexed.tree? position = none ↔ program.statement? position = none := by
  rw [← Option.map_eq_none_iff, represents.tree? position, Option.map_eq_none_iff]

/-- The tree at the place of a statement is read as this statement. -/
theorem exists_tree? (represents : indexed.Represents program) {statement : Statement}
    (found : program.statement? position = some statement) :
    ∃ tree, indexed.tree? position = some tree ∧ tree.line? = some statement.line ∧
      Instruction.ofTree? tree = some statement.instruction := by
  have same := represents.tree? position
  rw [found] at same
  obtain ⟨tree, stands, denoted⟩ := Option.map_eq_some_iff.mp same
  obtain ⟨instruction, read, rfl⟩ := Option.map_eq_some_iff.mp denoted
  refine ⟨tree, stands, ?_, read⟩
  cases line : tree.line? with
  | some number => rfl
  | none => cases tree <;> simp [Tree.line?, Instruction.ofTree?] at line read

theorem name?_eq (represents : indexed.Represents program) (position : Position) :
    (indexed.routine? position).map Routine.name =
      (program.procedure? position).map Procedure.name := by
  have same := congrArg (Option.map Prod.fst) (represents.routine? position)
  rw [Option.map_map, Option.map_map] at same
  exact same

end IndexedProgram.Represents

namespace StackMachine

/-- A machine with a stack has the program, the variables and the output of a machine. -/
structure Accords (stack : StackMachine) (machine : Machine) : Prop where
  program : stack.program.Represents machine.program
  store : stack.store = machine.store
  output : stack.output = machine.output

theorem Accords.move {stack : StackMachine} {machine : Machine} (accords : Accords stack machine)
    (frames : List Frame) (position : Position) (phase : Phase) :
    Accords { stack with stack := frames, position := position, phase := phase } machine :=
  ⟨accords.program, accords.store, accords.output⟩

inductive Stands : Phase → Position → List Frame → Control → Prop where
  | ready (position : Position) : Stands .ready position [] .ready
  | running (position : Position) (callers : List Position) :
      Stands .running position (Control.running position callers).frames
        (.running position callers)
  | finished (position : Position) : Stands .finished position [] .finished

/-- A machine with a stack stands where a machine stands. -/
structure Simulates (stack : StackMachine) (machine : Machine) : Prop
    extends Accords stack machine where
  stands : Stands stack.phase stack.position stack.stack machine.control

namespace Simulates

variable {stack : StackMachine} {machine : Machine}

/-- Both stand before `main`, in front of the same statement, or behind `main`. -/
theorem cases (simulates : Simulates stack machine) :
    (machine.control = .ready ∧ stack.phase = .ready ∧ stack.stack = []) ∨
    (∃ callers, machine.control = .running stack.position callers ∧ stack.phase = .running ∧
      stack.stack = (Control.running stack.position callers).frames) ∨
    (machine.control = .finished ∧ stack.phase = .finished ∧ stack.stack = []) := by
  have stands := simulates.stands
  generalize machine.control = control at stands
  obtain ⟨_, _, frames, position, phase, _⟩ := stack
  cases stands with
  | ready => exact .inl ⟨rfl, rfl, rfl⟩
  | running _ callers => exact .inr (.inl ⟨callers, rfl, rfl, rfl⟩)
  | finished => exact .inr (.inr ⟨rfl, rfl, rfl⟩)

theorem of_running (simulates : Simulates stack machine) {position : Position}
    {callers : List Position} (control : machine.control = .running position callers) :
    stack.phase = .running ∧ stack.position = position ∧
      stack.stack = (Control.running position callers).frames := by
  rcases simulates.cases with ⟨ready, _⟩ | ⟨waiting, active, running, frames⟩ | ⟨finished, _⟩
  · cases control.symm.trans ready
  · cases control.symm.trans active
    exact ⟨running, rfl, frames⟩
  · cases control.symm.trans finished

theorem depth_eq (simulates : Simulates stack machine) : stack.stack.length = machine.depth := by
  rw [Machine.depth, ← Control.length_frames]
  rcases simulates.cases with
    ⟨control, _, frames⟩ | ⟨callers, control, _, frames⟩ | ⟨control, _, frames⟩ <;>
    rw [control, frames] <;> rfl

end Simulates

structure Agrees (stack : StackOutcome) (outcome : MachineOutcome) : Prop where
  state : Simulates stack.state outcome.state
  journal : stack.journal = outcome.journal
  failure : stack.failure = outcome.failure

namespace Agrees

theorem behind {stack : StackOutcome} {outcome : MachineOutcome} (agrees : Agrees stack outcome)
    (journal : Journal) :
    Agrees ⟨stack.state, journal ++ stack.journal, stack.failure⟩
      ⟨outcome.state, journal ++ outcome.journal, outcome.failure⟩ :=
  ⟨agrees.state, congrArg (journal ++ ·) agrees.journal, agrees.failure⟩

theorem andThen {first : StackOutcome} {outcome : MachineOutcome}
    {later : StackMachine → StackOutcome} {following : Machine → MachineOutcome}
    (agrees : Agrees first outcome)
    (further : first.failure = none → Agrees (later first.state) (following outcome.state)) :
    Agrees (first.andThen later) (outcome.andThen following) := by
  cases failed : outcome.failure with
  | some error =>
      rw [Outcome.andThen_of_failure failed,
        Outcome.andThen_of_failure (agrees.failure.trans failed)]
      exact agrees
  | none =>
      have success := agrees.failure.trans failed
      rw [Outcome.andThen_of_success failed, Outcome.andThen_of_success success, agrees.journal]
      exact (further success).behind outcome.journal

end Agrees

variable {stack : StackMachine} {machine : Machine}

/-! ## Leaving procedures -/

theorem unwind_of_tree {tree : Tree}
    (stands : stack.program.tree? stack.position = some tree) : stack.unwind = .done stack := by
  rw [unwind, if_neg (by simp [stands])]

theorem unwind_of_entry (running : stack.phase = .running)
    (ended : stack.program.tree? stack.position = none) {below : List Frame}
    (frames : stack.stack = .entry :: below) :
    stack.unwind =
      ⟨{ stack with stack := [], phase := .finished }, #[.noted .mainReturned], none⟩ := by
  rw [unwind, if_pos ⟨running, ended⟩]
  split
  · rename_i resumes
    cases frames.symm.trans resumes
  · rfl

theorem unwind_of_resume (running : stack.phase = .running)
    (ended : stack.program.tree? stack.position = none) {place : Position} {below : List Frame}
    (frames : stack.stack = .resume place :: below) :
    stack.unwind =
      ⟨{ stack with stack := below, position := place }.unwind.state,
        #[.noted (.returning (((stack.program.routine? place).map Routine.name).getD "?"))] ++
          { stack with stack := below, position := place }.unwind.journal,
        { stack with stack := below, position := place }.unwind.failure⟩ := by
  rw [unwind, if_pos ⟨running, ended⟩]
  split
  · rename_i resumes
    cases frames.symm.trans resumes
    rfl
  · rename_i other
    exact absurd frames (other _ _)

theorem moveTo_of_statement {position : Position} {statement : Statement}
    (found : machine.program.statement? position = some statement) (callers : List Position) :
    machine.moveTo position callers =
      .done { machine with control := .running position callers } := by
  rw [Machine.moveTo, Machine.settle_of_statement found]
  rfl

theorem moveTo_of_exit {position : Position}
    (ended : machine.program.statement? position = none) :
    machine.moveTo position [] =
      ⟨{ machine with control := .finished }, #[.noted .mainReturned], none⟩ := by
  simp [Machine.moveTo, Machine.settle, ended, Outcome.after]

theorem moveTo_of_return {position : Position}
    (ended : machine.program.statement? position = none) (caller : Position)
    (outer : List Position) :
    machine.moveTo position (caller :: outer) =
      ⟨(machine.moveTo caller.next outer).state,
        #[.noted (.returning (machine.program.nameAt caller))] ++
          (machine.moveTo caller.next outer).journal, none⟩ := by
  simp [Machine.moveTo, Machine.settle, ended, Outcome.after]

theorem Agrees.done (simulates : Simulates stack machine) : Agrees (.done stack) (.done machine) :=
  ⟨simulates, rfl, rfl⟩

theorem Accords.agrees_done (accords : stack.Accords machine) (running : stack.phase = .running)
    {callers : List Position}
    (frames : stack.stack = (Control.running stack.position callers).frames) :
    Agrees (.done stack) (.done { machine with control := .running stack.position callers }) := by
  have stands := Stands.running stack.position callers
  rw [← running, ← frames] at stands
  exact .done ⟨⟨accords.program, accords.store, accords.output⟩, stands⟩

/-- Popping frames leaves the procedures whose calls the frames are for. -/
theorem agrees_unwind (accords : stack.Accords machine) (running : stack.phase = .running)
    {callers : List Position}
    (frames : stack.stack = (Control.running stack.position callers).frames) :
    Agrees stack.unwind (machine.moveTo stack.position callers) := by
  induction callers generalizing stack with
  | nil =>
      cases found : machine.program.statement? stack.position with
      | some statement =>
          obtain ⟨tree, stands, _⟩ := accords.program.exists_tree? found
          rw [unwind_of_tree stands, moveTo_of_statement found]
          exact accords.agrees_done running frames
      | none =>
          have ended := accords.program.tree?_eq_none.mpr found
          rw [unwind_of_entry running ended frames, moveTo_of_exit found]
          exact ⟨⟨⟨accords.program, accords.store, accords.output⟩, .finished _⟩, rfl, rfl⟩
  | cons caller outer ih =>
      cases found : machine.program.statement? stack.position with
      | some statement =>
          obtain ⟨tree, stands, _⟩ := accords.program.exists_tree? found
          rw [unwind_of_tree stands, moveTo_of_statement found]
          exact accords.agrees_done running frames
      | none =>
          have ended := accords.program.tree?_eq_none.mpr found
          have left := ih
            (accords.move (Control.running caller.next outer).frames caller.next stack.phase)
            running rfl
          have name : ((stack.program.routine? caller.next).map Routine.name).getD "?" =
              machine.program.nameAt caller :=
            congrArg (·.getD "?") (accords.program.name?_eq caller.next)
          rw [unwind_of_resume running ended frames, moveTo_of_return found, name]
          exact left.behind _

/-! ## Executing a statement -/

/-- Writing tells the same and leaves the same output, whatever else the machines hold. -/
theorem write_eq (output : stack.output = machine.output) (pieces : List (List Char)) :
    stack.write pieces =
      ⟨{ stack with output := (machine.write pieces).state.output },
        (machine.write pieces).journal, (machine.write pieces).failure⟩ := by
  induction pieces generalizing stack machine with
  | nil => simp [write, Machine.write, Outcome.done, ← output]
  | cons piece rest ih =>
      simp only [write, Machine.write, output]
      split
      · rw [Outcome.andThen_of_success rfl, Outcome.andThen_of_success rfl]
        have rested := @ih
          { stack with output := (machine.output.write (Text.Utf8.encode piece)).sink }
          { machine with output := (machine.output.write (Text.Utf8.encode piece)).sink } rfl
        simp only [Outcome.after, rested]
      · rfl

theorem Accords.value_eq (accords : stack.Accords machine) (line : Nat) (operand : Operand) :
    stack.value line operand = machine.value line operand := by
  cases operand with
  | literal value => rfl
  | «variable» name =>
      cases held : machine.store.get? name <;>
        simp only [value, Machine.value, accords.store, held]

/-- The tree at a place is about to do what the statement there is about to do. -/
theorem Accords.effect_eq (accords : stack.Accords machine) {statement : Statement}
    (found : machine.program.statement? stack.position = some statement) :
    stack.effect statement.line = machine.effect statement := by
  obtain ⟨tree, stands, _, read⟩ := accords.program.exists_tree? found
  obtain ⟨line, instruction⟩ := statement
  simp only [effect, stands, Option.bind_some, read, Machine.effect]
  cases instruction with
  | print operand => simp only [accords.value_eq]
  | set name operand => simp only [accords.value_eq]
  | call name =>
      cases known : machine.program.find? name <;> simp only [accords.program.find?, known]

theorem Accords.line?_eq (accords : stack.Accords machine) (position : Position) :
    stack.program.line? position =
      (machine.program.statement? position).map Statement.line := by
  cases found : machine.program.statement? position with
  | none =>
      rw [IndexedProgram.line?, accords.program.tree?_eq_none.mpr found]
      rfl
  | some statement =>
      obtain ⟨tree, stands, line, _⟩ := accords.program.exists_tree? found
      rw [IndexedProgram.line?, stands]
      exact line

theorem Simulates.agrees_write (simulates : Simulates stack machine)
    (pieces : List (List Char)) : Agrees (stack.write pieces) (machine.write pieces) := by
  rw [write_eq simulates.output]
  refine ⟨⟨⟨?_, ?_, rfl⟩, ?_⟩, rfl, rfl⟩ <;> rw [Machine.state_write]
  · exact simulates.program
  · exact simulates.store
  · exact simulates.stands

/-- Behind its statement a machine stands in front of the same one as the other. -/
theorem Simulates.agrees_advance (simulates : Simulates stack machine) {position : Position}
    {callers : List Position} (control : machine.control = .running position callers) :
    Agrees stack.advance.unwind (machine.moveTo position.next callers) := by
  obtain ⟨running, rfl, frames⟩ := simulates.of_running control
  exact agrees_unwind (simulates.move stack.stack stack.position.next stack.phase) running frames

/-- An effect is carried out in the same way, and leads to the same place. -/
theorem Simulates.agrees_perform (simulates : Simulates stack machine) {position : Position}
    {callers : List Position} (control : machine.control = .running position callers)
    (line : Nat) (effect : Effect) :
    Agrees (stack.perform line effect) (machine.perform position callers line effect) := by
  cases effect with
  | print value =>
      have written := simulates.agrees_write (Machine.printedPieces value)
      have stays := (machine.control_write (Machine.printedPieces value)).trans control
      simp only [perform, Machine.perform]
      exact written.andThen fun _ => written.state.agrees_advance stays
  | set name value =>
      have assigned : Simulates { stack with store := stack.store.set name value }
          { machine with store := machine.store.set name value } :=
        ⟨⟨simulates.program, by rw [simulates.store], simulates.output⟩, simulates.stands⟩
      exact assigned.agrees_advance control
  | call procedure =>
      have depth := simulates.depth_eq
      rw [Machine.depth, control, Control.depth] at depth
      obtain ⟨running, rfl, frames⟩ := simulates.of_running control
      simp only [perform, Machine.perform, depth]
      split
      · exact ⟨simulates, rfl, rfl⟩
      · have called : Frame.resume stack.position.next :: stack.stack =
            (Control.running (.start procedure) (stack.position :: callers)).frames := by
          rw [frames]
          rfl
        exact agrees_unwind
          (simulates.move (.resume stack.position.next :: stack.stack) (.start procedure)
            stack.phase)
          running called

/-- Executing the tree at a place is executing the statement there. -/
theorem Simulates.agrees_execute (simulates : Simulates stack machine) {position : Position}
    {callers : List Position} (control : machine.control = .running position callers) :
    Agrees stack.execute machine.execute := by
  obtain ⟨_, rfl, _⟩ := simulates.of_running control
  have line := simulates.line?_eq stack.position
  cases found : machine.program.statement? stack.position with
  | none =>
      have absent := simulates.program.tree?_eq_none.mpr found
      simp only [execute, effect, line, found, absent, Machine.execute, control]
      exact ⟨simulates, rfl, rfl⟩
  | some statement =>
      rw [found] at line
      simp only [execute, line, Option.map_some, Option.getD_some, simulates.effect_eq found]
      cases defined : machine.effect statement with
      | error error =>
          rw [Machine.execute_of_error control found defined]
          exact ⟨simulates, rfl, rfl⟩
      | ok effect =>
          have performed := simulates.agrees_perform control statement.line effect
          rw [Machine.execute_of_effect control found defined]
          dsimp only
          rw [Outcome.andThen_of_success rfl]
          exact performed.behind _

/-! ## Steps -/

theorem Simulates.agrees_enter (simulates : Simulates stack machine) (empty : stack.stack = []) :
    Agrees stack.enter machine.enter := by
  cases found : machine.program.find? Program.entryPoint with
  | none =>
      simp only [enter, Machine.enter, simulates.program.find?, found]
      exact ⟨simulates, rfl, rfl⟩
  | some main =>
      simp only [enter, Machine.enter, simulates.program.find?, found]
      rw [Outcome.andThen_of_success rfl, Outcome.andThen_of_success rfl]
      have pushed : Frame.entry :: stack.stack = (Control.running (.start main) []).frames := by
        rw [empty]
        rfl
      have entered := agrees_unwind
        (simulates.move (.entry :: stack.stack) (.start main) .running) rfl pushed
      exact entered.behind _

theorem Simulates.agrees_start (simulates : Simulates stack machine) :
    Agrees stack.start machine.start := by
  rcases simulates.cases with
    ⟨control, ready, empty⟩ | ⟨callers, control, running, _⟩ | ⟨control, finished, _⟩
  · simp only [start, ready, Machine.start, control]
    exact simulates.agrees_enter empty
  · simp only [start, running, Machine.start, control]
    exact .done simulates
  · simp only [start, finished, Machine.start, control]
    exact .done simulates

/-- Every step of one machine is a step of the other. -/
theorem Simulates.agrees_stepInto (simulates : Simulates stack machine) :
    Agrees stack.stepInto machine.stepInto := by
  have started := simulates.agrees_start
  refine started.andThen fun _ => ?_
  rcases started.state.cases with
    ⟨control, ready, _⟩ | ⟨callers, control, running, _⟩ | ⟨control, finished, _⟩
  · simp only [ready, Machine.execute, control]
    exact .done started.state
  · simp only [running]
    exact started.state.agrees_execute control
  · simp only [finished, Machine.execute, control]
    exact .done started.state

end StackMachine

end Guu
