import Guu.Proofs.Machine.Backtrace
import Guu.Proofs.Machine.Simulation

/-!
# Executions of machines with a stack

Whatever a machine with a stack is told to do, it does what the machine does that
it simulates, and it comes to an end because that one does.  So a machine that
arises when an indexed program is executed stands where one stands that arises from
the program, tells the same about itself, and has a stack whose frames are justified
by the calls behind which they resume.
-/

namespace Guu

namespace StackMachine

variable {stack : StackMachine} {machine : Machine}

/-! ## Loops -/

section Loops

variable {goesOn : StackMachine → Bool} {continues : Machine → Bool}

theorem Repeats.unique {first second : StackOutcome} (left : Repeats goesOn stack first)
    (right : Repeats goesOn stack second) : first = second := by
  induction left generalizing second with
  | stopped stops =>
      cases right with
      | stopped other => rfl
      | failed goes failure => simp [stops] at goes
      | next goes success rest => simp [stops] at goes
  | failed goes failure =>
      cases right with
      | stopped stops => simp [goes] at stops
      | failed other same => rfl
      | next other success rest => simp [failure] at success
  | next goes success rest ih =>
      cases right with
      | stopped stops => simp [goes] at stops
      | failed other failure => simp [success] at failure
      | next other same behind => rw [ih behind]

def SameCondition (goesOn : StackMachine → Bool) (continues : Machine → Bool) : Prop :=
  ∀ stack machine, Simulates stack machine →
    (goesOn stack = true ↔ machine.control.isFinished = false ∧ continues machine = true)

/-- The steps of an execution are repeated by the other machine, up to the end of a loop. -/
theorem SameCondition.repeats_of_execution (same : SameCondition goesOn continues)
    {count : Nat} {last : Machine} {journal : Journal} {ending : MachineOutcome}
    (execution : Machine.Execution continues count machine journal last)
    (ends : Machine.LoopEnd continues last ending) (simulates : Simulates stack machine) :
    ∃ outcome, Repeats goesOn stack outcome ∧
      Agrees outcome ⟨ending.state, journal ++ ending.journal, ending.failure⟩ := by
  induction execution generalizing stack with
  | refl machine =>
      rw [Array.empty_append]
      cases ends with
      | stopped stops =>
          refine ⟨.done stack, .stopped ?_, .done simulates⟩
          rw [← Bool.not_eq_true, same stack machine simulates]
          rintro ⟨unfinished, further⟩
          rcases stops with finished | stopped
          · simp [unfinished] at finished
          · simp [further] at stopped
      | failed unfinished further failure =>
          have stepped := simulates.agrees_stepInto
          exact ⟨stack.stepInto, .failed ((same _ _ simulates).mpr ⟨unfinished, further⟩)
            (stepped.failure.trans failure), stepped⟩
  | next unfinished further success rest ih =>
      have stepped := simulates.agrees_stepInto
      obtain ⟨outcome, repeats, agrees⟩ := ih ends stepped.state
      refine ⟨_, .next ((same _ _ simulates).mpr ⟨unfinished, further⟩)
        (stepped.failure.trans success) repeats, ?_⟩
      rw [stepped.journal, Array.append_assoc]
      exact agrees.behind _

/-- A loop of steps comes to the same end for both machines. -/
theorem SameCondition.repeats (same : SameCondition goesOn continues)
    (simulates : Simulates stack machine) :
    ∃ outcome, Repeats goesOn stack outcome ∧
      Agrees outcome (machine.stepWhile continues #[]) := by
  obtain ⟨count, journal, last, ending, execution, ends, loop⟩ :=
    Machine.exists_execution_of_loop continues machine
  rw [loop, Array.empty_append]
  exact same.repeats_of_execution execution ends simulates

theorem Simulates.phase_eq_finished (simulates : Simulates stack machine) :
    stack.phase = .finished ↔ machine.control = .finished := by
  rcases simulates.cases with
    ⟨control, phase, _⟩ | ⟨callers, control, phase, _⟩ | ⟨control, phase, _⟩ <;>
    simp [control, phase]

theorem Simulates.phase_eq_running (simulates : Simulates stack machine) :
    stack.phase = .running ↔ machine.control.isRunning = true := by
  rcases simulates.cases with
    ⟨control, phase, _⟩ | ⟨callers, control, phase, _⟩ | ⟨control, phase, _⟩ <;>
    simp [control, phase, Control.isRunning]

theorem sameCondition_isUnfinished : SameCondition isUnfinished fun _ => true := by
  intro stack machine simulates
  simp [isUnfinished, simulates.phase_eq_finished, Control.isFinished_eq_false]

/-- Machines that stand at the same place are inside the same calls. -/
theorem Simulates.sameCondition_isInside (simulates : Simulates stack machine) :
    SameCondition stack.isInside machine.isInside := by
  intro inner other further
  have unfinished : other.control.isRunning = true → other.control.isFinished = false := by
    cases other.control <;> simp [Control.isRunning, Control.isFinished]
  simp only [isInside, Machine.isInside, decide_eq_true_eq, Bool.and_eq_true,
    further.phase_eq_running, further.depth_eq, simulates.depth_eq]
  exact ⟨fun inside => ⟨unfinished inside.1, inside⟩, And.right⟩

end Loops

/-! ## Operations -/

def Performs (operation : Operation) (stack : StackMachine) (outcome : StackOutcome) : Prop :=
  match operation with
  | .run => stack.Runs outcome
  | .stepInto => outcome = stack.stepInto
  | .stepOver => stack.StepsOver outcome

theorem Continues.unique {first left right : StackOutcome}
    (later : StackMachine → StackOutcome → Prop)
    (same : ∀ state last other, later state last → later state other → last = other)
    (one : Continues first later left) (two : Continues first later right) : left = right := by
  cases one with
  | failed failure =>
      cases two with
      | failed other => rfl
      | succeeded success rest => simp [failure] at success
  | succeeded success rest =>
      cases two with
      | failed failure => simp [success] at failure
      | succeeded other behind => rw [same _ _ _ rest behind]

theorem Performs.unique {operation : Operation} {first second : StackOutcome}
    (left : Performs operation stack first) (right : Performs operation stack second) :
    first = second := by
  cases operation with
  | run => exact Repeats.unique left right
  | stepInto => exact left.trans right.symm
  | stepOver =>
      refine Continues.unique _ (fun started last other one two => ?_) left right
      exact Continues.unique (Repeats started.isInside) (fun _ _ _ => Repeats.unique) one two

theorem Agrees.continues {first : StackOutcome} {outcome : MachineOutcome}
    (agrees : Agrees first outcome) (later : StackMachine → StackOutcome → Prop)
    (following : Machine → MachineOutcome)
    (further : ∃ last, later first.state last ∧ Agrees last (following outcome.state)) :
    ∃ last, Continues first later last ∧ Agrees last (outcome.andThen following) := by
  cases failed : outcome.failure with
  | some error =>
      rw [Outcome.andThen_of_failure failed]
      exact ⟨first, .failed (agrees.failure.trans failed), agrees⟩
  | none =>
      obtain ⟨last, rest, behind⟩ := further
      rw [Outcome.andThen_of_success failed]
      refine ⟨_, .succeeded (agrees.failure.trans failed) rest, ?_⟩
      rw [agrees.journal]
      exact behind.behind _

/-- Every operation ends, and leaves both machines at the same place. -/
theorem Simulates.performs (simulates : Simulates stack machine) (operation : Operation) :
    ∃ outcome, Performs operation stack outcome ∧ Agrees outcome (operation.apply machine) := by
  cases operation with
  | run => exact sameCondition_isUnfinished.repeats simulates
  | stepInto => exact ⟨stack.stepInto, rfl, simulates.agrees_stepInto⟩
  | stepOver =>
      have started := simulates.agrees_start
      have stepped := started.state.agrees_stepInto
      have inside := started.state.sameCondition_isInside.repeats stepped.state
      exact started.continues (fun first => Continues first.stepInto (Repeats first.isInside))
        (fun first => first.stepInto.andThen fun next => next.stepWhile first.isInside #[])
        (stepped.continues _ _ inside)

theorem Simulates.agrees_of_performs (simulates : Simulates stack machine)
    {operation : Operation} {outcome : StackOutcome}
    (performs : Performs operation stack outcome) :
    Agrees outcome (operation.apply machine) := by
  obtain ⟨other, performed, agrees⟩ := simulates.performs operation
  rwa [performs.unique performed]

inductive Reachable (indexed : IndexedProgram) : StackMachine → Prop where
  | fresh (output : Sink) : Reachable indexed (.ofProgram indexed output)
  | operated {stack : StackMachine} (reachable : Reachable indexed stack)
      {operation : Operation} {outcome : StackOutcome}
      (performs : Performs operation stack outcome) : Reachable indexed outcome.state
  | redirected {stack : StackMachine} (reachable : Reachable indexed stack) (output : Sink) :
      Reachable indexed { stack with output := output }

variable {indexed : IndexedProgram} {program : Program}

theorem simulates_ofProgram (represents : indexed.Represents program) (output : Sink) :
    Simulates (.ofProgram indexed output) (.ofProgram program output) :=
  ⟨⟨represents, rfl, rfl⟩, .ready _⟩

theorem Simulates.redirected (simulates : Simulates stack machine) (output : Sink) :
    Simulates { stack with output := output } { machine with output := output } :=
  ⟨⟨simulates.program, simulates.store, rfl⟩, simulates.stands⟩

/-- Where a machine with a stack can stand, a machine can stand that has done the same. -/
theorem Reachable.exists_machine (represents : indexed.Represents program)
    (reachable : Reachable indexed stack) :
    ∃ machine, Machine.Reachable program machine ∧ Simulates stack machine := by
  induction reachable with
  | fresh output => exact ⟨_, .fresh output, simulates_ofProgram represents output⟩
  | operated reachable performs ih =>
      obtain ⟨machine, stands, simulates⟩ := ih
      exact ⟨_, .operated stands _, (simulates.agrees_of_performs performs).state⟩
  | redirected reachable output ih =>
      obtain ⟨machine, stands, simulates⟩ := ih
      exact ⟨_, .redirected stands output, simulates.redirected output⟩

/-- Where a machine can stand, a machine with a stack can stand that has done the same. -/
theorem Reachable.exists_stack (represents : indexed.Represents program)
    (reachable : Machine.Reachable program machine) :
    ∃ stack, Reachable indexed stack ∧ Simulates stack machine := by
  induction reachable with
  | fresh output => exact ⟨_, .fresh output, simulates_ofProgram represents output⟩
  | operated reachable operation ih =>
      obtain ⟨stack, stands, simulates⟩ := ih
      obtain ⟨outcome, performs, agrees⟩ := simulates.performs operation
      exact ⟨_, .operated stands performs, agrees.state⟩
  | redirected reachable output ih =>
      obtain ⟨stack, stands, simulates⟩ := ih
      exact ⟨_, .redirected stands output, simulates.redirected output⟩

/-! ## Reports -/

theorem Simulates.currentLine?_eq (simulates : Simulates stack machine) :
    stack.currentLine? = machine.currentLine? := by
  rcases simulates.cases with
    ⟨control, phase, _⟩ | ⟨callers, control, phase, _⟩ | ⟨control, phase, _⟩ <;>
    simp [currentLine?, Machine.currentLine?, control, phase, simulates.line?_eq]

theorem Simulates.currentProcedure?_eq (simulates : Simulates stack machine) :
    stack.currentProcedure? = machine.currentProcedure? := by
  rcases simulates.cases with
    ⟨control, phase, _⟩ | ⟨callers, control, phase, _⟩ | ⟨control, phase, _⟩ <;>
    simp [currentProcedure?, Machine.currentProcedure?, control, phase,
      simulates.program.name?_eq]

/-- In front of the places where the frames resume stand the calls that wait. -/
theorem places_eq {callers : List Position}
    (frames : stack.stack = (Control.running stack.position callers).frames) :
    stack.places = stack.position :: callers := by
  rw [places, frames, Control.frames]
  congr 1
  clear frames
  induction callers with
  | nil => rfl
  | cons caller outer ih =>
      rw [List.map_cons, List.cons_append, List.filterMap_cons_some, ih]
      rfl

/-- The line of a report is the same where there is a statement. -/
theorem frameLine_eq (represents : indexed.Represents program) {place : Position}
    {statement : Statement} (found : program.statement? place = some statement) (number : Nat) :
    frameLine indexed number place = Machine.frameLine program number place := by
  obtain ⟨procedure, owner, _, named⟩ := Program.exists_procedure_of_statement? found
  obtain ⟨tree, stands, line, _⟩ := represents.exists_tree? found
  have names := represents.name?_eq place
  rw [owner] at names
  obtain ⟨routine, registered, name⟩ := Option.map_eq_some_iff.mp names
  simp only [frameLine, registered, IndexedProgram.line?, stands, Option.bind_some, line,
    Option.getD_some, Machine.frameLine, named, name, Program.lineAt_of_statement found]

theorem exists_statement_of_linked {above : Nat} {callers : List Position}
    (linked : Machine.Linked program above callers) {caller : Position}
    (waits : caller ∈ callers) : ∃ statement, program.statement? caller = some statement := by
  induction linked with
  | entered named => cases waits
  | called found named rest ih =>
      rcases List.mem_cons.mp waits with rfl | outer
      · exact ⟨_, found⟩
      · exact ih outer

theorem Simulates.backtrace_eq (simulates : Simulates stack machine) (sound : machine.Sound) :
    stack.backtrace = machine.backtrace := by
  rcases simulates.cases with
    ⟨control, ready, _⟩ | ⟨callers, control, running, frames⟩ | ⟨control, finished, _⟩
  · simp [backtrace, Machine.backtrace, Machine.frames, control, ready]
  · obtain ⟨⟨statement, found⟩, _, linked⟩ := sound _ callers control
    have lines : ∀ place ∈ stack.position :: callers, ∀ number,
        frameLine stack.program number place = Machine.frameLine machine.program number place := by
      intro place member number
      rcases List.mem_cons.mp member with rfl | waits
      · exact frameLine_eq simulates.program found number
      · obtain ⟨call, stands⟩ := exists_statement_of_linked linked waits
        exact frameLine_eq simulates.program stands number
    simp only [backtrace, running, places_eq frames, Machine.backtrace,
      Machine.frames_of_running control]
    refine congrArg String.join (List.ext_getElem? fun number => ?_)
    rw [List.getElem?_mapIdx, List.getElem?_mapIdx]
    cases taken : (stack.position :: callers)[number]? with
    | none => rfl
    | some place => exact congrArg some (lines place (List.mem_of_getElem? taken) number)
  · simp [backtrace, Machine.backtrace, Machine.frames, control, finished]

/-! ## What can arise -/

/--
However a machine with a stack has been driven so far, its stack is empty before
and behind `main`.  In between the frame of `main` is at the bottom, every other one
resumes behind a call of the procedure above it, and there are not more of them than
the limit allows.
-/
theorem Reachable.stack_justified (represents : indexed.Represents program)
    (reachable : Reachable indexed stack) :
    (stack.phase ≠ .running → stack.stack = []) ∧
    (stack.phase = .running →
      (∃ places : List Position, stack.stack = places.map .resume ++ [.entry]) ∧
      stack.stack.length ≤ Machine.stackLimit ∧
      Machine.Justified program stack.position.procedure stack.stack ∧
      ∃ tree, stack.program.tree? stack.position = some tree) := by
  obtain ⟨machine, arises, simulates⟩ := reachable.exists_machine represents
  rcases simulates.cases with
    ⟨_, ready, empty⟩ | ⟨callers, control, running, frames⟩ | ⟨_, finished, empty⟩
  · constructor
    · intro _
      exact empty
    · intro running
      cases ready.symm.trans running
  · constructor
    · intro idle
      exact absurd running idle
    · intro _
      obtain ⟨⟨statement, found⟩, bounded, linked⟩ := arises.sound _ _ control
      obtain ⟨tree, inside, _⟩ := simulates.program.exists_tree? found
      rw [arises.program_eq] at linked
      refine ⟨⟨callers.map Position.next, ?_⟩, ?_, ?_, tree, inside⟩
      · simp [frames, Control.frames]
      · rw [frames, Control.length_frames]
        exact bounded
      · rw [frames]
        exact linked.justified
  · constructor
    · intro _
      exact empty
    · intro running
      cases finished.symm.trans running

/-- Machines of the two kinds that tell the same about themselves. -/
structure Resembles (stack : StackMachine) (machine : Machine) : Prop
    extends Simulates stack machine where
  depth : stack.stack.length = machine.depth
  line : stack.currentLine? = machine.currentLine?
  procedure : stack.currentProcedure? = machine.currentProcedure?
  backtrace : stack.backtrace = machine.backtrace

theorem Simulates.resembles (simulates : Simulates stack machine) (sound : machine.Sound) :
    Resembles stack machine :=
  ⟨simulates, simulates.depth_eq, simulates.currentLine?_eq, simulates.currentProcedure?_eq,
    simulates.backtrace_eq sound⟩

/--
Indexing a tree and compiling it fail alike.  Otherwise the machines that can arise
from the indexed program are those that can arise from the compiled one, each beside
one that resembles it, and every operation has one outcome, the same for both.
-/
theorem reachable_of_tree {tree : Tree} (indexes : IndexedProgram.ofTree tree = .ok indexed) :
    ∃ program, Program.ofTree tree = .ok program ∧
      (∀ stack, Reachable indexed stack →
        ∃ machine, Machine.Reachable program machine ∧ Resembles stack machine) ∧
      (∀ machine, Machine.Reachable program machine →
        ∃ stack, Reachable indexed stack ∧ Resembles stack machine) ∧
      ∀ stack machine, Simulates stack machine → ∀ operation,
        ∃ outcome, Performs operation stack outcome ∧ Agrees outcome (operation.apply machine) ∧
          ∀ other, Performs operation stack other → other = outcome := by
  rcases IndexedProgram.ofTree_cases tree with
    ⟨error, refused, _⟩ | ⟨found, program, indexed_eq, compiled, represents⟩
  · rw [refused] at indexes
    cases indexes
  · rw [indexed_eq] at indexes
    cases indexes
    refine ⟨program, compiled, fun stack reachable => ?_, fun machine reachable => ?_,
      fun stack machine simulates operation => ?_⟩
    · obtain ⟨machine, arises, simulates⟩ := reachable.exists_machine represents
      exact ⟨machine, arises, simulates.resembles arises.sound⟩
    · obtain ⟨stack, arises, simulates⟩ := Reachable.exists_stack represents reachable
      exact ⟨stack, arises, simulates.resembles reachable.sound⟩
    · obtain ⟨outcome, performs, agrees⟩ := simulates.performs operation
      exact ⟨outcome, performs, agrees, fun other again => again.unique performs⟩

end StackMachine

end Guu
