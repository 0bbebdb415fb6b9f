import Guu.Machine.Step
import Guu.Program.Index

/-!
# Machines with a stack

A machine with a stack keeps the frames of the procedures that have not been left
on a stack of their own.  A frame says what happens when the procedure above it is
left: execution goes on at a place, or, if the frame is that of `main`, is over.
-/

namespace Guu

/-- What a frame of the call stack remembers. -/
inductive Frame where
  | entry
  /-- The place where execution goes on when the procedure above has been left. -/
  | resume (place : Position)
deriving DecidableEq, Repr

inductive Phase where
  | ready
  | running
  | finished
deriving DecidableEq, Repr

/-- A machine whose frames are on a stack, the innermost first. -/
structure StackMachine where
  program : IndexedProgram
  store : Store
  stack : List Frame
  position : Position
  phase : Phase
  output : Sink

abbrev StackOutcome : Type :=
  Outcome StackMachine RuntimeError

namespace StackMachine

def ofProgram (program : IndexedProgram) (output : Sink) : StackMachine :=
  ⟨program, .empty, [], .start 0, .ready, output⟩

/-- Leave every procedure whose body has run out. -/
def unwind (machine : StackMachine) : StackOutcome :=
  if machine.phase = .running ∧ machine.program.tree? machine.position = none then
    match _frames : machine.stack with
    | .resume place :: below =>
        let name := ((machine.program.routine? place).map Routine.name).getD "?"
        let left := { machine with stack := below, position := place }.unwind
        { left with journal := #[.noted (.returning name)] ++ left.journal }
    | _ => .after [.noted .mainReturned] { machine with stack := [], phase := .finished }
  else .done machine
termination_by machine.stack.length
decreasing_by simp [*]

def enter (machine : StackMachine) : StackOutcome :=
  match machine.program.find? Program.entryPoint with
  | none => .failed [] machine .entryPointNotFound
  | some main =>
      (Outcome.after [.noted .entered]
        { machine with
          stack := .entry :: machine.stack, position := .start main, phase := .running }).andThen
        unwind

def value (machine : StackMachine) (line : Nat) : Operand → Except RuntimeError Int64
  | .literal value => .ok value
  | .variable name =>
      match machine.store.get? name with
      | some value => .ok value
      | none => .error (.undefinedVariable name line)

/-- What the tree at the position is about to do, read as an instruction. -/
def effect (machine : StackMachine) (line : Nat) : Except RuntimeError Effect :=
  match (machine.program.tree? machine.position).bind Instruction.ofTree? with
  | some (.print operand) => (machine.value line operand).map .print
  | some (.set name operand) => (machine.value line operand).map (.set name)
  | some (.call name) =>
      match machine.program.find? name with
      | some procedure => .ok (.call procedure)
      | none => .error (.undefinedProcedure name line)
  | none => .error (.invalidInstruction line)

def write (machine : StackMachine) : List (List Char) → StackOutcome
  | [] => .done machine
  | piece :: rest =>
      let written := machine.output.write (Text.Utf8.encode piece)
      let event := Event.wrote .output written.taken
      let machine := { machine with output := written.sink }
      if written.complete then (Outcome.after [event] machine).andThen (write · rest)
      else .failed [event] machine (.output machine.output.refusal)

def advance (machine : StackMachine) : StackMachine :=
  { machine with position := machine.position.next }

def perform (machine : StackMachine) (line : Nat) : Effect → StackOutcome
  | .print value =>
      (machine.write (Machine.printedPieces value)).andThen fun machine => machine.advance.unwind
  | .set name value =>
      { machine with store := machine.store.set name value }.advance.unwind
  | .call procedure =>
      let depth := machine.stack.length
      if Machine.stackLimit ≤ depth then .failed [] machine (.stackOverflow depth line)
      else
        { machine with
          stack := .resume machine.position.next :: machine.stack
          position := .start procedure }.unwind

def execute (machine : StackMachine) : StackOutcome :=
  let line := (machine.program.line? machine.position).getD 0
  match machine.effect line with
  | .error error => .failed [] machine error
  | .ok effect =>
      (Outcome.after [.noted (.executing line effect)] machine).andThen (perform · line effect)

def start (machine : StackMachine) : StackOutcome :=
  match machine.phase with
  | .ready => machine.enter
  | _ => .done machine

def stepInto (machine : StackMachine) : StackOutcome :=
  machine.start.andThen fun machine =>
    match machine.phase with
    | .running => machine.execute
    | _ => .done machine

/-! ## Loops -/

/-- What is done behind an outcome, unless it is a failure. -/
inductive Continues (first : StackOutcome) (later : StackMachine → StackOutcome → Prop) :
    StackOutcome → Prop where
  | failed {error : RuntimeError} (failure : first.failure = some error) :
      Continues first later first
  | succeeded {last : StackOutcome} (success : first.failure = none)
      (rest : later first.state last) :
      Continues first later ⟨last.state, first.journal ++ last.journal, last.failure⟩

/-- Steps are repeated while a condition holds, up to the first that fails. -/
inductive Repeats (goesOn : StackMachine → Bool) : StackMachine → StackOutcome → Prop where
  | stopped {machine : StackMachine} (stops : goesOn machine = false) :
      Repeats goesOn machine (.done machine)
  | failed {machine : StackMachine} {error : RuntimeError} (continues : goesOn machine = true)
      (failure : machine.stepInto.failure = some error) :
      Repeats goesOn machine machine.stepInto
  | next {machine : StackMachine} {last : StackOutcome} (continues : goesOn machine = true)
      (success : machine.stepInto.failure = none)
      (rest : Repeats goesOn machine.stepInto.state last) :
      Repeats goesOn machine
        ⟨last.state, machine.stepInto.journal ++ last.journal, last.failure⟩

def isUnfinished (machine : StackMachine) : Bool :=
  machine.phase ≠ .finished

def isInside (outer machine : StackMachine) : Bool :=
  machine.phase = .running ∧ outer.stack.length < machine.stack.length

def Runs (machine : StackMachine) (outcome : StackOutcome) : Prop :=
  Repeats isUnfinished machine outcome

/-- One step, and further ones until the frames above those that were there are left. -/
def StepsOver (machine : StackMachine) (outcome : StackOutcome) : Prop :=
  Continues machine.start (fun started => Continues started.stepInto (Repeats started.isInside))
    outcome

/-! ## Reports -/

def currentLine? (machine : StackMachine) : Option Nat :=
  match machine.phase with
  | .running => machine.program.line? machine.position
  | _ => none

def currentProcedure? (machine : StackMachine) : Option String :=
  match machine.phase with
  | .running => (machine.program.routine? machine.position).map Routine.name
  | _ => none

/-- The places of all frames, each waiting one at its call. -/
def places (machine : StackMachine) : List Position :=
  machine.position :: machine.stack.filterMap fun
    | .entry => none
    | .resume place => some { place with offset := place.offset - 1 }

def frameLine (program : IndexedProgram) (number : Nat) (position : Position) : String :=
  match program.routine? position with
  | none => ""
  | some routine =>
      s!"#{number} {routine.name}() at line {(program.line? position).getD routine.line}\n"

def backtrace (machine : StackMachine) : String :=
  match machine.phase with
  | .running => String.join (machine.places.mapIdx (frameLine machine.program))
  | _ => ""

end StackMachine

end Guu
