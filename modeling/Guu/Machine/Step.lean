import Guu.Machine.Basic
import Guu.Text.Utf8

/-!
# Steps

A step executes one statement.  Then it leaves every procedure whose body has
run out, so that a running machine always stands in front of a statement.  A
step that fails leaves the machine where it was, and only what a failing sink
had already taken remains.
-/

namespace Guu

abbrev MachineOutcome : Type :=
  Outcome Machine RuntimeError

namespace Machine

/-- The result of leaving procedures: where execution stands then, and the notes about it. -/
structure Settled where
  control : Control
  notes : List Note
deriving DecidableEq, Repr

/-- Leave procedures until there is a statement to execute, or until `main` has been left. -/
def settle (program : Program) (position : Position) (callers : List Position) : Settled :=
  if (program.statement? position).isSome then ⟨.running position callers, []⟩
  else
    match callers with
    | [] => ⟨.finished, [.mainReturned]⟩
    | caller :: outer =>
        let settled := settle program caller.next outer
        { settled with notes := .returning (program.nameAt caller) :: settled.notes }

def moveTo (machine : Machine) (position : Position) (callers : List Position) :
    MachineOutcome :=
  let settled := settle machine.program position callers
  .after (settled.notes.map Event.noted) { machine with control := settled.control }

def enter (machine : Machine) : MachineOutcome :=
  match machine.program.find? Program.entryPoint with
  | none => .failed [] machine .entryPointNotFound
  | some procedure =>
      (Outcome.after [.noted .entered] machine).andThen fun machine =>
        machine.moveTo (.start procedure) []

def value (machine : Machine) (line : Nat) : Operand → Except RuntimeError Int64
  | .literal value => .ok value
  | .variable name =>
      match machine.store.get? name with
      | some value => .ok value
      | none => .error (.undefinedVariable name line)

def effect (machine : Machine) (statement : Statement) : Except RuntimeError Effect :=
  match statement.instruction with
  | .print operand => (machine.value statement.line operand).map .print
  | .set name operand => (machine.value statement.line operand).map (.set name)
  | .call name =>
      match machine.program.find? name with
      | some procedure => .ok (.call procedure)
      | none => .error (.undefinedProcedure name statement.line)

/-- The pieces in which the line of a printed value is written: sign, digits and line break. -/
def printedPieces (value : Int64) : List (List Char) :=
  [Text.Decimal.sign value.toInt, Text.Decimal.digits value.toInt.natAbs, ['\n']]

def write (machine : Machine) : List (List Char) → MachineOutcome
  | [] => .done machine
  | piece :: rest =>
      let written := machine.output.write (Text.Utf8.encode piece)
      let event := Event.wrote .output written.taken
      let machine := { machine with output := written.sink }
      if written.complete then (Outcome.after [event] machine).andThen (write · rest)
      else .failed [event] machine (.output machine.output.refusal)

def perform (machine : Machine) (position : Position) (callers : List Position) (line : Nat) :
    Effect → MachineOutcome
  | .print value =>
      (machine.write (printedPieces value)).andThen fun machine =>
        machine.moveTo position.next callers
  | .set name value =>
      let machine := { machine with store := machine.store.set name value }
      machine.moveTo position.next callers
  | .call procedure =>
      let depth := callers.length + 1
      if stackLimit ≤ depth then .failed [] machine (.stackOverflow depth line)
      else machine.moveTo (.start procedure) (position :: callers)

def execute (machine : Machine) : MachineOutcome :=
  match machine.control with
  | .running position callers =>
      match machine.program.statement? position with
      | none => .failed [] machine (.invalidInstruction 0)
      | some statement =>
          match machine.effect statement with
          | .error error => .failed [] machine error
          | .ok effect =>
              (Outcome.after [.noted (.executing statement.line effect)] machine).andThen
                fun machine => machine.perform position callers statement.line effect
  | _ => .done machine

def start (machine : Machine) : MachineOutcome :=
  match machine.control with
  | .ready => machine.enter
  | _ => .done machine

/-- Execute one statement.  The first step enters `main` before. -/
def stepInto (machine : Machine) : MachineOutcome :=
  machine.start.andThen execute

end Machine

end Guu
