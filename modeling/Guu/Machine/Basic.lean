import Guu.Journal.Outcome
import Guu.Machine.Store

/-!
# Machines

A machine executes a program one statement at a time.  While it runs it stands
in front of a statement, and every call that has not returned yet waits at its
own place.  The call stack has one frame for `main` and one for each waiting
call.
-/

namespace Guu

inductive RuntimeError where
  | entryPointNotFound
  | undefinedProcedure (name : String) (line : Nat)
  | undefinedVariable (name : String) (line : Nat)
  | stackOverflow (depth line : Nat)
  | invalidInstruction (line : Nat)
  | output (kind : FailureKind)
deriving DecidableEq, Repr

namespace RuntimeError

def message : RuntimeError → String
  | entryPointNotFound => s!"no sub named '{Program.entryPoint}' to start from"
  | undefinedProcedure name line => s!"unknown sub '{name}' called on line {line}"
  | undefinedVariable name line => s!"unknown variable '{name}' on line {line}"
  | stackOverflow depth line => s!"stack overflow at depth {depth} calling on line {line}"
  | invalidInstruction line => s!"invalid instruction on line {line}"
  | output kind => s!"failed to write output: {kind.text}"

end RuntimeError

/-- Where execution stands. -/
inductive Control where
  | ready
  /-- In front of a statement, with the places of the waiting calls, the latest call first. -/
  | running (position : Position) (callers : List Position)
  | finished
deriving DecidableEq, Repr

namespace Control

def depth : Control → Nat
  | ready => 0
  | running _ callers => callers.length + 1
  | finished => 0

def isRunning : Control → Bool
  | running .. => true
  | _ => false

def isFinished : Control → Bool
  | finished => true
  | _ => false

end Control

structure Machine where
  program : Program
  control : Control
  store : Store
  output : Sink
deriving DecidableEq, Repr

namespace Machine

def stackLimit : Nat :=
  1024

def ofProgram (program : Program) (output : Sink) : Machine :=
  ⟨program, .ready, Store.empty, output⟩

def depth (machine : Machine) : Nat :=
  machine.control.depth

def currentLine? (machine : Machine) : Option Nat :=
  match machine.control with
  | .running position _ => (machine.program.statement? position).map Statement.line
  | _ => none

def currentProcedure? (machine : Machine) : Option String :=
  match machine.control with
  | .running position _ => (machine.program.procedure? position).map Procedure.name
  | _ => none

end Machine

end Guu
