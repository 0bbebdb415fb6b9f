import Guu.Program.Instruction

/-!
# Programs

A program is a sequence of procedures, each with the statements of its body.
Execution starts in the procedure `main`.
-/

namespace Guu

structure Statement where
  line : Nat
  instruction : Instruction
deriving DecidableEq, Repr

structure Procedure where
  name : String
  line : Nat
  body : Array Statement
deriving DecidableEq, Repr

namespace Procedure

def append (procedure : Procedure) (statement : Statement) : Procedure :=
  { procedure with body := procedure.body.push statement }

end Procedure

/-- The procedures of a program in the order of their declarations. -/
structure Program where
  procedures : Array Procedure
deriving DecidableEq, Repr

/-- A place in a program: the index of a procedure and an offset into its body. -/
structure Position where
  procedure : Nat
  offset : Nat
deriving DecidableEq, Repr

namespace Position

def start (procedure : Nat) : Position :=
  ⟨procedure, 0⟩

def next (position : Position) : Position :=
  { position with offset := position.offset + 1 }

end Position

namespace Program

def entryPoint : String :=
  "main"

def find? (program : Program) (name : String) : Option Nat :=
  program.procedures.findIdx? (·.name == name)

def procedure? (program : Program) (position : Position) : Option Procedure :=
  program.procedures[position.procedure]?

/-- The statement at a place.  There is none behind the last statement of a body. -/
def statement? (program : Program) (position : Position) : Option Statement :=
  (program.procedure? position).bind (·.body[position.offset]?)

def pending (program : Program) (position : Position) : Nat :=
  ((program.procedure? position).map (·.body.size)).getD 0 - position.offset

def nameAt (program : Program) (position : Position) : String :=
  ((program.procedure? position).map Procedure.name).getD "?"

/-- The line of the statement at a place, and behind the last one the line of the procedure. -/
def lineAt (program : Program) (position : Position) : Nat :=
  match program.statement? position with
  | some statement => statement.line
  | none => ((program.procedure? position).map Procedure.line).getD 0

end Program

end Guu
