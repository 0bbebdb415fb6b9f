import Guu.Program.Basic

/-!
# Compiling trees

Compiling takes the statements of a tree from first to last.  A declaration
starts a procedure, and every other statement belongs to the procedure that was
started last.  The first statement that cannot be taken decides the error.
-/

namespace Guu

inductive CompileError where
  | expectedProgram
  | duplicateProcedure (name : String) (line : Nat)
  | statementOutsideProcedure (line : Nat)
  | malformedStatement (line : Nat)
deriving DecidableEq, Repr

namespace CompileError

def message : CompileError → String
  | expectedProgram => "expected a program root node"
  | duplicateProcedure name line => s!"procedure '{name}' declared again on line {line}"
  | statementOutsideProcedure line => s!"statement on line {line} is not inside any sub"
  | malformedStatement line => s!"malformed statement on line {line}"

end CompileError

/-- What compiling a tree leaves: the procedures declared so far, and why it stopped early. -/
structure Compilation where
  procedures : Array Procedure
  failure : Option CompileError
deriving DecidableEq, Repr

namespace Compilation

/-- Start a procedure, unless there is one of the same name. -/
def declare (procedures : Array Procedure) (name : String) (line : Nat) : Compilation :=
  if procedures.any (·.name == name) then ⟨procedures, some (.duplicateProcedure name line)⟩
  else ⟨procedures.push ⟨name, line, #[]⟩, none⟩

def append (procedures : Array Procedure) (statement : Statement) : Compilation :=
  if procedures.isEmpty then ⟨procedures, some (.statementOutsideProcedure statement.line)⟩
  else ⟨procedures.modify (procedures.size - 1) (·.append statement), none⟩

def take (procedures : Array Procedure) (tree : Tree) : Compilation :=
  let line := tree.line?.getD 0
  match tree with
  | .procedure name line => declare procedures name line
  | _ =>
      match Instruction.ofTree? tree with
      | none => ⟨procedures, some (.malformedStatement line)⟩
      | some instruction => append procedures ⟨line, instruction⟩

def takeAll (procedures : Array Procedure) : List Tree → Compilation
  | [] => ⟨procedures, none⟩
  | tree :: rest =>
      let taken := take procedures tree
      match taken.failure with
      | none => takeAll taken.procedures rest
      | some _ => taken

def ofTree : Tree → Compilation
  | .root statements => takeAll #[] statements
  | _ => ⟨#[], some .expectedProgram⟩

def program (compilation : Compilation) : Except CompileError Program :=
  match compilation.failure with
  | some error => .error error
  | none => .ok ⟨compilation.procedures⟩

end Compilation

namespace Program

/-- The program that a tree denotes, or the first error in it. -/
def ofTree (tree : Tree) : Except CompileError Program :=
  (Compilation.ofTree tree).program

end Program

end Guu
