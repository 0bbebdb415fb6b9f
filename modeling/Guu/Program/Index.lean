import Guu.Program.Compile

/-!
# Indexed programs

An indexed program keeps the statements of its tree.  The body of a procedure is
a row of places among them, a table tells the index of each name, and a statement
is read as an instruction when it is executed.
-/

namespace Guu

/-- A procedure, with the places of its statements among those of the whole tree. -/
structure Routine where
  name : String
  line : Nat
  places : Array Nat
deriving DecidableEq, Repr

def Routine.own (routine : Routine) (place : Nat) : Routine :=
  { routine with places := routine.places.push place }

structure Index where
  routines : Array Routine
  symbols : List (String × Nat)
deriving DecidableEq, Repr

/-- What indexing some statements leaves: the index so far, and why it stopped early. -/
structure Indexing where
  index : Index
  failure : Option CompileError
deriving DecidableEq, Repr

namespace Index

def empty : Index :=
  ⟨#[], []⟩

def register (index : Index) (name : String) (line : Nat) : Indexing :=
  match index.symbols.lookup name with
  | some _ => ⟨index, some (.duplicateProcedure name line)⟩
  | none =>
      ⟨⟨index.routines.push ⟨name, line, #[]⟩, (name, index.routines.size) :: index.symbols⟩, none⟩

/-- Let the last routine own a place. -/
def own (index : Index) (place line : Nat) : Indexing :=
  if index.routines.isEmpty then ⟨index, some (.statementOutsideProcedure line)⟩
  else
    ⟨{ index with routines := index.routines.modify (index.routines.size - 1) (·.own place) }, none⟩

def take (index : Index) (place : Nat) (tree : Tree) : Indexing :=
  let line := tree.line?.getD 0
  match tree with
  | .procedure name _ => index.register name line
  | _ =>
      match Instruction.ofTree? tree with
      | none => ⟨index, some (.malformedStatement line)⟩
      | some _ => index.own place line

def takeAll (index : Index) (place : Nat) : List Tree → Indexing
  | [] => ⟨index, none⟩
  | tree :: rest =>
      let taken := index.take place tree
      match taken.failure with
      | none => taken.index.takeAll (place + 1) rest
      | some _ => taken

end Index

structure IndexedProgram where
  statements : Array Tree
  index : Index

namespace IndexedProgram

def ofTree : Tree → Except CompileError IndexedProgram
  | .root statements =>
      let indexing := Index.empty.takeAll 0 statements
      match indexing.failure with
      | none => .ok ⟨statements.toArray, indexing.index⟩
      | some error => .error error
  | _ => .error .expectedProgram

def find? (program : IndexedProgram) (name : String) : Option Nat :=
  program.index.symbols.lookup name

def routine? (program : IndexedProgram) (position : Position) : Option Routine :=
  program.index.routines[position.procedure]?

def tree? (program : IndexedProgram) (position : Position) : Option Tree :=
  (program.routine? position).bind fun routine =>
    routine.places[position.offset]?.bind (program.statements[·]?)

def line? (program : IndexedProgram) (position : Position) : Option Nat :=
  (program.tree? position).bind Tree.line?

end IndexedProgram

end Guu
