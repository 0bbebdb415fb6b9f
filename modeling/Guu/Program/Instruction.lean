import Guu.Tree.Basic

/-!
# Instructions

An instruction is the executable reading of a statement.  Only three shapes of
trees have one.
-/

namespace Guu

inductive Instruction where
  | print (value : Operand)
  | call (name : String)
  | set (name : String) (value : Operand)
deriving DecidableEq, Repr

namespace Instruction

def ofTree? : Tree → Option Instruction
  | .unary .print (.operand value) _ => some (print value)
  | .unary .call (.operand (.variable name)) _ => some (call name)
  | .binary .set (.operand (.variable name)) (.operand value) _ => some (set name value)
  | _ => none

def toTree (line : Nat) : Instruction → Tree
  | print value => .unary .print (.operand value) line
  | call name => .unary .call (.operand (.variable name)) line
  | set name value => .binary .set (.operand (.variable name)) (.operand value) line

@[simp]
theorem ofTree?_toTree (line : Nat) (instruction : Instruction) :
    ofTree? (instruction.toTree line) = some instruction := by
  cases instruction <;> rfl

@[simp]
theorem line?_toTree (line : Nat) (instruction : Instruction) :
    (instruction.toTree line).line? = some line := by
  cases instruction <;> rfl

end Instruction

end Guu
