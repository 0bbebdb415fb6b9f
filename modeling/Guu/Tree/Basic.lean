/-!
# Syntax trees

A tree is what a program text denotes before it is known to make sense.  Any
tree may stand below any operator; which trees are statements is decided when
they are read as instructions.
-/

namespace Guu

inductive Operator where
  | print
  | call
  | set
deriving DecidableEq, Repr

namespace Operator

def name : Operator → String
  | print => "print"
  | call => "call"
  | set => "set"

end Operator

inductive Operand where
  | literal (value : Int64)
  | variable (name : String)
deriving DecidableEq, Repr

/-- A syntax tree.  Declarations and operators know the line of their keyword. -/
inductive Tree where
  | root (statements : List Tree)
  | procedure (name : String) (line : Nat)
  | unary (operator : Operator) (operand : Tree) (line : Nat)
  | binary (operator : Operator) (left right : Tree) (line : Nat)
  | operand (operand : Operand)
deriving Repr, BEq

namespace Tree

def line? : Tree → Option Nat
  | procedure _ line => some line
  | unary _ _ line => some line
  | binary _ _ _ line => some line
  | root _ => none
  | operand _ => none

end Tree

end Guu
