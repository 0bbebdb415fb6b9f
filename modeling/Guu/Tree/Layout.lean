import Guu.Text.Decimal
import Guu.Tree.Basic

/-!
# The layout of trees

A tree is shown with one line for each of its nodes, parents before children,
and with every child two columns to the right of its parent.
-/

namespace Guu.Tree

def indentStep : Nat :=
  2

def headline : Tree → String
  | root _ => "(Root)"
  | procedure name line => s!"(ProcDecl name = '{name}', line = {line})"
  | unary operator _ line => s!"(UnaryOp op = {operator.name}, line = {line})"
  | binary operator _ _ line => s!"(BinOp op = {operator.name}, line = {line})"
  | operand (.literal value) => s!"(Param integer = {Text.Decimal.render value.toInt})"
  | operand (.variable name) => s!"(Param variable = '{name}')"

def indented (indent : Nat) (tree : Tree) : String :=
  String.ofList (List.replicate indent ' ') ++ tree.headline

mutual

def layout (indent : Nat) : Tree → List String
  | root statements =>
      indented indent (root statements) :: layoutAll (indent + indentStep) statements
  | unary operator below line =>
      indented indent (unary operator below line) :: layout (indent + indentStep) below
  | binary operator left right line =>
      indented indent (binary operator left right line) ::
        (layout (indent + indentStep) left ++ layout (indent + indentStep) right)
  | procedure name line => [indented indent (procedure name line)]
  | operand value => [indented indent (operand value)]

def layoutAll (indent : Nat) : List Tree → List String
  | [] => []
  | tree :: rest => layout indent tree ++ layoutAll indent rest

end

def render (tree : Tree) : String :=
  String.join ((tree.layout 0).map (· ++ "\n"))

end Guu.Tree
