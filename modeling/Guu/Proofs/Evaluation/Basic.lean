import Guu.Machine.Basic
import Guu.Proofs.Program.Compilation

/-!
# Evaluating a program

A program has a meaning without a call stack: its statements are evaluated from
left to right over one map of variables, and a call evaluates the whole body of
its callee before the next statement.  The depth of the calls is a parameter of
evaluation, and the only thing that is remembered about them.
-/

namespace Guu

abbrev Variables : Type :=
  String → Option Int64

namespace Variables

def unset : Variables :=
  fun _ => none

def set (values : Variables) (name : String) (value : Int64) : Variables :=
  fun other => if other = name then some value else values other

def value (values : Variables) (line : Nat) : Operand → Except RuntimeError Int64
  | .literal value => .ok value
  | .variable name =>
      match values name with
      | some value => .ok value
      | none => .error (.undefinedVariable name line)

end Variables

/-- What evaluating statements leaves: the variables, the printed text, and why it failed. -/
structure Evaluation where
  values : Variables
  output : String
  failure : Option RuntimeError

namespace Evaluation

def done (values : Variables) : Evaluation :=
  ⟨values, "", none⟩

def failed (values : Variables) (error : RuntimeError) : Evaluation :=
  ⟨values, "", some error⟩

def andThen (first : Evaluation) (second : Variables → Evaluation) : Evaluation :=
  match first.failure with
  | some _ => first
  | none =>
      let last := second first.values
      ⟨last.values, first.output ++ last.output, last.failure⟩

def print (values : Variables) (line : Nat) (operand : Operand) : Evaluation :=
  match values.value line operand with
  | .ok value => ⟨values, Text.Decimal.render value.toInt ++ "\n", none⟩
  | .error error => failed values error

def set (values : Variables) (line : Nat) (name : String) (operand : Operand) : Evaluation :=
  match values.value line operand with
  | .ok value => done (values.set name value)
  | .error error => failed values error

/-- Evaluate statements at a depth, given the bodies that names stand for. -/
def ofStatements (body? : String → Option (List Statement)) (depth : Nat) :
    List Statement → Variables → Evaluation
  | [], values => done values
  | ⟨line, .print operand⟩ :: rest, values =>
      (print values line operand).andThen fun values =>
        ofStatements body? depth rest values
  | ⟨line, .set name operand⟩ :: rest, values =>
      (set values line name operand).andThen fun values =>
        ofStatements body? depth rest values
  | ⟨line, .call name⟩ :: rest, values =>
      match body? name with
      | none => failed values (.undefinedProcedure name line)
      | some body =>
          if _room : depth < Machine.stackLimit then
            (ofStatements body? (depth + 1) body values).andThen fun values =>
              ofStatements body? depth rest values
          else failed values (.stackOverflow Machine.stackLimit line)
termination_by statements => (Machine.stackLimit - depth, statements.length)
decreasing_by all_goals simp_wf; grind

/-- Evaluate the program that a tree denotes: the body of `main` at the depth of one. -/
def ofTree (tree : Tree) : Evaluation :=
  match tree.body? Program.entryPoint with
  | none => failed Variables.unset .entryPointNotFound
  | some body => ofStatements tree.body? 1 body Variables.unset

end Evaluation

end Guu
