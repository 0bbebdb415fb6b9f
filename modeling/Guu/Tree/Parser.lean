import Guu.Text.Decimal
import Guu.Tree.Basic
import Guu.Tree.Rule

/-!
# The grammar of programs

    program    ::= newline* (statement (newline+ statement)*)? newline*
    statement  ::= space* command space*
    command    ::= print | call | set | sub
    print      ::= PRINT space operand
    call       ::= CALL space identifier
    set        ::= SET space identifier space operand
    sub        ::= SUB space identifier
    operand    ::= identifier | (plus | minus)? number

Inside a command there is exactly one blank between two words.  A command that
breaks the grammar is reported by the token that it starts with.
-/

namespace Guu

namespace Rule

def sign : Rule Bool :=
  firstOf
    [(token .plus).andThen fun _ => accept false,
     (token .minus).andThen fun _ => accept true,
     accept false]

def literalOf (negative : Bool) (digits : Token) : Rule Operand :=
  match Text.Decimal.word? (Text.Decimal.signed negative digits.text.toList) with
  | some value => accept (.literal value)
  | none => fail (.literalTooLarge ((if negative then "-" else "") ++ digits.text) digits.line)

def literal : Rule Operand := do
  let negative ← sign
  let digits ← token .number
  literalOf negative digits

def variableName : Rule Operand := do
  let name ← token .identifier
  return .variable name.text

def operand : Rule Operand :=
  firstOf [variableName, literal]

def print : Rule Tree := do
  let keyword ← token .print
  let _ ← token .space
  let value ← operand
  return .unary .print (.operand value) keyword.line

def call : Rule Tree := do
  let keyword ← token .call
  let _ ← token .space
  let name ← token .identifier
  return .unary .call (.operand (.variable name.text)) keyword.line

def set : Rule Tree := do
  let keyword ← token .set
  let _ ← token .space
  let name ← token .identifier
  let _ ← token .space
  let value ← operand
  return .binary .set (.operand (.variable name.text)) (.operand value) keyword.line

def sub : Rule Tree := do
  let keyword ← token .sub
  let _ ← token .space
  let name ← token .identifier
  return .procedure name.text keyword.line

def command : Rule Tree :=
  demand (firstOf [print, call, set, sub])

def statement (command : Rule Tree) : Rule Tree := do
  let _ ← skip .space
  let tree ← command
  let _ ← skip .space
  return tree

/-- What follows a statement behind a number of line breaks: without any, the end of the input. -/
def lineEnd (breaks : Nat) : Rule Unit :=
  if breaks = 0 then endOfInput else accept ()

def line (command : Rule Tree) : Rule Tree := do
  let tree ← statement command
  let breaks ← skip .newline
  lineEnd breaks
  return tree

/-! ## Progress -/

theorem sign_neverLengthens : sign.NeverLengthens := by
  apply firstOf_neverLengthens
  intro rule member
  simp only [List.mem_cons, List.not_mem_nil, or_false] at member
  rcases member with rfl | rfl | rfl
  · exact (andThen_shortens (token_shortens _) fun _ => accept_neverLengthens _).neverLengthens
  · exact (andThen_shortens (token_shortens _) fun _ => accept_neverLengthens _).neverLengthens
  · exact accept_neverLengthens _

theorem literalOf_neverLengthens (negative : Bool) (digits : Token) :
    (literalOf negative digits).NeverLengthens := by
  unfold literalOf
  split
  · exact accept_neverLengthens _
  · exact fail_neverLengthens _

theorem literal_shortens : literal.Shortens :=
  andThen_shortens_of_next sign_neverLengthens fun negative =>
    andThen_shortens (token_shortens _) (literalOf_neverLengthens negative)

theorem variableName_shortens : variableName.Shortens :=
  andThen_shortens (token_shortens _) fun _ => accept_neverLengthens _

theorem operand_shortens : operand.Shortens := by
  apply firstOf_shortens
  intro rule member
  simp only [List.mem_cons, List.not_mem_nil, or_false] at member
  rcases member with rfl | rfl
  · exact variableName_shortens
  · exact literal_shortens

theorem print_shortens : print.Shortens :=
  andThen_shortens (token_shortens _) fun _ =>
    andThen_neverLengthens (token_shortens _).neverLengthens fun _ =>
      andThen_neverLengthens operand_shortens.neverLengthens fun _ => accept_neverLengthens _

theorem call_shortens : call.Shortens :=
  andThen_shortens (token_shortens _) fun _ =>
    andThen_neverLengthens (token_shortens _).neverLengthens fun _ =>
      andThen_neverLengthens (token_shortens _).neverLengthens fun _ => accept_neverLengthens _

theorem set_shortens : set.Shortens :=
  andThen_shortens (token_shortens _) fun _ =>
    andThen_neverLengthens (token_shortens _).neverLengthens fun _ =>
      andThen_neverLengthens (token_shortens _).neverLengthens fun _ =>
        andThen_neverLengthens (token_shortens _).neverLengthens fun _ =>
          andThen_neverLengthens operand_shortens.neverLengthens fun _ => accept_neverLengthens _

theorem sub_shortens : sub.Shortens :=
  andThen_shortens (token_shortens _) fun _ =>
    andThen_neverLengthens (token_shortens _).neverLengthens fun _ =>
      andThen_neverLengthens (token_shortens _).neverLengthens fun _ => accept_neverLengthens _

theorem command_shortens : command.Shortens := by
  apply demand_shortens
  apply firstOf_shortens
  intro rule member
  simp only [List.mem_cons, List.not_mem_nil, or_false] at member
  rcases member with rfl | rfl | rfl | rfl
  · exact print_shortens
  · exact call_shortens
  · exact set_shortens
  · exact sub_shortens

theorem statement_shortens {command : Rule Tree} (shortens : command.Shortens) :
    (statement command).Shortens :=
  andThen_shortens_of_next (skip_neverLengthens _) fun _ =>
    andThen_shortens shortens fun _ =>
      andThen_neverLengthens (skip_neverLengthens _) fun _ => accept_neverLengthens _

theorem lineEnd_neverLengthens (breaks : Nat) : (lineEnd breaks).NeverLengthens := by
  unfold lineEnd
  split
  · exact endOfInput_neverLengthens
  · exact accept_neverLengthens _

theorem line_shortens {command : Rule Tree} (shortens : command.Shortens) :
    (line command).Shortens :=
  andThen_shortens (statement_shortens shortens) fun _ =>
    andThen_neverLengthens (skip_neverLengthens _) fun _ =>
      andThen_neverLengthens (lineEnd_neverLengthens _) fun _ => accept_neverLengthens _

/-! ## Whole programs -/

def statements (command : Rule Tree) (shortens : command.Shortens) (reader : Reader) :
    Except SyntaxError (Option (List Tree × Reader)) :=
  if reader.AtEnd then .ok (some ([], reader))
  else
    match _read : line command reader with
    | .error error => .error error
    | .ok none => .ok none
    | .ok (some (tree, after)) =>
        adjust (tree :: ·) (statements command shortens after)
termination_by reader.remaining
decreasing_by exact line_shortens shortens _ _ _ (by assumption)

def program (command : Rule Tree) (shortens : command.Shortens) : Rule (List Tree) := do
  let _ ← skip .newline
  statements command shortens

end Rule

/-- The statements of a program and the number of lines that they stand on. -/
structure Parsed where
  statements : List Tree
  lines : Nat
deriving Repr, BEq

namespace Parsed

def tree (parsed : Parsed) : Tree :=
  .root parsed.statements

def ofSourceWith (command : Rule Tree) (shortens : command.Shortens) (source : String) :
    Except SyntaxError Parsed := do
  let reader ← Reader.ofSource source
  let (statements, last) ← (Rule.program command shortens).run reader
  return ⟨statements, last.scanner.line⟩

def ofSource (source : String) : Except SyntaxError Parsed :=
  ofSourceWith Rule.command Rule.command_shortens source

end Parsed

namespace Tree

def parse (source : String) : Except SyntaxError Tree :=
  (Parsed.ofSource source).map Parsed.tree

end Tree

end Guu
