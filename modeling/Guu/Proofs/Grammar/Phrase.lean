import Guu.Text.Decimal
import Guu.Token.Basic
import Guu.Tree.Basic

/-!
# Phrases

The grammar of programs, as a relation between rows of tokens and the phrases
that they spell.  A phrase is a command with the line of its keyword.  The
literals in it are integers without any bound, since the grammar does not know
how large a word is.  A row of tokens spells at most one row of phrases, because
every keyword in it starts a phrase and nothing else does.
-/

namespace Guu.Grammar

inductive Parameter where
  | variable (name : String)
  | literal (value : Int)
deriving DecidableEq, Repr

inductive Phrase where
  | print (line : Nat) (value : Parameter)
  | call (line : Nat) (name : String)
  | set (line : Nat) (name : String) (value : Parameter)
  | sub (line : Nat) (name : String)
deriving DecidableEq, Repr

namespace Parameter

def Fits : Parameter → Prop
  | .variable _ => True
  | .literal value => -9223372036854775808 ≤ value ∧ value ≤ 9223372036854775807

def operand : Parameter → Operand
  | .variable name => .variable name
  | .literal value => .literal (Int64.ofInt value)

end Parameter

namespace Phrase

def Fits : Phrase → Prop
  | print _ value => value.Fits
  | set _ _ value => value.Fits
  | _ => True

def tree : Phrase → Tree
  | print line value => .unary .print (.operand value.operand) line
  | call line name => .unary .call (.operand (.variable name)) line
  | set line name value =>
      .binary .set (.operand (.variable name)) (.operand value.operand) line
  | sub line name => .procedure name line

end Phrase

def Only (kind : Token.Kind) (tokens : List Token) : Prop :=
  ∀ token ∈ tokens, token.kind = kind

def magnitude (digits : Token) : Nat :=
  Text.Decimal.magnitude digits.text.toList

/-- `param ::= ID | (PLUS | MINUS)? NUM` -/
inductive Spells : List Token → Parameter → Prop where
  | name {word : Token} (identifier : word.kind = .identifier) :
      Spells [word] (.variable word.text)
  | unsigned {digits : Token} (number : digits.kind = .number) :
      Spells [digits] (.literal (magnitude digits))
  | positive {sign digits : Token} (plus : sign.kind = .plus) (number : digits.kind = .number) :
      Spells [sign, digits] (.literal (magnitude digits))
  | negative {sign digits : Token} (minus : sign.kind = .minus)
      (number : digits.kind = .number) : Spells [sign, digits] (.literal (-magnitude digits))

/-- `command ::= PRINT SPACE param | CALL SPACE ID | SET SPACE ID SPACE param | SUB SPACE ID` -/
inductive Command : List Token → Phrase → Prop where
  | print {keyword space : Token} {operand : List Token} {value : Parameter}
      (word : keyword.kind = .print) (gap : space.kind = .space)
      (spells : Spells operand value) :
      Command (keyword :: space :: operand) (.print keyword.line value)
  | call {keyword space name : Token} (word : keyword.kind = .call) (gap : space.kind = .space)
      (named : name.kind = .identifier) :
      Command [keyword, space, name] (.call keyword.line name.text)
  | set {keyword space name second : Token} {operand : List Token} {value : Parameter}
      (word : keyword.kind = .set) (gap : space.kind = .space) (named : name.kind = .identifier)
      (secondGap : second.kind = .space) (spells : Spells operand value) :
      Command (keyword :: space :: name :: second :: operand)
        (.set keyword.line name.text value)
  | sub {keyword space name : Token} (word : keyword.kind = .sub) (gap : space.kind = .space)
      (named : name.kind = .identifier) :
      Command [keyword, space, name] (.sub keyword.line name.text)

/-- `statement ::= SPACE* command SPACE*` -/
inductive Statement : List Token → Phrase → Prop where
  | padded {before command behind : List Token} {phrase : Phrase}
      (indented : Only .space before) (commands : Command command phrase)
      (trailing : Only .space behind) : Statement (before ++ command ++ behind) phrase

/-- `statement (NEWLINE+ statement)*` -/
inductive Statements : List Token → List Phrase → Prop where
  | last {tokens : List Token} {phrase : Phrase} (stated : Statement tokens phrase) :
      Statements tokens [phrase]
  | next {tokens breaks rest : List Token} {phrase : Phrase} {phrases : List Phrase}
      (stated : Statement tokens phrase) (broken : Only .newline breaks)
      (separated : breaks ≠ []) (others : Statements rest phrases) :
      Statements (tokens ++ breaks ++ rest) (phrase :: phrases)

/-- `program ::= NEWLINE* (statement (NEWLINE+ statement)*)? NEWLINE*` -/
inductive Program : List Token → List Phrase → Prop where
  | empty {before behind : List Token} (leading : Only .newline before)
      (trailing : Only .newline behind) : Program (before ++ behind) []
  | stated {before tokens behind : List Token} {phrases : List Phrase}
      (leading : Only .newline before) (statements : Statements tokens phrases)
      (trailing : Only .newline behind) : Program (before ++ tokens ++ behind) phrases

/-! ## Line by line -/

/-- Statements with the line breaks behind them, which only the last one can do without. -/
inductive Lines : List Token → List Phrase → Prop where
  | nil : Lines [] []
  | cons {tokens breaks rest : List Token} {phrase : Phrase} {phrases : List Phrase}
      (stated : Statement tokens phrase) (broken : Only .newline breaks)
      (separated : breaks = [] → rest = []) (others : Lines rest phrases) :
      Lines (tokens ++ breaks ++ rest) (phrase :: phrases)

theorem Only.nil (kind : Token.Kind) : Only kind [] := by
  intro token member
  cases member

theorem Only.append {kind : Token.Kind} {front behind : List Token} (left : Only kind front)
    (right : Only kind behind) : Only kind (front ++ behind) := by
  intro token member
  rcases List.mem_append.mp member with inFront | inBehind
  · exact left token inFront
  · exact right token inBehind

theorem Command.exists_head {tokens : List Token} {phrase : Phrase}
    (commands : Command tokens phrase) :
    ∃ keyword rest, tokens = keyword :: rest ∧ keyword.kind ≠ .space ∧
      keyword.kind ≠ .newline := by
  cases commands with
  | print word gap spells => exact ⟨_, _, rfl, by simp [word], by simp [word]⟩
  | call word gap named => exact ⟨_, _, rfl, by simp [word], by simp [word]⟩
  | set word gap named secondGap spells => exact ⟨_, _, rfl, by simp [word], by simp [word]⟩
  | sub word gap named => exact ⟨_, _, rfl, by simp [word], by simp [word]⟩

theorem Statement.exists_head {tokens : List Token} {phrase : Phrase}
    (stated : Statement tokens phrase) :
    ∃ first rest, tokens = first :: rest ∧ first.kind ≠ .newline := by
  cases stated with
  | @padded before command behind phrase indented commands trailing =>
      cases before with
      | nil =>
          obtain ⟨keyword, rest, rfl, _, other⟩ := commands.exists_head
          exact ⟨keyword, rest ++ behind, rfl, other⟩
      | cons space others =>
          have kind := indented space List.mem_cons_self
          exact ⟨space, others ++ command ++ behind, rfl, by simp [kind]⟩

theorem lines_of_statements {tokens behind : List Token} {phrases : List Phrase}
    (statements : Statements tokens phrases) (trailing : Only .newline behind) :
    Lines (tokens ++ behind) phrases := by
  induction statements with
  | @last tokens phrase stated =>
      have line := Lines.cons stated trailing (fun _ => rfl) .nil
      rwa [List.append_nil] at line
  | next stated broken separated others ih =>
      rw [List.append_assoc]
      exact .cons stated broken (fun empty => absurd empty separated) ih

theorem statements_of_lines {tokens : List Token} {phrases : List Phrase}
    (lines : Lines tokens phrases) :
    (tokens = [] ∧ phrases = []) ∨
      ∃ front behind, tokens = front ++ behind ∧ Statements front phrases ∧
        Only .newline behind := by
  induction lines with
  | nil => exact .inl ⟨rfl, rfl⟩
  | @cons tokens breaks rest phrase phrases stated broken separated others ih =>
      right
      rcases ih with ⟨rfl, rfl⟩ | ⟨front, behind, rfl, statements, trailing⟩
      · exact ⟨tokens, breaks, List.append_nil _, .last stated, broken⟩
      · by_cases none : breaks = []
        · -- Without a line break nothing can follow, but the other statements are something.
          have empty := separated none
          have front_nil := (List.append_eq_nil_iff.mp empty).1
          cases statements with
          | last stated =>
              obtain ⟨first, rest, row, _⟩ := stated.exists_head
              simp [row] at front_nil
          | next stated broken separated others =>
              obtain ⟨first, rest, row, _⟩ := stated.exists_head
              simp [row] at front_nil
        · refine ⟨tokens ++ breaks ++ front, behind, ?_, .next stated broken none statements,
            trailing⟩
          simp only [List.append_assoc]

/-- A program is a row of lines behind any number of line breaks. -/
theorem program_iff {tokens : List Token} {phrases : List Phrase} :
    Program tokens phrases ↔
      ∃ before rest, tokens = before ++ rest ∧ Only .newline before ∧ Lines rest phrases := by
  constructor
  · intro program
    cases program with
    | @empty before behind leading trailing =>
        exact ⟨before ++ behind, [], by simp, leading.append trailing, .nil⟩
    | @stated before tokens behind _ leading statements trailing =>
        exact ⟨before, tokens ++ behind, by simp, leading,
          lines_of_statements statements trailing⟩
  · rintro ⟨before, rest, rfl, leading, lines⟩
    rcases statements_of_lines lines with ⟨rfl, rfl⟩ | ⟨front, behind, rfl, statements, trailing⟩
    · exact .empty leading (Only.nil .newline)
    · rw [← List.append_assoc]
      exact .stated leading statements trailing

/-! ## Every row spells at most one row of phrases -/

def parameterAt : List Token → Option Parameter
  | ⟨.identifier, name, _⟩ :: _ => some (.variable name)
  | ⟨.number, text, line⟩ :: _ => some (.literal (magnitude ⟨.number, text, line⟩))
  | ⟨.plus, _, _⟩ :: digits :: _ => some (.literal (magnitude digits))
  | ⟨.minus, _, _⟩ :: digits :: _ => some (.literal (-magnitude digits))
  | _ => none

def phraseAt (keyword : Token) (following : List Token) : Option Phrase :=
  match keyword.kind, following with
  | .print, _ :: operand => (parameterAt operand).map (.print keyword.line)
  | .call, _ :: name :: _ => some (.call keyword.line name.text)
  | .set, _ :: name :: _ :: operand => (parameterAt operand).map (.set keyword.line name.text)
  | .sub, _ :: name :: _ => some (.sub keyword.line name.text)
  | _, _ => none

def phrases : List Token → List Phrase
  | [] => []
  | token :: rest => (phraseAt token rest).toList ++ phrases rest

theorem phrases_of_only {kind : Token.Kind}
    (silent : ∀ token rest, token.kind = kind → phraseAt token rest = none)
    {tokens : List Token} (only : Only kind tokens) (rest : List Token) :
    phrases (tokens ++ rest) = phrases rest := by
  induction tokens with
  | nil => rfl
  | cons token others ih =>
      have first := silent token (others ++ rest) (only token List.mem_cons_self)
      have behind := ih fun other member => only other (List.mem_cons_of_mem _ member)
      simp [phrases, first, behind]

theorem phrases_of_space {tokens : List Token} (only : Only .space tokens) (rest : List Token) :
    phrases (tokens ++ rest) = phrases rest :=
  phrases_of_only (fun _ _ space => by simp [phraseAt, space]) only rest

theorem phrases_of_newline {tokens : List Token} (only : Only .newline tokens)
    (rest : List Token) : phrases (tokens ++ rest) = phrases rest :=
  phrases_of_only (fun _ _ newline => by simp [phraseAt, newline]) only rest

theorem parameterAt_of_spells {tokens : List Token} {value : Parameter}
    (spells : Spells tokens value) (rest : List Token) :
    parameterAt (tokens ++ rest) = some value := by
  cases spells with
  | @name word identifier =>
      obtain ⟨kind, text, line⟩ := word
      cases identifier
      rfl
  | @unsigned digits number =>
      obtain ⟨kind, text, line⟩ := digits
      cases number
      rfl
  | @positive sign digits plus number =>
      obtain ⟨kind, text, line⟩ := sign
      cases plus
      rfl
  | @negative sign digits minus number =>
      obtain ⟨kind, text, line⟩ := sign
      cases minus
      rfl

/-- The tokens of a parameter start no phrase. -/
theorem phrases_of_spells {tokens : List Token} {value : Parameter}
    (spells : Spells tokens value) (rest : List Token) :
    phrases (tokens ++ rest) = phrases rest := by
  cases spells with
  | name identifier => simp [phrases, phraseAt, identifier]
  | unsigned number => simp [phrases, phraseAt, number]
  | positive plus number => simp [phrases, phraseAt, plus, number]
  | negative minus number => simp [phrases, phraseAt, minus, number]

theorem phrases_of_command {tokens : List Token} {phrase : Phrase}
    (commands : Command tokens phrase) (rest : List Token) :
    phrases (tokens ++ rest) = phrase :: phrases rest := by
  cases commands with
  | print word gap spells =>
      have value := parameterAt_of_spells spells rest
      have silent := phrases_of_spells spells rest
      simp [phrases, phraseAt, word, gap, value, silent]
  | call word gap named => simp [phrases, phraseAt, word, gap, named]
  | set word gap named secondGap spells =>
      have value := parameterAt_of_spells spells rest
      have silent := phrases_of_spells spells rest
      simp [phrases, phraseAt, word, gap, named, secondGap, value, silent]
  | sub word gap named => simp [phrases, phraseAt, word, gap, named]

theorem phrases_of_statement {tokens : List Token} {phrase : Phrase}
    (stated : Statement tokens phrase) (rest : List Token) :
    phrases (tokens ++ rest) = phrase :: phrases rest := by
  cases stated with
  | padded indented commands trailing =>
      rw [List.append_assoc, List.append_assoc, phrases_of_space indented,
        phrases_of_command commands, phrases_of_space trailing]

theorem phrases_of_statements {tokens : List Token} {stated : List Phrase}
    (statements : Statements tokens stated) (rest : List Token) :
    phrases (tokens ++ rest) = stated ++ phrases rest := by
  induction statements with
  | last stated => exact phrases_of_statement stated rest
  | next stated broken separated others ih =>
      rw [List.append_assoc, List.append_assoc, phrases_of_statement stated,
        phrases_of_newline broken, ih, List.cons_append]

theorem phrases_of_program {tokens : List Token} {stated : List Phrase}
    (program : Program tokens stated) : phrases tokens = stated := by
  cases program with
  | @empty before behind leading trailing =>
      rw [phrases_of_newline leading, ← List.append_nil behind, phrases_of_newline trailing]
      rfl
  | @stated before tokens behind _ leading statements trailing =>
      rw [List.append_assoc, phrases_of_newline leading, phrases_of_statements statements,
        ← List.append_nil behind, phrases_of_newline trailing]
      exact List.append_nil _

/-- The phrases of a program are determined by its tokens. -/
theorem Program.unique {tokens : List Token} {stated others : List Phrase}
    (program : Program tokens stated) (other : Program tokens others) : stated = others := by
  rw [← phrases_of_program program, phrases_of_program other]

end Guu.Grammar
