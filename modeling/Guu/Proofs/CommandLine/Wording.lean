import Guu.CommandLine.Invocation
import Guu.Proofs.Grammar.Diagnosis
import Guu.Proofs.Grammar.Image
import Guu.Proofs.Machine.Replay
import Guu.Proofs.Program.Ownership

/-!
# Messages on one line

Messages show pieces of the program: a character that could not be read, a token,
the text of a literal, a name.  None of these pieces contains a line feed or a
carriage return, either because its kind does not admit one or because it is
quoted.  Names get into messages through trees, instructions and steps, and stay
names on the way.  So every message is a single line.
-/

namespace Guu

namespace Text

def OneLine (text : String) : Prop :=
  ∀ character ∈ text.toList, character ≠ '\n' ∧ character ≠ '\r'

theorem oneLine_iff_all {text : String} :
    OneLine text ↔ (text.toList.all fun character => character != '\n' && character != '\r') := by
  simp [OneLine]

instance (text : String) : Decidable (OneLine text) :=
  decidable_of_iff _ oneLine_iff_all.symm

@[simp]
theorem oneLine_append {left right : String} :
    OneLine (left ++ right) ↔ OneLine left ∧ OneLine right := by
  simp only [OneLine, String.toList_append, List.forall_mem_append]

theorem oneLine_ofList {characters : List Char} :
    OneLine (String.ofList characters) ↔
      ∀ character ∈ characters, character ≠ '\n' ∧ character ≠ '\r' := by
  rw [OneLine, String.toList_ofList]

/-! ## Letters and digits -/

theorem ne_of_isAlphanum {character : Char} (alphanumeric : character.isAlphanum = true) :
    character ≠ '\n' ∧ character ≠ '\r' := by
  constructor
  · rintro rfl
    exact absurd alphanumeric (by decide)
  · rintro rfl
    exact absurd alphanumeric (by decide)

theorem oneLine_of_isWord {text : String} (word : Token.IsWord text.toList) : OneLine text := by
  obtain ⟨letter, rest, spelled, alphabetic, alphanumeric⟩ := word
  rw [OneLine, spelled]
  refine List.forall_mem_cons.mpr ⟨?_, fun character member => ?_⟩
  · exact ne_of_isAlphanum (by simp [Char.isAlphanum, alphabetic])
  · exact ne_of_isAlphanum (alphanumeric character member)

theorem oneLine_of_isName {name : String} (named : IsName name) : OneLine name :=
  oneLine_of_isWord named.1

theorem oneLine_of_digits {text : String} (digits : ∀ digit ∈ text.toList, digit.isDigit = true) :
    OneLine text :=
  fun digit member => ne_of_isAlphanum (by simp [Char.isAlphanum, digits digit member])

theorem isAlphanum_digitChar {value : Nat} (small : value < 16) :
    value.digitChar.isAlphanum = true := by
  revert small value
  decide

/-- In bases up to sixteen, numbers are written with digits and letters. -/
theorem isAlphanum_of_mem_toDigits {base : Nat} (several : 1 < base) (small : base ≤ 16)
    {value : Nat} {character : Char} (member : character ∈ Nat.toDigits base value) :
    character.isAlphanum = true := by
  induction value using Nat.strongRecOn with
  | ind value ih =>
      rw [Nat.toDigits_eq_if several] at member
      split at member
      · rename_i single
        obtain rfl := List.mem_singleton.mp member
        exact isAlphanum_digitChar (Nat.lt_of_lt_of_le single small)
      · rename_i further
        rcases List.mem_append.mp member with inFront | last
        · have positive : 0 < value := by omega
          exact ih _ (Nat.div_lt_self positive several) inFront
        · obtain rfl := List.mem_singleton.mp last
          exact isAlphanum_digitChar (Nat.lt_of_lt_of_le (Nat.mod_lt _ (by omega)) small)

@[simp]
theorem oneLine_repr (value : Nat) : OneLine value.repr :=
  oneLine_ofList.mpr fun _ member =>
    ne_of_isAlphanum (isAlphanum_of_mem_toDigits (by decide) (by decide) member)

/-! ## Quoted texts -/

namespace Quoted

/-- No escape contains a line break, and the characters that stand for themselves are none. -/
theorem ne_of_mem_escape {mark : Mark} {character other : Char}
    (member : other ∈ escape mark character) : other ≠ '\n' ∧ other ≠ '\r' := by
  unfold escape at member
  split at member
  · exact oneLine_ofList.mp (by decide) other member
  split at member
  · exact oneLine_ofList.mp (by decide) other member
  split at member
  · exact oneLine_ofList.mp (by decide) other member
  rename_i notReturn
  split at member
  · exact oneLine_ofList.mp (by decide) other member
  rename_i notFeed
  have itself : character ≠ '\n' ∧ character ≠ '\r' := ⟨notFeed, notReturn⟩
  split at member
  · simp only [List.mem_cons, List.not_mem_nil, or_false] at member
    rcases member with rfl | rfl
    · decide
    · exact itself
  split at member
  · obtain rfl := List.mem_singleton.mp member
    exact itself
  · simp only [codePointEscape, List.mem_append] at member
    rcases member with (opening | digit) | closing
    · exact oneLine_ofList.mp (by decide) other opening
    · exact ne_of_isAlphanum (isAlphanum_of_mem_toDigits (by decide) (by decide) digit)
    · exact oneLine_ofList.mp (by decide) other closing

theorem ne_character (mark : Mark) : mark.character ≠ '\n' ∧ mark.character ≠ '\r' := by
  cases mark <;> decide

@[simp]
theorem oneLine_quote (mark : Mark) (text : List Char) : OneLine (quote mark text) := by
  rw [quote, oneLine_ofList]
  intro character member
  simp only [List.cons_append, List.mem_cons, List.mem_append, List.mem_flatMap, List.not_mem_nil,
    or_false] at member
  rcases member with rfl | ⟨inner, _, escaped⟩ | rfl
  · exact ne_character mark
  · exact ne_of_mem_escape escaped
  · exact ne_character mark

end Quoted

end Text

open Text

/-! ## Tokens -/

namespace Token

theorem oneLine_name (kind : Kind) : OneLine kind.name := by
  cases kind <;> decide

/-- Only the text of a blank or of a line break can break a line. -/
theorem Kind.oneLine_of_admits {kind : Kind} {text : String} (admits : kind.Admits text.toList)
    (notSpace : kind ≠ .space) (notNewline : kind ≠ .newline) : OneLine text := by
  by_cases word : kind.isWord = true
  · exact oneLine_of_isWord (isWord_of_admits word admits).1
  · cases kind with
    | space => exact absurd rfl notSpace
    | newline => exact absurd rfl notNewline
    | plus =>
        obtain rfl : text = "+" := String.toList_inj.mp admits
        decide
    | minus =>
        obtain rfl : text = "-" := String.toList_inj.mp admits
        decide
    | number => exact oneLine_of_digits admits.2
    | endOfInput => cases admits
    | _ => exact absurd rfl word

/-- A token is well formed, unless it is the end of the input. -/
def Proper (token : Token) : Prop :=
  token.kind ≠ .endOfInput → token.WellFormed

theorem oneLine_describe {token : Token} (proper : token.Proper) : OneLine token.describe := by
  have named := oneLine_name token.kind
  have opening : OneLine "(" := by decide
  have closing : OneLine ")" := by decide
  unfold describe
  split
  · simp [named, opening, closing, Text.Quoted.text]
  · have escaped : OneLine "(\\n)" := by decide
    simp [named, escaped]
  · exact named
  · rename_i notSpace notNewline notEnd
    have inner := Kind.oneLine_of_admits (proper notEnd) notSpace notNewline
    simp [named, opening, closing, inner]

end Token

/-! ## Syntax errors -/

namespace ScanError

theorem oneLine_message (error : ScanError) : OneLine error.message := by
  have opening : OneLine "unexpected character " := by decide
  have middle : OneLine " on line " := by decide
  unfold message
  simp [toString, opening, middle, Text.Quoted.character]

end ScanError

namespace SyntaxError

theorem oneLine_unexpected {token : Token} (proper : token.Proper) :
    OneLine (unexpected token).message := by
  have described := Token.oneLine_describe proper
  have opening : OneLine "unexpected token " := by decide
  have middle : OneLine " on line " := by decide
  unfold unexpected message
  simp [toString, opening, middle, described]

theorem oneLine_literalTooLarge {text : String} (inner : OneLine text) (line : Nat) :
    OneLine (literalTooLarge text line).message := by
  have opening : OneLine "integer literal " := by decide
  have middle : OneLine " on line " := by decide
  have closing : OneLine " does not fit in 64 bits" := by decide
  unfold message
  simp [toString, opening, middle, closing, inner]

end SyntaxError

namespace Grammar

variable {front : List Token} {token reported : Token}

/-- The token that is reported stands in the row that is looked at. -/
theorem Blames.mem (blamed : Blames front token reported) : reported ∈ front ++ [token] := by
  by_cases whole : HasCommand (lastLine front)
  · obtain rfl := blamed.1 whole
    exact List.mem_append_right _ List.mem_cons_self
  · have found := List.mem_of_find?_eq_some (blamed.2 whole)
    rcases List.mem_append.mp found with inLine | last
    · exact List.mem_append_left _ ((List.rtakeWhile_suffix _ _).subset inLine)
    · exact List.mem_append_right _ last

/-- What is wrong with proper tokens can be said on one line. -/
theorem Violation.oneLine_message {scan : Scanner.Scan} {error : SyntaxError}
    (violation : Violation scan error) (proper : ∀ token ∈ scan.tokens, token.Proper) :
    OneLine error.message := by
  cases violation with
  | unreadable failed viable inRange => exact ScanError.oneLine_message _
  | @tooLarge front behind digits next row viable inRange exceeds =>
      have number : digits.kind = .number := exceeds.1
      have wellFormed : digits.WellFormed :=
        proper digits (by simp [row]) (by simp [number])
      rw [Token.WellFormed, number] at wellFormed
      refine SyntaxError.oneLine_literalTooLarge ?_ _
      have sign : OneLine (if negated front then "-" else "") := by split <;> decide
      exact oneLine_append.mpr ⟨sign, oneLine_of_digits wellFormed.2⟩
  | @unexpected front behind token reported row viable stuck inRange blamed =>
      refine SyntaxError.oneLine_unexpected (proper reported ?_)
      rw [row]
      have member := blamed.mem
      simp only [List.mem_append, List.mem_cons, List.not_mem_nil, or_false] at member ⊢
      tauto

end Grammar

theorem Tree.oneLine_of_parse {source : String} {error : SyntaxError}
    (failed : parse source = .error error) : OneLine error.message :=
  (violation_of_parse failed).oneLine_message
    (Scanner.wellFormed_of_scans (Scanner.scans_scan (.ofSource source)))

/-! ## Compile errors -/

namespace CompileError

def names : CompileError → List String
  | duplicateProcedure name _ => [name]
  | _ => []

theorem oneLine_message {error : CompileError} (named : ∀ name ∈ error.names, IsName name) :
    OneLine error.message := by
  cases error with
  | expectedProgram => decide
  | duplicateProcedure name line =>
      have opening : OneLine "procedure '" := by decide
      have middle : OneLine "' declared again on line " := by decide
      have inner := oneLine_of_isName (named name List.mem_cons_self)
      unfold message
      simp [toString, opening, middle, inner]
  | statementOutsideProcedure line =>
      have opening : OneLine "statement on line " := by decide
      have closing : OneLine " is not inside any sub" := by decide
      unfold message
      simp [toString, opening, closing]
  | malformedStatement line =>
      have opening : OneLine "malformed statement on line " := by decide
      unfold message
      simp [toString, opening]

end CompileError

namespace Compilation

/-- A tree that offends does so by its own name, if a name is shown. -/
theorem isName_of_offends {earlier : List Tree} {tree : Tree} {error : CompileError}
    (offends : Tree.Offends earlier tree error) (stated : tree.IsStatement) :
    ∀ name ∈ error.names, IsName name := by
  cases offends with
  | duplicate declared =>
      cases stated with
      | procedure named line => exact List.forall_mem_singleton.mpr named
  | malformed ordinary unreadable => exact List.forall_mem_nil _
  | outside denoted undeclared => exact List.forall_mem_nil _

end Compilation

theorem Program.oneLine_of_ofTree {statements : List Tree} {error : CompileError}
    (stated : ∀ tree ∈ statements, tree.IsStatement)
    (failed : Program.ofTree (.root statements) = .error error) : OneLine error.message := by
  obtain ⟨front, offender, behind, rfl, _, offends⟩ :=
    Compilation.failure_takeAll_eq_some.mp (Program.ofTree_eq_error.mp failed)
  have offending := stated offender (List.mem_append_right _ List.mem_cons_self)
  exact CompileError.oneLine_message (Compilation.isName_of_offends offends offending)

/-! ## Names in programs -/

def Operand.names : Operand → List String
  | literal _ => []
  | «variable» name => [name]

def Instruction.names : Instruction → List String
  | print value => value.names
  | call name => [name]
  | set name value => name :: value.names

/-- All names that the statements of a program refer to can be written. -/
def Program.Named (program : Program) : Prop :=
  ∀ position statement, program.statement? position = some statement →
    ∀ name ∈ statement.instruction.names, IsName name

theorem Operand.Named.isName {value : Operand} (named : value.Named) :
    ∀ name ∈ value.names, IsName name := by
  cases value with
  | literal word => exact List.forall_mem_nil _
  | «variable» name => exact List.forall_mem_singleton.mpr named

theorem Tree.IsStatement.isName {tree : Tree} (stated : tree.IsStatement) {statement : Statement}
    (denoted : tree.statement? = some statement) :
    ∀ name ∈ statement.instruction.names, IsName name := by
  cases stated with
  | procedure named line => cases denoted
  | print named line =>
      cases denoted
      exact named.isName
  | call named line =>
      cases denoted
      exact List.forall_mem_singleton.mpr named
  | set named operand line =>
      cases denoted
      exact List.forall_mem_cons.mpr ⟨named, operand.isName⟩

theorem Program.named_of_ofTree {statements : List Tree} {program : Program}
    (stated : ∀ tree ∈ statements, tree.IsStatement)
    (compiled : Program.ofTree (.root statements) = .ok program) : program.Named := by
  intro position statement found
  obtain ⟨node, member, denoted⟩ := exists_tree_of_statement? compiled found
  exact (stated node member).isName denoted

/-! ## Runtime errors -/

theorem FailureKind.oneLine_text (kind : FailureKind) : OneLine kind.text := by
  cases kind <;> decide

namespace RuntimeError

def names : RuntimeError → List String
  | undefinedProcedure name _ => [name]
  | undefinedVariable name _ => [name]
  | _ => []

theorem oneLine_message {error : RuntimeError} (named : ∀ name ∈ error.names, IsName name) :
    OneLine error.message := by
  cases error with
  | entryPointNotFound => decide
  | undefinedProcedure name line =>
      have opening : OneLine "unknown sub '" := by decide
      have middle : OneLine "' called on line " := by decide
      have inner := oneLine_of_isName (named name List.mem_cons_self)
      unfold message
      simp [toString, opening, middle, inner]
  | undefinedVariable name line =>
      have opening : OneLine "unknown variable '" := by decide
      have middle : OneLine "' on line " := by decide
      have inner := oneLine_of_isName (named name List.mem_cons_self)
      unfold message
      simp [toString, opening, middle, inner]
  | stackOverflow depth line =>
      have opening : OneLine "stack overflow at depth " := by decide
      have middle : OneLine " calling on line " := by decide
      unfold message
      simp [toString, opening, middle]
  | invalidInstruction line =>
      have opening : OneLine "invalid instruction on line " := by decide
      unfold message
      simp [toString, opening]
  | output kind =>
      have opening : OneLine "failed to write output: " := by decide
      unfold message
      simp [toString, opening, FailureKind.oneLine_text]

end RuntimeError

namespace Machine

variable {machine : Machine} {error : RuntimeError}

theorem names_of_value {line : Nat} {operand : Operand}
    (refused : machine.value line operand = .error error) : error.names = operand.names := by
  cases operand with
  | literal word => cases refused
  | «variable» name =>
      rw [value] at refused
      split at refused
      · cases refused
      · cases refused
        rfl

theorem eq_error_of_map {α β : Type} {change : α → β} {result : Except RuntimeError α}
    (refused : result.map change = .error error) : result = .error error := by
  cases result with
  | error other =>
      cases refused
      rfl
  | ok value => cases refused

/-- A statement that cannot be executed is reported by a name in it. -/
theorem names_of_effect {statement : Statement}
    (refused : machine.effect statement = .error error) :
    error.names ⊆ statement.instruction.names := by
  obtain ⟨line, instruction⟩ := statement
  cases instruction with
  | print operand =>
      rw [names_of_value (eq_error_of_map refused)]
      exact List.Subset.refl _
  | call name =>
      simp only [effect] at refused
      split at refused
      · cases refused
      · cases refused
        exact List.Subset.refl _
  | set name operand =>
      rw [names_of_value (eq_error_of_map refused)]
      exact List.subset_cons_self _ _

theorem Executed.isName {position : Position} {callers : List Position} {outcome : MachineOutcome}
    (executed : Executed machine position callers outcome)
    (failure : outcome.failure = some error) (named : machine.program.Named) :
    ∀ name ∈ error.names, IsName name := by
  cases executed with
  | absent missing =>
      cases failure
      exact List.forall_mem_nil _
  | undefined found refused =>
      cases failure
      exact fun name member => named _ _ found name (names_of_effect refused member)
  | unprinted found defined refused =>
      cases failure
      obtain ⟨kind, rfl⟩ := failure_write refused
      exact List.forall_mem_nil _
  | overflowed found defined full =>
      cases failure
      exact List.forall_mem_nil _
  | printed found defined written => cases failure
  | assigned found defined => cases failure
  | called found defined free => cases failure

/-- A step that fails shows no other names than those that its program refers to. -/
theorem isName_of_stepInto (failure : machine.stepInto.failure = some error)
    (named : machine.program.Named) : ∀ name ∈ error.names, IsName name := by
  cases entered : machine.start.failure with
  | some other =>
      rw [stepInto_of_start_failure entered] at failure
      cases failure
      exact List.forall_mem_nil _
  | none =>
      rw [stepInto_of_start_success entered] at failure
      rcases finished_or_running (control_start_ne_ready entered) with
        finished | ⟨position, callers, running⟩
      · simp [stepInto_of_finished finished, Outcome.done] at failure
      · rw [← program_start] at named
        exact (executed_stepInto running).isName failure named

theorem oneLine_of_apply {operation : Operation}
    (failure : (operation.apply machine).failure = some error) (named : machine.program.Named) :
    OneLine error.message := by
  obtain ⟨count, journal, last, execution, failed, _⟩ := exists_failing_step failure
  rw [← execution.program_eq] at named
  exact RuntimeError.oneLine_message (isName_of_stepInto failed named)

end Machine

/-! ## All messages -/

namespace CommandLine

/-- A message is one line, and so is what is written to standard error about it. -/
def IsDiagnostic (message : String) : Prop :=
  OneLine message ∧ ∃ line, OneLine line ∧ failureText message = line ++ "\n"

theorem isDiagnostic {message : String} (oneLine : OneLine message) : IsDiagnostic message := by
  have opening : OneLine "error: " := by decide
  exact ⟨oneLine, "error: " ++ message, oneLine_append.mpr ⟨opening, oneLine⟩, rfl⟩

/--
The message of every error that parsing a text finds, that compiling its tree
finds, or that any operation fails with on a machine that has been driven in any
way so far, contains neither a line feed nor a carriage return, whatever
characters the text consists of.  So the complaint about it on standard error is
exactly one line.
-/
theorem diagnostics_are_single_lines (source : String) :
    (∀ error, Tree.parse source = .error error → IsDiagnostic error.message) ∧
    ∀ tree, Tree.parse source = .ok tree →
      (∀ error, Program.ofTree tree = .error error → IsDiagnostic error.message) ∧
      ∀ program, Program.ofTree tree = .ok program →
        ∀ machine, Machine.Reachable program machine →
          ∀ (operation : Operation) error, (operation.apply machine).failure = some error →
            IsDiagnostic error.message := by
  refine ⟨fun error failed => isDiagnostic (Tree.oneLine_of_parse failed), ?_⟩
  intro tree parsed
  obtain ⟨statements, rfl, stated, _⟩ := Tree.exists_parse_iff_isStatement.mp ⟨source, parsed⟩
  refine ⟨fun error failed => isDiagnostic (Program.oneLine_of_ofTree stated failed), ?_⟩
  intro program compiled machine reachable operation error failure
  have named := Program.named_of_ofTree stated compiled
  rw [← reachable.program_eq] at named
  exact isDiagnostic (Machine.oneLine_of_apply failure named)

/-- Carriage returns in front of a line feed that is unexpected, and behind a name. -/
theorem diagnostics_of_carriage_returns :
    (∃ error, Tree.parse "\r\n" = .error error ∧
      error.message = "unexpected token Newline(\\n) on line 1" ∧
      IsDiagnostic error.message) ∧
    ∃ tree program error, Tree.parse "sub main\r\nprint b\r\n" = .ok tree ∧
      Program.ofTree tree = .ok program ∧
      (Operation.run.apply (.ofProgram program {})).failure = some error ∧
      error.message = "unknown variable 'b' on line 2" ∧
      IsDiagnostic error.message := by
  constructor
  · have told : (Tree.parse "\r\n").map (fun _ => ()) =
        .error (.unexpectedToken "Newline(\\n)" 1) := by
      decide +kernel
    cases parsed : Tree.parse "\r\n" with
    | error error =>
        rw [parsed] at told
        obtain rfl := Except.error.inj told
        exact ⟨_, rfl, by decide, (diagnostics_are_single_lines _).1 _ parsed⟩
    | ok tree =>
        rw [parsed] at told
        cases told
  · let program : Program := ⟨#[⟨"main", 1, #[⟨2, .print (.variable "b")⟩]⟩]⟩
    have stages : (Tree.parse "sub main\r\nprint b\r\n").toOption.map Program.ofTree =
        some (.ok program) := by
      decide +kernel
    have failure : (Operation.run.apply (.ofProgram program {})).failure =
        some (.undefinedVariable "b" 2) := by
      decide +kernel
    cases parsed : Tree.parse "sub main\r\nprint b\r\n" with
    | error error =>
        rw [parsed] at stages
        cases stages
    | ok tree =>
        rw [parsed] at stages
        have compiled := Option.some.inj stages
        exact ⟨tree, program, _, rfl, compiled, failure, by decide,
          ((diagnostics_are_single_lines _).2 tree parsed).2 program compiled _ (.fresh {}) .run _
            failure⟩

end CommandLine

end Guu
