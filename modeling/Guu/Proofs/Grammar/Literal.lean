import Guu.Proofs.Grammar.Spelling
import Guu.Proofs.Machine.Refusal
import Guu.Proofs.Text.Numeral
import Guu.Proofs.Token.Rewinding

/-!
# Integer literals

A literal denotes the integer that its digits tell by their places, however many
of them there are, as long as this integer fits in 64 bits together with its sign.
Otherwise it is reported with the digits that it was written with.  What a program
prints is the canonical text of an integer, and this text, used as a literal,
denotes the same integer.
-/

namespace Guu

/-! ## Taking a row of tokens -/

namespace Scanner

open Token

variable {scanner : Scanner} {following : List Char} {tokens : List Token} {after : Reader}

theorem skip_append (scanner : Scanner) (front behind : List Char) :
    scanner.skip (front ++ behind) = (scanner.skip front).skip behind := by
  simp [skip, Cursor.advance_append]

/-- Something can be scanned at a blank and at the end of the input. -/
theorem exists_ofScanner (separates : Separates scanner.rest) :
    ∃ reader, Reader.ofScanner scanner = .ok reader := by
  cases scanned : scanner.next with
  | ok result => exact ⟨⟨result.1, result.2⟩, ofScanner_eq_ok.mpr scanned⟩
  | error error =>
      obtain ⟨first, rest, row, unreadable, _⟩ := unreadable_of_next scanned
      have blank := separates first (by simp [row])
      simp [isReadable, blank] at unreadable

theorem next_of_token {behind : List Char} {token : Token}
    (row : scanner.rest = token.text.toList ++ behind) (wellFormed : token.WellFormed)
    (ends : EndsToken token.kind behind) (line : token.line = scanner.line) :
    scanner.next = .ok (token, scanner.skip token.text.toList) := by
  obtain ⟨first, rest, spelled, _⟩ := head_of_admits wellFormed
  rw [WellFormed, spelled] at wellFormed
  rw [spelled, List.cons_append] at row
  rw [next_of_lexeme? row (lexeme?_of_admits wellFormed ends), ← spelled, String.ofList_toList,
    ← line]

/-- Tokens that stay apart are taken one after the other, up to a text that begins with a blank. -/
theorem exists_consumes_row (row : scanner.rest = texts tokens ++ following)
    (wellFormed : ∀ token ∈ tokens, token.WellFormed)
    (apart : tokens.IsChain fun left right => left.kind.StaysApart right.kind)
    (counted : Counted scanner.line tokens) (separates : Separates following)
    (behind : Reader.ofScanner (scanner.skip (texts tokens)) = .ok after) :
    ∃ reader, Reader.ofScanner scanner = .ok reader ∧ reader.Consumes tokens after := by
  induction tokens generalizing scanner with
  | nil => exact ⟨after, behind, .refl after⟩
  | cons token rest ih =>
      obtain ⟨first, others⟩ := List.forall_mem_cons.mp wellFormed
      obtain ⟨next, chain⟩ := List.isChain_cons.mp apart
      obtain ⟨begins, later⟩ := counted_cons.mp counted
      rw [texts_cons, skip_append] at behind
      rw [texts_cons, List.append_assoc] at row
      have ends : EndsToken token.kind (texts rest ++ following) := by
        cases rest with
        | nil => exact separates.endsToken token.kind
        | cons second rest =>
            rw [texts_cons, List.append_assoc]
            exact (endsToken_iff (others second List.mem_cons_self) _).mpr (next second rfl)
      obtain ⟨between, moved, consumes⟩ := ih (rest_skip row) others chain later behind
      have held : Reader.ofScanner scanner = .ok ⟨token, scanner.skip token.text.toList⟩ :=
        ofScanner_eq_ok.mpr (next_of_token row first ends begins)
      have inside : token.kind ≠ .endOfInput := by
        intro final
        rw [WellFormed, final] at first
        cases first
      exact ⟨_, held, .next inside moved consumes⟩

end Scanner

/-! ## Commands that take a literal -/

namespace Grammar

open Token

inductive Sign where
  | absent
  | plus
  | minus
deriving DecidableEq, Repr

namespace Sign

def text : Sign → List Char
  | absent => []
  | plus => ['+']
  | minus => ['-']

def apply : Sign → Nat → Int
  | minus, magnitude => -magnitude
  | _, magnitude => magnitude

def reported : Sign → String
  | minus => "-"
  | _ => ""

def tokens (line : Nat) : Sign → List Token
  | absent => []
  | plus => [⟨.plus, "+", line⟩]
  | minus => [⟨.minus, "-", line⟩]

end Sign

def spelled (sign : Sign) (digits : List Char) : Parameter :=
  .literal (sign.apply (Text.Decimal.positional digits))

def literalTokens (line : Nat) (sign : Sign) (digits : List Char) : List Token :=
  sign.tokens line ++ [⟨.number, String.ofList digits, line⟩]

/-- A command that takes a literal behind everything else. -/
inductive Taker where
  | print
  | set (name : String)
deriving DecidableEq, Repr

namespace Taker

def Named : Taker → Prop
  | print => True
  | set name => IsName name

def opening : Taker → List Char
  | print => "print ".toList
  | set name => "set ".toList ++ name.toList ++ [' ']

def tree (line : Nat) (value : Operand) : Taker → Tree
  | print => .unary .print (.operand value) line
  | set name => .binary .set (.operand (.variable name)) (.operand value) line

def tokens (line : Nat) : Taker → List Token
  | print => [⟨.print, "print", line⟩, blank line]
  | set name => [⟨.set, "set", line⟩, blank line, ⟨.identifier, name, line⟩, blank line]

def phrase (line : Nat) (value : Parameter) : Taker → Phrase
  | print => .print line value
  | set name => .set line name value

def row (line : Nat) (taker : Taker) (sign : Sign) (digits : List Char) : List Token :=
  taker.tokens line ++ literalTokens line sign digits

theorem tree_phrase (line : Nat) (value : Parameter) (taker : Taker) :
    (taker.phrase line value).tree = taker.tree line value.operand := by
  cases taker <;> rfl

variable {taker : Taker} {digits : List Char}

theorem texts_tokens (line : Nat) (taker : Taker) : texts (taker.tokens line) = taker.opening := by
  cases taker with
  | print =>
      change texts (tokens line .print) = "print ".toList
      simp [tokens, texts, blank]
  | set name =>
      change texts (tokens line (.set name)) = "set ".toList ++ name.toList ++ [' ']
      simp [tokens, texts, blank]

theorem texts_literalTokens (line : Nat) (sign : Sign) (digits : List Char) :
    texts (literalTokens line sign digits) = sign.text ++ digits := by
  cases sign <;> simp [literalTokens, Sign.tokens, Sign.text, texts]

theorem texts_row (line : Nat) (taker : Taker) (sign : Sign) (digits : List Char) :
    texts (taker.row line sign digits) = taker.opening ++ sign.text ++ digits := by
  rw [row, texts, List.flatMap_append, List.append_assoc]
  exact congrArg₂ _ (texts_tokens line taker) (texts_literalTokens line sign digits)

theorem wellFormed_literalTokens (numeral : Text.Decimal.IsNumeral digits) (line : Nat)
    (sign : Sign) : ∀ token ∈ literalTokens line sign digits, token.WellFormed := by
  have number : Kind.number.Admits digits := numeral
  have plus : Kind.plus.Admits ['+'] := rfl
  have minus : Kind.minus.Admits ['-'] := rfl
  cases sign <;> simp [literalTokens, Sign.tokens, WellFormed, number, plus, minus]

theorem wellFormed_row (named : taker.Named) (numeral : Text.Decimal.IsNumeral digits) (line : Nat)
    (sign : Sign) : ∀ token ∈ taker.row line sign digits, token.WellFormed := by
  rw [row, List.forall_mem_append]
  refine ⟨?_, wellFormed_literalTokens numeral line sign⟩
  cases taker with
  | print =>
      have keyword : Token.WellFormed ⟨.print, "print", line⟩ := rfl
      simp [tokens, keyword, wellFormed_blank]
  | set name =>
      have keyword : Token.WellFormed ⟨.set, "set", line⟩ := rfl
      have target : Token.WellFormed ⟨.identifier, name, line⟩ := isName_iff_admits.mp named
      simp [tokens, keyword, wellFormed_blank, target]

theorem staysApart_row (line : Nat) (taker : Taker) (sign : Sign) (digits : List Char) :
    (taker.row line sign digits).IsChain fun left right => left.kind.StaysApart right.kind := by
  cases taker <;> cases sign <;>
    simp [row, tokens, literalTokens, Sign.tokens, blank, Kind.StaysApart, Kind.isWord]

theorem line_row (line : Nat) (taker : Taker) (sign : Sign) (digits : List Char) :
    ∀ token ∈ taker.row line sign digits, token.line = line := by
  cases taker <;> cases sign <;>
    simp [row, tokens, literalTokens, Sign.tokens, blank]

theorem spells_literalTokens (line : Nat) (sign : Sign) (digits : List Char) :
    Spells (literalTokens line sign digits) (spelled sign digits) := by
  have denoted : magnitude ⟨.number, String.ofList digits, line⟩ =
      Text.Decimal.positional digits := by
    rw [magnitude, String.toList_ofList, Text.Decimal.magnitude_eq_positional]
  rw [spelled, ← denoted]
  cases sign with
  | absent => exact .unsigned rfl
  | plus => exact @Spells.positive ⟨.plus, "+", line⟩ _ rfl rfl
  | minus => exact @Spells.negative ⟨.minus, "-", line⟩ _ rfl rfl

theorem command_row (line : Nat) (taker : Taker) (sign : Sign) (digits : List Char) :
    Command (taker.row line sign digits) (taker.phrase line (spelled sign digits)) := by
  have spells := spells_literalTokens line sign digits
  cases taker with
  | print => exact @Command.print ⟨.print, "print", line⟩ (blank line) _ _ rfl rfl spells
  | set name =>
      exact @Command.set ⟨.set, "set", line⟩ (blank line) ⟨.identifier, name, line⟩ (blank line) _ _
        rfl rfl rfl rfl spells

theorem counted_row (named : taker.Named) (numeral : Text.Decimal.IsNumeral digits) (line : Nat)
    (sign : Sign) : Counted line (taker.row line sign digits) :=
  counted_of_line (command_row line taker sign digits).singleLine
    (wellFormed_row named numeral line sign) (line_row line taker sign digits)

end Taker

end Grammar

/-! ## Literals that do not fit -/

namespace Rule

open Grammar

variable {α : Type} {reader between after : Reader} {error : SyntaxError}

theorem firstOf_of_failed {rule : Rule α} {others : List (Rule α)}
    (failed : rule reader = .error error) : firstOf (rule :: others) reader = .error error := by
  simp [firstOf, failed]

theorem demand_of_failed {rule : Rule α} (failed : rule reader = .error error) :
    rule.demand reader = .error error := by
  simp [demand, run, failed, Except.map]

/-- Behind a word and a blank the next rule decides. -/
theorem spaced_andThen_of_consumes {word space : Token} {kind : Token.Kind}
    {next : Token → Rule α} (same : word.kind = kind) (gap : space.kind = .space)
    (consumes : reader.Consumes [word, space] between) :
    ((token kind).andThen fun word => (token .space).andThen fun _ => next word) reader =
      next word between := by
  obtain ⟨_, first, second⟩ := consumes.split_one
  rw [andThen_of_accepted (token_of_consumes same first),
    andThen_of_accepted (token_of_consumes gap second)]

def tooLarge (sign : Sign) (digits : List Char) (line : Nat) : SyntaxError :=
  .literalTooLarge (sign.reported ++ String.ofList digits) line

theorem literal_of_exceeds {negative : Bool} {digits : Token}
    (signed : sign reader = .ok (some (negative, between))) (number : digits.kind = .number)
    (consumes : between.Consumes [digits] after)
    (exceeds : ¬(Parameter.literal (Text.Decimal.signed negative digits.text.toList)).Fits) :
    literal reader =
      .error (.literalTooLarge ((if negative then "-" else "") ++ digits.text) digits.line) := by
  have first : literal reader = ((token .number).andThen (literalOf negative)) between :=
    andThen_of_accepted signed
  have none : Text.Decimal.word? (Text.Decimal.signed negative digits.text.toList) = none :=
    if_neg exceeds
  rw [first, andThen_of_accepted (token_of_consumes number consumes), literalOf, none]
  rfl

theorem operand_of_exceeds {sign : Sign} {digits : List Char} {line : Nat}
    (consumes : reader.Consumes (literalTokens line sign digits) after)
    (exceeds : ¬(spelled sign digits).Fits) :
    operand reader = .error (tooLarge sign digits line) := by
  have magnitude := Text.Decimal.magnitude_eq_positional digits
  have integer (other : reader.current.kind ≠ .identifier)
      (failed : literal reader = .error (tooLarge sign digits line)) :
      operand reader = .error (tooLarge sign digits line) := by
    have rejected : variableName reader = .ok none := andThen_of_other other
    exact (firstOf_of_rejected rejected).trans (firstOf_of_failed failed)
  cases sign with
  | absent =>
      have kind : reader.current.kind = .number := congrArg Token.kind consumes.current_eq
      have unsigned : sign reader = .ok (some (false, reader)) :=
        sign_of_other (by simp [kind]) (by simp [kind])
      refine integer (by simp [kind]) (literal_of_exceeds unsigned rfl consumes ?_)
      rwa [Text.Decimal.signed, String.toList_ofList, magnitude]
  | plus =>
      obtain ⟨_, first, second⟩ := consumes.split_one
      have current := first.current_eq
      have signed := sign_of_plus rfl first
      refine integer (by simp [current]) (literal_of_exceeds signed rfl second ?_)
      rwa [Text.Decimal.signed, String.toList_ofList, magnitude]
  | minus =>
      obtain ⟨_, first, second⟩ := consumes.split_one
      have current := first.current_eq
      have signed := sign_of_minus rfl first
      refine integer (by simp [current]) (literal_of_exceeds signed rfl second ?_)
      rwa [Text.Decimal.signed, String.toList_ofList, magnitude]

theorem command_of_exceeds {taker : Taker} {sign : Sign} {digits : List Char} {line : Nat}
    (consumes : reader.Consumes (taker.row line sign digits) after)
    (exceeds : ¬(spelled sign digits).Fits) :
    command reader = .error (tooLarge sign digits line) := by
  refine demand_of_failed ?_
  cases taker with
  | print =>
      obtain ⟨_, first, second⟩ := consumes.split_two
      refine firstOf_of_failed ((spaced_andThen_of_consumes rfl rfl first).trans ?_)
      exact andThen_of_failed (operand_of_exceeds second exceeds)
  | set name =>
      have current := consumes.current_eq
      have notPrint : print reader = .ok none := andThen_of_other (by simp [current])
      have notCall : call reader = .ok none := andThen_of_other (by simp [current])
      obtain ⟨_, first, rest⟩ := consumes.split_two
      obtain ⟨_, second, third⟩ := rest.split_two
      rw [firstOf_of_rejected notPrint, firstOf_of_rejected notCall]
      refine firstOf_of_failed ((spaced_andThen_of_consumes rfl rfl first).trans ?_)
      refine (spaced_andThen_of_consumes rfl rfl second).trans ?_
      exact andThen_of_failed (operand_of_exceeds third exceeds)

/-- A command that fails at the beginning of a program fails it. -/
theorem program_of_failed (notSpace : reader.current.kind ≠ .space)
    (notBreak : reader.current.kind ≠ .newline) (inside : ¬reader.AtEnd)
    (failed : command reader = .error error) :
    program command command_shortens reader = .error error := by
  have skipped {kind : Token.Kind} (other : reader.current.kind ≠ kind) :
      skip kind reader = .ok (some (0, reader)) := skip_of_rejected (token_of_other other)
  have stated : statement command reader = .error error :=
    (andThen_of_accepted (skipped notSpace)).trans (andThen_of_failed failed)
  have read : line command reader = .error error := andThen_of_failed stated
  refine (andThen_of_accepted (skipped notBreak)).trans ?_
  rw [statements, if_neg inside]
  split <;> simp_all

end Rule

/-! ## Reading a literal -/

/-- A command is read at a scanner as a tree, up to the end of a stretch of text. -/
def Scanner.Accepts (scanner : Scanner) (text : List Char) (tree : Tree) : Prop :=
  ∃ reader after, Reader.ofScanner scanner = .ok reader ∧
    Rule.command reader = .ok (some (tree, after)) ∧
    Reader.ofScanner (scanner.skip text) = .ok after

def Scanner.Refuses (scanner : Scanner) (error : SyntaxError) : Prop :=
  ∃ reader, Reader.ofScanner scanner = .ok reader ∧ Rule.command reader = .error error

namespace Grammar

open Token

variable {taker : Taker} {sign : Sign} {digits following : List Char} {scanner : Scanner}

def commandText (taker : Taker) (sign : Sign) (digits : List Char) : List Char :=
  taker.opening ++ sign.text ++ digits

theorem exists_consumes_command (named : taker.Named) (numeral : Text.Decimal.IsNumeral digits)
    (separates : Scanner.Separates following)
    (row : scanner.rest = commandText taker sign digits ++ following) :
    ∃ reader after, Reader.ofScanner scanner = .ok reader ∧
      reader.Consumes (taker.row scanner.line sign digits) after ∧
      Reader.ofScanner (scanner.skip (commandText taker sign digits)) = .ok after := by
  have behind : (scanner.skip (commandText taker sign digits)).rest = following :=
    Scanner.rest_skip row
  obtain ⟨after, held⟩ := Scanner.exists_ofScanner (behind ▸ separates)
  have texts := Taker.texts_row scanner.line taker sign digits
  obtain ⟨reader, first, consumes⟩ := Scanner.exists_consumes_row (by rw [texts]; exact row)
    (Taker.wellFormed_row named numeral scanner.line sign)
    (Taker.staysApart_row scanner.line taker sign digits)
    (Taker.counted_row named numeral scanner.line sign) separates (by rw [texts]; exact held)
  exact ⟨reader, after, first, consumes, held⟩

theorem fits_phrase (line : Nat) {value : Parameter} (fits : value.Fits) :
    (taker.phrase line value).Fits := by
  cases taker <;> exact fits

theorem accepts_of_fits (named : taker.Named) (numeral : Text.Decimal.IsNumeral digits)
    (separates : Scanner.Separates following) (fits : (spelled sign digits).Fits)
    (row : scanner.rest = commandText taker sign digits ++ following) :
    scanner.Accepts (commandText taker sign digits)
      (taker.tree scanner.line (spelled sign digits).operand) := by
  obtain ⟨reader, after, held, consumes, moved⟩ :=
    exists_consumes_command named numeral separates row
  have denotes : Rule.Denotes Command reader after
      (taker.tree scanner.line (spelled sign digits).operand) :=
    ⟨_, _, consumes, taker.command_row _ sign digits, fits_phrase _ fits,
      (taker.tree_phrase ..).symm⟩
  exact ⟨reader, after, held, Rule.command_iff.mpr denotes, moved⟩

theorem refuses_of_exceeds (named : taker.Named) (numeral : Text.Decimal.IsNumeral digits)
    (separates : Scanner.Separates following) (exceeds : ¬(spelled sign digits).Fits)
    (row : scanner.rest = commandText taker sign digits ++ following) :
    scanner.Refuses (Rule.tooLarge sign digits scanner.line) := by
  obtain ⟨reader, after, held, consumes, _⟩ :=
    exists_consumes_command named numeral separates row
  exact ⟨reader, held, Rule.command_of_exceeds consumes exceeds⟩

/-! ## Programs that begin with a literal -/

theorem rest_ofSource (text : List Char) :
    (Scanner.ofSource (String.ofList text)).rest = text :=
  String.toList_ofList

theorem parse_of_exceeds (named : taker.Named) (numeral : Text.Decimal.IsNumeral digits)
    (separates : Scanner.Separates following) (exceeds : ¬(spelled sign digits).Fits) :
    Tree.parse (String.ofList (commandText taker sign digits ++ following)) =
      .error (Rule.tooLarge sign digits 1) := by
  obtain ⟨reader, after, held, consumes, _⟩ :=
    exists_consumes_command named numeral separates (rest_ofSource _)
  refine Tree.parse_of_failed held ?_
  have failed := Rule.command_of_exceeds consumes exceeds
  cases taker with
  | print =>
      have current := consumes.current_eq
      exact Rule.program_of_failed (by simp [current]) (by simp [current])
        (by simp [Reader.AtEnd, current]) failed
  | set name =>
      have current := consumes.current_eq
      exact Rule.program_of_failed (by simp [current]) (by simp [current])
        (by simp [Reader.AtEnd, current]) failed

/-- A command alone is a program. -/
theorem parse_command (named : taker.Named) (numeral : Text.Decimal.IsNumeral digits)
    (fits : (spelled sign digits).Fits) :
    Tree.parse (String.ofList (commandText taker sign digits)) =
      .ok (.root [taker.tree 1 (spelled sign digits).operand]) := by
  have row : (Scanner.ofSource (String.ofList (commandText taker sign digits))).rest =
      commandText taker sign digits ++ [] := by
    rw [rest_ofSource, List.append_nil]
  have separates : Scanner.Separates [] := by decide
  obtain ⟨reader, after, held, consumes, moved⟩ :=
    exists_consumes_command named numeral separates row
  have final : after.AtEnd := by
    have scanned := Scanner.next_of_nil (Scanner.rest_skip row)
    rw [Scanner.ofScanner_eq_ok.mp moved] at scanned
    exact congrArg (fun result : Token × Scanner => result.1.kind) (Except.ok.inj scanned)
  have stated := Statement.padded (Only.nil .space) (taker.command_row 1 sign digits)
    (Only.nil .space)
  have lines : Lines (taker.row 1 sign digits) [taker.phrase 1 (spelled sign digits)] := by
    simpa using Lines.cons stated (Only.nil .newline) (fun _ => rfl) .nil
  have program : Program (taker.row 1 sign digits) [taker.phrase 1 (spelled sign digits)] :=
    program_iff.mpr ⟨[], _, rfl, Only.nil .newline, lines⟩
  have accepted := Rule.program_iff.mpr ⟨_, _, consumes, final, program, by
    simpa using fits_phrase 1 fits, rfl⟩
  refine Tree.parse_eq_ok.mpr ⟨reader, after, _, held, accepted, ?_⟩
  rw [List.map_singleton, taker.tree_phrase]

/-- Whatever stands behind a command, it is the first statement of a program. -/
theorem head?_of_parse {tree : Tree} (named : taker.Named)
    (numeral : Text.Decimal.IsNumeral digits) (separates : Scanner.Separates following)
    (parsed : Tree.parse (String.ofList (commandText taker sign digits ++ following)) = .ok tree) :
    tree.statements.head? = some (taker.tree 1 (spelled sign digits).operand) := by
  obtain ⟨tokens, line, phrases, scanned, _, program, _, rfl⟩ := Tree.parse_eq_ok_iff.mp parsed
  obtain ⟨reader, after, held, consumes, _⟩ :=
    exists_consumes_command named numeral separates (rest_ofSource _)
  obtain ⟨before, moved, row, _⟩ := Scanner.scan_of_consumes held consumes
  obtain ⟨others, remaining⟩ := Scanner.exists_scan_tokens moved
  have same : tokens = taker.row 1 sign digits ++ (after.current :: others).dropLast := by
    have rows := congrArg List.dropLast (scanned.symm.trans row)
    rwa [List.dropLast_concat, remaining, List.dropLast_append_of_ne_nil (List.cons_ne_nil _ _)]
      at rows
  have first := phrases_of_command (taker.command_row 1 sign digits)
    (after.current :: others).dropLast
  rw [← same, phrases_of_program program] at first
  rw [first]
  exact congrArg some (taker.tree_phrase ..)

/-! ## Reading and printing -/

/-- The canonical text of a word is a literal that denotes it. -/
theorem exists_sign_digits (value : Int64) :
    ∃ sign digits, (Text.Decimal.render value.toInt).toList = Sign.text sign ++ digits ∧
      Text.Decimal.IsNumeral digits ∧ (spelled sign digits).Fits ∧
      (spelled sign digits).operand = .literal value := by
  have denoted := Text.Decimal.positional_digits value.toInt.natAbs
  have fits : (Parameter.literal value.toInt).Fits := ⟨value.minValue_le_toInt, value.toInt_le⟩
  have word : (Parameter.literal value.toInt).operand = .literal value := by
    rw [Parameter.operand, Int64.ofInt_toInt]
  rw [Text.Decimal.render, String.toList_ofList, Text.Decimal.sign]
  by_cases negative : value.toInt < 0
  · have same : spelled .minus (Text.Decimal.digits value.toInt.natAbs) = .literal value.toInt := by
      rw [spelled, Sign.apply, denoted]
      exact congrArg Parameter.literal (by omega)
    rw [if_pos negative]
    exact ⟨.minus, _, rfl, Text.Decimal.isNumeral_digits _, same ▸ fits, same ▸ word⟩
  · have same :
        spelled .absent (Text.Decimal.digits value.toInt.natAbs) = .literal value.toInt := by
      rw [spelled, Sign.apply, denoted]
      · exact congrArg Parameter.literal (by omega)
      · decide
    rw [if_neg negative]
    exact ⟨.absent, _, rfl, Text.Decimal.isNumeral_digits _, same ▸ fits, same ▸ word⟩

/-- A command with an integer of 64 bits is read, with this integer as its operand. -/
theorem reads_of_inRange (named : taker.Named) (numeral : Text.Decimal.IsNumeral digits)
    (separates : Scanner.Separates following)
    (lower : -9223372036854775808 ≤ sign.apply (Text.Decimal.positional digits))
    (upper : sign.apply (Text.Decimal.positional digits) ≤ 9223372036854775807) :
    ∃ value : Int64, value.toInt = sign.apply (Text.Decimal.positional digits) ∧
      (∀ scanner : Scanner, scanner.rest = commandText taker sign digits ++ following →
        scanner.Accepts (commandText taker sign digits)
          (taker.tree scanner.line (.literal value))) ∧
      Tree.parse (String.ofList (commandText taker sign digits)) =
        .ok (.root [taker.tree 1 (.literal value)]) ∧
      ∀ tree, Tree.parse (String.ofList (commandText taker sign digits ++ following)) = .ok tree →
        tree.statements.head? = some (taker.tree 1 (.literal value)) := by
  have fits : (spelled sign digits).Fits := ⟨lower, upper⟩
  exact ⟨Int64.ofInt _, Int64.toInt_ofInt_of_le lower (Int.lt_add_one_of_le upper),
    fun _ row => accepts_of_fits named numeral separates fits row,
    parse_command named numeral fits, fun _ parsed => head?_of_parse named numeral separates parsed⟩

/-- The canonical text of a word is read as this word. -/
theorem reads_render (value : Int64) (named : taker.Named)
    (separates : Scanner.Separates following) :
    let text := taker.opening ++ (Text.Decimal.render value.toInt).toList
    (∀ scanner : Scanner, scanner.rest = text ++ following →
      scanner.Accepts text (taker.tree scanner.line (.literal value))) ∧
    Tree.parse (String.ofList text) = .ok (.root [taker.tree 1 (.literal value)]) := by
  intro text
  obtain ⟨sign, digits, written, numeral, fits, operand⟩ := exists_sign_digits value
  have same : text = commandText taker sign digits := by
    rw [commandText, List.append_assoc, ← written]
  rw [same, ← operand]
  exact ⟨fun _ row => accepts_of_fits named numeral separates fits row,
    parse_command named numeral fits⟩

/-- A literal of any length, behind any sign and in front of any text that begins with a blank,
is read as its exact value if this is an integer of 64 bits, and reported otherwise.  Printing
writes the only canonical text of a word, and this text is read as the same word. -/
theorem integers_are_read_and_printed_exactly :
    (∀ (taker : Taker) (sign : Sign) (digits following : List Char), taker.Named →
      Text.Decimal.IsNumeral digits → Scanner.Separates following →
      let text := commandText taker sign digits
      let denoted := sign.apply (Text.Decimal.positional digits)
      let tooLarge := SyntaxError.literalTooLarge (sign.reported ++ String.ofList digits)
      (-9223372036854775808 ≤ denoted ∧ denoted ≤ 9223372036854775807 →
        ∃ value : Int64, value.toInt = denoted ∧
          (∀ scanner : Scanner, scanner.rest = text ++ following →
            scanner.Accepts text (taker.tree scanner.line (.literal value))) ∧
          Tree.parse (String.ofList text) = .ok (.root [taker.tree 1 (.literal value)]) ∧
          ∀ tree, Tree.parse (String.ofList (text ++ following)) = .ok tree →
            tree.statements.head? = some (taker.tree 1 (.literal value))) ∧
      (¬(-9223372036854775808 ≤ denoted ∧ denoted ≤ 9223372036854775807) →
        (∀ scanner : Scanner, scanner.rest = text ++ following →
          scanner.Refuses (tooLarge scanner.line)) ∧
        Tree.parse (String.ofList (text ++ following)) = .error (tooLarge 1))) ∧
    ∀ value : Int64, ∃ text, Text.Decimal.IsCanonical value.toInt text ∧
      (∀ other, Text.Decimal.IsCanonical value.toInt other → other = text) ∧
      (∀ (machine : Machine) (position : Position) (callers : List Position)
        (statement : Guu.Statement), machine.control = .running position callers →
        machine.program.statement? position = some statement →
        machine.effect statement = .ok (.print value) →
        (machine.stepInto.failure = none →
          machine.stepInto.journal.bytesTo .output = Text.Utf8.encode (text ++ ['\n'])) ∧
        (machine.output.room = none → machine.stepInto.failure = none)) ∧
      ∀ (taker : Taker) (following : List Char), taker.Named → Scanner.Separates following →
        (∀ scanner : Scanner, scanner.rest = taker.opening ++ text ++ following →
          scanner.Accepts (taker.opening ++ text) (taker.tree scanner.line (.literal value))) ∧
        Tree.parse (String.ofList (taker.opening ++ text)) =
          .ok (.root [taker.tree 1 (.literal value)]) := by
  refine ⟨fun taker sign digits following named numeral separates => ⟨?_, ?_⟩, fun value => ?_⟩
  · rintro ⟨lower, upper⟩
    exact reads_of_inRange named numeral separates lower upper
  · intro exceeds
    exact ⟨fun _ row => refuses_of_exceeds named numeral separates exceeds row,
      parse_of_exceeds named numeral separates exceeds⟩
  · refine ⟨_, Text.Decimal.isCanonical_iff.mpr rfl, fun _ => Text.Decimal.isCanonical_iff.mp,
      ?_, fun _ _ named separates => reads_render value named separates⟩
    intro machine position callers statement running found defined
    refine ⟨fun success => ?_, fun unlimited => ?_⟩
    · rw [Machine.bytesTo_of_print running found defined success, Text.Utf8.bytes,
        String.toList_append]
      rfl
    · obtain ⟨_, step, _⟩ := Machine.stepInto_of_print unlimited running found defined
      rw [step]

/-- The least word behind leading zeros, its magnitude alone, and how the least word is printed. -/
theorem integers_at_the_lower_end :
    Tree.parse "set x -0009223372036854775808" =
      .ok (.root [.binary .set (.operand (.variable "x")) (.operand (.literal Int64.minValue)) 1]) ∧
    Tree.parse "print +9223372036854775808\r\nfoo" =
      .error (.literalTooLarge "9223372036854775808" 1) ∧
    (Machine.stepInto ⟨⟨#[⟨"main", 1, #[⟨2, .print (.literal Int64.minValue)⟩]⟩]⟩,
        .running ⟨0, 0⟩ [], Store.empty, {}⟩).journal.bytesTo .output =
      Text.Utf8.encode "-9223372036854775808\n".toList ∧
    Tree.parse "print -9223372036854775808" =
      .ok (.root [.unary .print (.operand (.literal Int64.minValue)) 1]) := by
  obtain ⟨reading, printing⟩ := integers_are_read_and_printed_exactly
  have named : Taker.Named (.set "x") := ⟨⟨'x', [], rfl, by decide, nofun⟩, by decide⟩
  obtain ⟨value, denoted, _, least, _⟩ :=
    (reading (.set "x") .minus "0009223372036854775808".toList [] named
      (by decide) (by decide)).1 (by decide)
  have same : value = Int64.minValue := Int64.toInt_inj.mp (denoted.trans (by decide))
  have refused := (reading .print .plus "9223372036854775808".toList "\r\nfoo".toList trivial
    (by decide) (by decide)).2 (by decide)
  obtain ⟨text, canonical, only, printed, readBack⟩ := printing Int64.minValue
  have spelled : "-9223372036854775808".toList = text :=
    only _ ⟨"9223372036854775808".toList, by decide, by decide, by decide, by decide⟩
  have step := printed ⟨⟨#[⟨"main", 1, #[⟨2, .print (.literal Int64.minValue)⟩]⟩]⟩,
    .running ⟨0, 0⟩ [], Store.empty, {}⟩ ⟨0, 0⟩ [] _ rfl rfl rfl
  subst same spelled
  exact ⟨least, refused.2, step.1 (step.2 rfl), (readBack .print [] trivial (by decide)).2⟩

end Grammar

end Guu
