import Guu.Proofs.Grammar.Consumption
import Guu.Proofs.Grammar.Phrase
import Guu.Tree.Parser

/-!
# The parser recognizes the grammar

A rule accepts exactly the rows of tokens that the grammar derives, with the
tree of the derived phrase, as long as every literal fits.  A rule that takes as
many blanks or line breaks as it can also needs to know what stands behind them.
-/

namespace Guu.Rule

variable {reader between after : Reader}

/-! ## Parameters -/

theorem literalOf_iff {negative : Bool} {digits : Token} {value : Operand} :
    literalOf negative digits reader = .ok (some (value, after)) ↔
      after = reader ∧
        (Grammar.Parameter.literal (Text.Decimal.signed negative digits.text.toList)).Fits ∧
        value = (Grammar.Parameter.literal
          (Text.Decimal.signed negative digits.text.toList)).operand := by
  generalize denoted : Text.Decimal.signed negative digits.text.toList = integer
  rw [literalOf, denoted]
  by_cases fits : (Grammar.Parameter.literal integer).Fits
  · have spelled : Text.Decimal.word? integer = some (Int64.ofInt integer) := if_pos fits
    rw [spelled]
    constructor
    · intro accepted
      cases accepted
      exact ⟨rfl, fits, rfl⟩
    · rintro ⟨rfl, _, rfl⟩
      rfl
  · have refused : Text.Decimal.word? integer = none := if_neg fits
    rw [refused]
    constructor
    · intro accepted
      cases accepted
    · rintro ⟨_, bounded, _⟩
      exact absurd bounded fits

theorem sign_cases {negative : Bool} (accepted : sign reader = .ok (some (negative, after))) :
    (∃ plus, plus.kind = .plus ∧ reader.Consumes [plus] after ∧ negative = false) ∨
    (∃ minus, minus.kind = .minus ∧ reader.Consumes [minus] after ∧ negative = true) ∨
    (after = reader ∧ negative = false) := by
  rcases firstOf_cases accepted with positive | ⟨_, others⟩
  · obtain ⟨plus, _, kind, consumes, rest⟩ := token_andThen_iff.mp positive
    cases rest
    exact .inl ⟨plus, kind, consumes, rfl⟩
  · rcases firstOf_cases others with negated | ⟨_, others⟩
    · obtain ⟨minus, _, kind, consumes, rest⟩ := token_andThen_iff.mp negated
      cases rest
      exact .inr (.inl ⟨minus, kind, consumes, rfl⟩)
    · cases others
      exact .inr (.inr ⟨rfl, rfl⟩)

theorem sign_of_plus {plus : Token} (kind : plus.kind = .plus)
    (consumes : reader.Consumes [plus] after) : sign reader = .ok (some (false, after)) := by
  refine firstOf_of_accepted ?_
  exact token_andThen_iff.mpr ⟨_, _, kind, consumes, rfl⟩

theorem sign_of_minus {minus : Token} (kind : minus.kind = .minus)
    (consumes : reader.Consumes [minus] after) : sign reader = .ok (some (true, after)) := by
  have current := consumes.current_eq
  rw [sign, firstOf_of_rejected (andThen_of_other (by simp [current, kind]))]
  refine firstOf_of_accepted ?_
  exact token_andThen_iff.mpr ⟨_, _, kind, consumes, rfl⟩

theorem sign_of_other (notPlus : reader.current.kind ≠ .plus)
    (notMinus : reader.current.kind ≠ .minus) : sign reader = .ok (some (false, reader)) := by
  rw [sign, firstOf_of_rejected (andThen_of_other notPlus),
    firstOf_of_rejected (andThen_of_other notMinus)]
  rfl

theorem spells_of_literal {value : Operand}
    (accepted : literal reader = .ok (some (value, after))) :
    ∃ tokens parameter, reader.Consumes tokens after ∧ Grammar.Spells tokens parameter ∧
      parameter.Fits ∧ value = parameter.operand := by
  obtain ⟨negative, between, signed, rest⟩ := andThen_eq_accepted accepted
  obtain ⟨digits, last, number, consumes, rest⟩ := token_andThen_iff.mp rest
  obtain ⟨rfl, fits, rfl⟩ := literalOf_iff.mp rest
  rcases sign_cases signed with ⟨plus, kind, before, rfl⟩ | ⟨minus, kind, before, rfl⟩ | ⟨rfl, rfl⟩
  · exact ⟨_, _, before.append consumes, .positive kind number, fits, rfl⟩
  · exact ⟨_, _, before.append consumes, .negative kind number, fits, rfl⟩
  · exact ⟨_, _, consumes, .unsigned number, fits, rfl⟩

theorem literal_of_sign {negative : Bool} {digits : Token}
    (signed : sign reader = .ok (some (negative, between))) (number : digits.kind = .number)
    (consumes : between.Consumes [digits] after)
    (fits : (Grammar.Parameter.literal
      (Text.Decimal.signed negative digits.text.toList)).Fits) :
    literal reader = .ok (some ((Grammar.Parameter.literal
      (Text.Decimal.signed negative digits.text.toList)).operand, after)) := by
  have first : literal reader =
      ((token .number).andThen (literalOf negative)) between := andThen_of_accepted signed
  rw [first]
  exact token_andThen_iff.mpr ⟨_, _, number, consumes, literalOf_iff.mpr ⟨rfl, fits, rfl⟩⟩

/-- An operand is accepted where the tokens spell a parameter that fits. -/
theorem operand_iff {value : Operand} :
    operand reader = .ok (some (value, after)) ↔
      ∃ tokens parameter, reader.Consumes tokens after ∧ Grammar.Spells tokens parameter ∧
        parameter.Fits ∧ value = parameter.operand := by
  constructor
  · intro accepted
    rcases firstOf_cases accepted with named | ⟨_, others⟩
    · obtain ⟨word, _, identifier, consumes, rest⟩ := token_andThen_iff.mp named
      cases rest
      exact ⟨_, _, consumes, .name identifier, trivial, rfl⟩
    · rcases firstOf_cases others with integer | ⟨_, others⟩
      · exact spells_of_literal integer
      · cases others
  · rintro ⟨tokens, parameter, consumes, spells, fits, rfl⟩
    have current {first : Token} {rest : List Token} (row : tokens = first :: rest) :
        reader.current = first := (row ▸ consumes).current_eq
    have integer (inner : literal reader = .ok (some (parameter.operand, after)))
        (other : reader.current.kind ≠ .identifier) :
        operand reader = .ok (some (parameter.operand, after)) := by
      have rejected : variableName reader = .ok none := andThen_of_other other
      exact (firstOf_of_rejected rejected).trans (firstOf_of_accepted inner)
    cases spells with
    | name identifier =>
        refine firstOf_of_accepted ?_
        exact token_andThen_iff.mpr ⟨_, _, identifier, consumes, rfl⟩
    | unsigned number =>
        have kind : reader.current.kind = .number := by rw [current rfl, number]
        refine integer ?_ (by simp [kind])
        have unsigned : sign reader = .ok (some (false, reader)) :=
          sign_of_other (by simp [kind]) (by simp [kind])
        exact literal_of_sign unsigned number consumes fits
    | positive plus number =>
        obtain ⟨between, first, second⟩ := consumes.split_one
        refine integer ?_ (by simp [current rfl, plus])
        exact literal_of_sign (sign_of_plus plus first) number second fits
    | negative minus number =>
        obtain ⟨between, first, second⟩ := consumes.split_one
        refine integer ?_ (by simp [current rfl, minus])
        exact literal_of_sign (sign_of_minus minus first) number second fits

/-! ## Commands -/

/-- The tokens between two readers form a phrase that fits, and this is its tree. -/
def Denotes (Forms : List Token → Grammar.Phrase → Prop) (reader after : Reader)
    (tree : Tree) : Prop :=
  ∃ tokens phrase, reader.Consumes tokens after ∧ Forms tokens phrase ∧ phrase.Fits ∧
    tree = phrase.tree

theorem denotes_of_print {tree : Tree} (accepted : print reader = .ok (some (tree, after))) :
    Denotes Grammar.Command reader after tree := by
  obtain ⟨keyword, space, _, word, gap, first, rest⟩ := spaced_andThen_iff.mp accepted
  obtain ⟨value, _, operands, rest⟩ := andThen_eq_accepted rest
  obtain ⟨tokens, parameter, second, spells, fits, rfl⟩ := operand_iff.mp operands
  cases rest
  exact ⟨_, _, first.append second, .print word gap spells, fits, rfl⟩

theorem denotes_of_call {tree : Tree} (accepted : call reader = .ok (some (tree, after))) :
    Denotes Grammar.Command reader after tree := by
  obtain ⟨keyword, space, _, word, gap, first, rest⟩ := spaced_andThen_iff.mp accepted
  obtain ⟨name, _, named, second, rest⟩ := token_andThen_iff.mp rest
  cases rest
  exact ⟨_, _, first.append second, .call word gap named, trivial, rfl⟩

theorem denotes_of_set {tree : Tree} (accepted : set reader = .ok (some (tree, after))) :
    Denotes Grammar.Command reader after tree := by
  obtain ⟨keyword, space, _, word, gap, first, rest⟩ := spaced_andThen_iff.mp accepted
  obtain ⟨name, other, _, named, secondGap, second, rest⟩ := spaced_andThen_iff.mp rest
  obtain ⟨value, _, operands, rest⟩ := andThen_eq_accepted rest
  obtain ⟨tokens, parameter, third, spells, fits, rfl⟩ := operand_iff.mp operands
  cases rest
  exact ⟨_, _, first.append (second.append third), .set word gap named secondGap spells, fits,
    rfl⟩

theorem denotes_of_sub {tree : Tree} (accepted : sub reader = .ok (some (tree, after))) :
    Denotes Grammar.Command reader after tree := by
  obtain ⟨keyword, space, _, word, gap, first, rest⟩ := spaced_andThen_iff.mp accepted
  obtain ⟨name, _, named, second, rest⟩ := token_andThen_iff.mp rest
  cases rest
  exact ⟨_, _, first.append second, .sub word gap named, trivial, rfl⟩

/-- The keyword of a command alone decides which rule does not reject it. -/
theorem firstOf_of_command {tokens : List Token} {phrase : Grammar.Phrase}
    (consumes : reader.Consumes tokens after) (commands : Grammar.Command tokens phrase)
    (fits : phrase.Fits) :
    firstOf [print, call, set, sub] reader = .ok (some (phrase.tree, after)) := by
  have notPrint : reader.current.kind ≠ .print → print reader = .ok none := andThen_of_other
  have notCall : reader.current.kind ≠ .call → call reader = .ok none := andThen_of_other
  have notSet : reader.current.kind ≠ .set → set reader = .ok none := andThen_of_other
  cases commands with
  | print word gap spells =>
      obtain ⟨_, first, second⟩ := consumes.split_two
      have operands := operand_iff.mpr ⟨_, _, second, spells, fits, rfl⟩
      refine firstOf_of_accepted ?_
      refine spaced_andThen_iff.mpr ⟨_, _, _, word, gap, first, ?_⟩
      exact andThen_iff.mpr ⟨_, _, operands, rfl⟩
  | call word gap named =>
      have current := consumes.current_eq
      rw [firstOf_of_rejected (notPrint (by simp [current, word]))]
      obtain ⟨_, first, second⟩ := consumes.split_two
      refine firstOf_of_accepted ?_
      refine spaced_andThen_iff.mpr ⟨_, _, _, word, gap, first, ?_⟩
      exact token_andThen_iff.mpr ⟨_, _, named, second, rfl⟩
  | set word gap named secondGap spells =>
      have current := consumes.current_eq
      rw [firstOf_of_rejected (notPrint (by simp [current, word])),
        firstOf_of_rejected (notCall (by simp [current, word]))]
      obtain ⟨_, first, rest⟩ := consumes.split_two
      obtain ⟨_, second, third⟩ := rest.split_two
      have operands := operand_iff.mpr ⟨_, _, third, spells, fits, rfl⟩
      refine firstOf_of_accepted ?_
      refine spaced_andThen_iff.mpr ⟨_, _, _, word, gap, first, ?_⟩
      refine spaced_andThen_iff.mpr ⟨_, _, _, named, secondGap, second, ?_⟩
      exact andThen_iff.mpr ⟨_, _, operands, rfl⟩
  | sub word gap named =>
      have current := consumes.current_eq
      rw [firstOf_of_rejected (notPrint (by simp [current, word])),
        firstOf_of_rejected (notCall (by simp [current, word])),
        firstOf_of_rejected (notSet (by simp [current, word]))]
      obtain ⟨_, first, second⟩ := consumes.split_two
      refine firstOf_of_accepted ?_
      refine spaced_andThen_iff.mpr ⟨_, _, _, word, gap, first, ?_⟩
      exact token_andThen_iff.mpr ⟨_, _, named, second, rfl⟩

/-- A command is accepted where the tokens form one and its literals fit. -/
theorem command_iff {tree : Tree} :
    command reader = .ok (some (tree, after)) ↔ Denotes Grammar.Command reader after tree := by
  constructor
  · intro accepted
    rcases firstOf_cases (accepted_of_demand accepted) with printed | ⟨_, others⟩
    · exact denotes_of_print printed
    rcases firstOf_cases others with called | ⟨_, others⟩
    · exact denotes_of_call called
    rcases firstOf_cases others with assigned | ⟨_, others⟩
    · exact denotes_of_set assigned
    rcases firstOf_cases others with declared | ⟨_, others⟩
    · exact denotes_of_sub declared
    · cases others
  · rintro ⟨tokens, phrase, consumes, commands, fits, rfl⟩
    exact demand_of_accepted (firstOf_of_command consumes commands fits)

/-! ## Statements -/

/-- Skipping tokens ends at another one, or at one that nothing can be scanned behind. -/
theorem skip_cases {kind : Token.Kind} (inner : kind ≠ .endOfInput) (reader : Reader) :
    (∃ tokens after, reader.Consumes tokens after ∧ Grammar.Only kind tokens ∧
      after.current.kind ≠ kind ∧ skip kind reader = .ok (some (tokens.length, after))) ∨
    ∃ tokens between error, reader.Consumes tokens between ∧ Grammar.Only kind tokens ∧
      between.current.kind = kind ∧ Reader.ofScanner between.scanner = .error error ∧
      skip kind reader = .error error := by
  fun_induction skip kind reader with
  | case1 reader error refused =>
      obtain ⟨same, refused⟩ := error_of_token refused
      exact .inr ⟨[], reader, error, .refl reader, Grammar.Only.nil kind, same, refused, rfl⟩
  | case2 reader rejected =>
      exact .inl ⟨[], reader, .refl reader, Grammar.Only.nil kind, kind_ne_of_token inner rejected,
        rfl⟩
  | case3 reader taken between found ih =>
      obtain ⟨same, first⟩ := consumes_of_token found
      have one : Grammar.Only kind [taken] := by simpa [Grammar.Only] using same
      rcases ih with ⟨tokens, after, rest, only, stops, skipped⟩ |
        ⟨tokens, last, error, rest, only, kept, refused, skipped⟩
      · refine .inl ⟨[taken] ++ tokens, after, first.append rest, one.append only, stops, ?_⟩
        rw [skipped]
        rfl
      · refine .inr ⟨[taken] ++ tokens, last, error, first.append rest, one.append only, kept,
          refused, ?_⟩
        rw [skipped]
        rfl

theorem consumes_of_skip {kind : Token.Kind} (inner : kind ≠ .endOfInput) {count : Nat}
    (accepted : skip kind reader = .ok (some (count, after))) :
    ∃ tokens, reader.Consumes tokens after ∧ Grammar.Only kind tokens ∧
      tokens.length = count ∧ after.current.kind ≠ kind := by
  rcases skip_cases inner reader with
    ⟨tokens, last, consumes, only, stops, skipped⟩ | ⟨_, _, _, _, _, _, _, failed⟩
  · rw [skipped] at accepted
    cases accepted
    exact ⟨tokens, consumes, only, rfl, stops⟩
  · exact nomatch failed.symm.trans accepted

theorem skip_of_rejected {kind : Token.Kind} (rejected : token kind reader = .ok none) :
    skip kind reader = .ok (some (0, reader)) := by
  rw [skip]
  split <;> simp_all

theorem skip_of_accepted {kind : Token.Kind} {taken : Token}
    (accepted : token kind reader = .ok (some (taken, between))) :
    skip kind reader = adjust (· + 1) (skip kind between) := by
  rw [skip]
  split <;> simp_all

theorem skip_of_consumes {kind : Token.Kind} {tokens : List Token}
    (consumes : reader.Consumes tokens after) (only : Grammar.Only kind tokens)
    (stops : after.current.kind ≠ kind) :
    skip kind reader = .ok (some (tokens.length, after)) := by
  induction consumes with
  | refl reader => exact skip_of_rejected (token_of_other stops)
  | next inside moved rest ih =>
      have same := only _ List.mem_cons_self
      have taken := token_of_consumes same (.single inside moved)
      have others := ih (fun token member => only token (List.mem_cons_of_mem _ member)) stops
      rw [skip_of_accepted taken, others]
      rfl

/-- A statement is accepted with all the blanks around it. -/
theorem statement_iff {tree : Tree} :
    statement command reader = .ok (some (tree, after)) ↔
      Denotes Grammar.Statement reader after tree ∧ after.current.kind ≠ .space := by
  constructor
  · intro accepted
    obtain ⟨_, _, skipped, rest⟩ := andThen_eq_accepted accepted
    obtain ⟨_, _, commanded, rest⟩ := andThen_eq_accepted rest
    obtain ⟨_, _, skippedBehind, rest⟩ := andThen_eq_accepted rest
    cases rest
    obtain ⟨before, first, indented, _, _⟩ := consumes_of_skip (by decide) skipped
    obtain ⟨tokens, phrase, second, commands, fits, rfl⟩ := command_iff.mp commanded
    obtain ⟨behind, third, trailing, _, stops⟩ := consumes_of_skip (by decide) skippedBehind
    exact ⟨⟨_, phrase, (first.append second).append third, .padded indented commands trailing,
      fits, rfl⟩, stops⟩
  · rintro ⟨⟨_, phrase, consumes, stated, fits, rfl⟩, stops⟩
    cases stated with
    | padded indented commands trailing =>
        obtain ⟨_, front, third⟩ := consumes.split
        obtain ⟨_, first, second⟩ := front.split
        obtain ⟨keyword, _, rfl, other, _⟩ := commands.exists_head
        have current := second.current_eq
        refine andThen_iff.mpr ⟨_, _, skip_of_consumes first indented (current ▸ other), ?_⟩
        refine andThen_iff.mpr ⟨_, _, command_iff.mpr ⟨_, _, second, commands, fits, rfl⟩, ?_⟩
        exact andThen_iff.mpr ⟨_, _, skip_of_consumes third trailing stops, rfl⟩

/-! ## Lines -/

theorem lineEnd_iff {breaks : Nat} {value : Unit} :
    lineEnd breaks reader = .ok (some (value, after)) ↔
      after = reader ∧ (breaks = 0 → reader.AtEnd) := by
  unfold lineEnd
  by_cases none : breaks = 0
  · rw [if_pos none]
    by_cases final : reader.AtEnd
    · simp [endOfInput, final, eq_comm]
    · simp [endOfInput, final, none]
  · rw [if_neg none]
    simp [accept, none, eq_comm]

/-- A line is a statement with line breaks behind it, or at the end of the input. -/
theorem line_iff {tree : Tree} :
    line command reader = .ok (some (tree, after)) ↔
      ∃ between breaks, Denotes Grammar.Statement reader between tree ∧
        between.Consumes breaks after ∧ Grammar.Only .newline breaks ∧
        (breaks = [] → after.AtEnd) ∧ between.current.kind ≠ .space ∧
        after.current.kind ≠ .newline := by
  constructor
  · intro accepted
    obtain ⟨_, between, stated, rest⟩ := andThen_eq_accepted accepted
    obtain ⟨count, _, skipped, rest⟩ := andThen_eq_accepted rest
    obtain ⟨_, _, ended, rest⟩ := andThen_eq_accepted rest
    cases rest
    obtain ⟨denotes, stopsBefore⟩ := statement_iff.mp stated
    obtain ⟨breaks, consumes, broken, rfl, stops⟩ := consumes_of_skip (by decide) skipped
    obtain ⟨rfl, final⟩ := lineEnd_iff.mp ended
    refine ⟨between, breaks, denotes, consumes, broken, ?_, stopsBefore, stops⟩
    rintro rfl
    exact final rfl
  · rintro ⟨between, breaks, denotes, consumes, broken, final, stopsBefore, stops⟩
    have ended : lineEnd breaks.length after = .ok (some ((), after)) :=
      lineEnd_iff.mpr ⟨rfl, fun none => final (List.length_eq_zero_iff.mp none)⟩
    refine andThen_iff.mpr ⟨_, _, statement_iff.mpr ⟨denotes, stopsBefore⟩, ?_⟩
    refine andThen_iff.mpr ⟨_, _, skip_of_consumes consumes broken stops, ?_⟩
    exact andThen_iff.mpr ⟨_, _, ended, rfl⟩

/-! ## Programs -/

def DenotesAll (Forms : List Token → List Grammar.Phrase → Prop) (reader last : Reader)
    (trees : List Tree) : Prop :=
  ∃ tokens phrases, reader.Consumes tokens last ∧ last.AtEnd ∧ Forms tokens phrases ∧
    (∀ phrase ∈ phrases, phrase.Fits) ∧ trees = phrases.map Grammar.Phrase.tree

theorem denotesAll_of_statements {trees : List Tree}
    (accepted : statements command command_shortens reader = .ok (some (trees, after))) :
    DenotesAll Grammar.Lines reader after trees := by
  fun_induction statements command command_shortens reader generalizing trees with
  | case1 reader final =>
      cases accepted
      exact ⟨[], [], .refl _, final, .nil, by simp, rfl⟩
  | case2 reader inside error refused => cases accepted
  | case3 reader inside rejected => cases accepted
  | case4 reader inside tree next read ih =>
      obtain ⟨others, remaining, rfl⟩ := eq_accepted_of_adjust accepted
      obtain ⟨rest, phrases, third, final, lines, fit, rfl⟩ := ih remaining
      obtain ⟨between, breaks, ⟨tokens, phrase, first, stated, fits, rfl⟩, second, broken,
        ended, _, _⟩ := line_iff.mp read
      have separated : breaks = [] → rest = [] := fun none => third.eq_nil_of_atEnd (ended none)
      refine ⟨_, _, (first.append second).append third, final,
        .cons stated broken separated lines, ?_, rfl⟩
      intro other member
      rcases List.mem_cons.mp member with rfl | later
      · exact fits
      · exact fit other later

theorem statements_of_line {tree : Tree} (inside : ¬reader.AtEnd)
    (read : line command reader = .ok (some (tree, after))) :
    statements command command_shortens reader =
      adjust (tree :: ·) (statements command command_shortens after) := by
  rw [statements, if_neg inside]
  split <;> simp_all

theorem kind_ne_newline_of_lines {tokens : List Token} {phrases : List Grammar.Phrase}
    (lines : Grammar.Lines tokens phrases) (consumes : reader.Consumes tokens after)
    (final : after.AtEnd) : reader.current.kind ≠ .newline := by
  cases lines with
  | nil =>
      rw [← consumes.eq_of_nil]
      intro newline
      have both := newline.symm.trans final
      cases both
  | cons stated broken separated others =>
      obtain ⟨first, rest, rfl, other⟩ := stated.exists_head
      have current := consumes.current_eq
      rw [current]
      exact other

theorem statements_of_lines {tokens : List Token} {phrases : List Grammar.Phrase}
    (lines : Grammar.Lines tokens phrases) (consumes : reader.Consumes tokens after)
    (final : after.AtEnd) (fit : ∀ phrase ∈ phrases, phrase.Fits) :
    statements command command_shortens reader =
      .ok (some (phrases.map Grammar.Phrase.tree, after)) := by
  induction lines generalizing reader with
  | nil =>
      have same := consumes.eq_of_nil
      subst same
      rw [statements, if_pos final]
      rfl
  | @cons tokens breaks rest phrase phrases stated broken separated others ih =>
      obtain ⟨next, front, third⟩ := consumes.split
      obtain ⟨between, first, second⟩ := front.split
      have inside : ¬reader.AtEnd := by
        intro ended
        obtain ⟨keyword, behind, rfl, _⟩ := stated.exists_head
        exact nomatch first.eq_nil_of_atEnd ended
      have stopsBefore : between.current.kind ≠ .space := by
        cases breaks with
        | nil =>
            obtain rfl := separated rfl
            have ended := (second.eq_of_nil ▸ third.eq_of_nil ▸ final : between.AtEnd)
            intro space
            exact nomatch space.symm.trans ended
        | cons newline others =>
            have kind := broken newline List.mem_cons_self
            rw [second.current_eq, kind]
            decide
      have read : line command reader = .ok (some (phrase.tree, next)) := by
        refine line_iff.mpr ⟨between, breaks, ?_, second, broken, ?_, stopsBefore,
          kind_ne_newline_of_lines others third final⟩
        · exact ⟨tokens, phrase, first, stated, fit phrase List.mem_cons_self, rfl⟩
        · intro none
          obtain rfl := separated none
          exact third.eq_of_nil ▸ final
      have remaining := ih third fun other member => fit other (List.mem_cons_of_mem _ member)
      rw [statements_of_line inside read, remaining]
      rfl

/-- A program is accepted where all tokens form one and its literals fit. -/
theorem program_iff {trees : List Tree} :
    program command command_shortens reader = .ok (some (trees, after)) ↔
      DenotesAll Grammar.Program reader after trees := by
  constructor
  · intro accepted
    obtain ⟨_, between, skipped, rest⟩ := andThen_eq_accepted accepted
    obtain ⟨before, first, leading, _, _⟩ := consumes_of_skip (by decide) skipped
    obtain ⟨tokens, phrases, second, final, lines, fit, rfl⟩ := denotesAll_of_statements rest
    exact ⟨before ++ tokens, phrases, first.append second, final,
      Grammar.program_iff.mpr ⟨before, tokens, rfl, leading, lines⟩, fit, rfl⟩
  · rintro ⟨_, phrases, consumes, final, derived, fit, rfl⟩
    obtain ⟨before, rest, rfl, leading, lines⟩ := Grammar.program_iff.mp derived
    obtain ⟨between, first, second⟩ := consumes.split
    have stops := kind_ne_newline_of_lines lines second final
    refine andThen_iff.mpr ⟨_, _, skip_of_consumes first leading stops, ?_⟩
    exact statements_of_lines lines second final fit

end Guu.Rule

namespace Guu.Tree

theorem parse_eq_ok {source : String} {tree : Tree} :
    parse source = .ok tree ↔ ∃ reader last trees, Reader.ofSource source = .ok reader ∧
      Rule.program Rule.command Rule.command_shortens reader = .ok (some (trees, last)) ∧
      tree = .root trees := by
  unfold parse Parsed.ofSource Parsed.ofSourceWith
  cases held : Reader.ofSource source with
  | error error => simp [bind, Except.bind, Except.map]
  | ok reader =>
      simp only [bind, Except.bind, Rule.run]
      cases applied : Rule.program Rule.command Rule.command_shortens reader with
      | error error => simp [Except.map, applied]
      | ok result =>
          cases result with
          | none => simp [Except.map, applied]
          | some accepted =>
              obtain ⟨trees, last⟩ := accepted
              simp only [Except.map, pure, Except.pure, Parsed.tree, Except.ok.injEq]
              constructor
              · rintro rfl
                exact ⟨reader, last, trees, rfl, by rw [applied], rfl⟩
              · rintro ⟨_, _, others, rfl, found, rfl⟩
                rw [applied] at found
                cases found
                rfl

/--
A text parses exactly when scanning finds tokens up to its end which the grammar
derives, with literals that all fit.  Its tree consists of the trees of the
derived phrases, in their order.  No other phrases can be derived from the same
tokens, and no literal loses its value.
-/
theorem parse_recognizes_grammar (source : String) :
    (∀ tree, parse source = .ok tree ↔
      ∃ tokens phrases, (Scanner.ofSource source).Yields tokens ∧
        Grammar.Program tokens phrases ∧ (∀ phrase ∈ phrases, phrase.Fits) ∧
        tree = .root (phrases.map Grammar.Phrase.tree)) ∧
    (∀ tokens phrases others, Grammar.Program tokens phrases → Grammar.Program tokens others →
      phrases = others) ∧
    ∀ value, (Grammar.Parameter.literal value).Fits →
      ∃ word : Int64, (Grammar.Parameter.literal value).operand = .literal word ∧
        word.toInt = value := by
  refine ⟨?_, ?_, ?_⟩
  · intro tree
    rw [parse_eq_ok]
    constructor
    · rintro ⟨reader, last, trees, held, accepted, rfl⟩
      obtain ⟨tokens, phrases, consumes, final, derived, fit, rfl⟩ := Rule.program_iff.mp accepted
      have yields := Scanner.yields_iff.mpr ⟨reader, last, held, consumes, final⟩
      exact ⟨tokens, phrases, yields, derived, fit, rfl⟩
    · rintro ⟨tokens, phrases, yields, derived, fit, rfl⟩
      obtain ⟨reader, last, held, consumes, final⟩ := Scanner.yields_iff.mp yields
      have accepted := Rule.program_iff.mpr ⟨tokens, phrases, consumes, final, derived, fit, rfl⟩
      exact ⟨reader, last, _, held, accepted, rfl⟩
  · intro tokens phrases others derived other
    exact derived.unique other
  · rintro value ⟨lower, upper⟩
    refine ⟨Int64.ofInt value, rfl, ?_⟩
    exact Int64.toInt_ofInt_of_le lower (Int.lt_add_one_of_le upper)

/-- The tokens, the phrases and the tree of a declaration and an indented line behind it. -/
theorem parse_of_two_lines :
    let phrases : List Grammar.Phrase := [.sub 1 "a", .print 2 (.literal (-7))]
    ∃ tokens, (Scanner.ofSource "sub a\n print -7").Yields tokens ∧
      Grammar.Program tokens phrases ∧ (∀ phrase ∈ phrases, phrase.Fits) ∧
      parse "sub a\n print -7" =
        .ok (.root [.procedure "a" 1, .unary .print (.operand (.literal (-7))) 2]) := by
  intro phrases
  let first : List Token := [⟨.sub, "sub", 1⟩, ⟨.space, " ", 1⟩, ⟨.identifier, "a", 1⟩]
  let second : List Token :=
    [⟨.print, "print", 2⟩, ⟨.space, " ", 2⟩, ⟨.minus, "-", 2⟩, ⟨.number, "7", 2⟩]
  let tokens := first ++ [⟨.newline, "\n", 1⟩] ++ ([⟨.space, " ", 2⟩] ++ second)
  have yields : (Scanner.ofSource "sub a\n print -7").Yields tokens :=
    ⟨2, ⟨[], ⟨15, 2⟩⟩, by decide +kernel⟩
  have declared : Grammar.Statement ([] ++ first ++ []) (.sub 1 "a") :=
    .padded (Grammar.Only.nil .space) (.sub rfl rfl rfl) (Grammar.Only.nil .space)
  have printed : Grammar.Statement ([⟨.space, " ", 2⟩] ++ second ++ [])
      (.print 2 (.literal (-7))) :=
    .padded (by simp [Grammar.Only]) (.print rfl rfl (.negative rfl rfl))
      (Grammar.Only.nil .space)
  have derived : Grammar.Program ([] ++ tokens ++ []) phrases :=
    .stated (Grammar.Only.nil .newline)
      (.next declared (by simp [Grammar.Only]) (by simp) (.last printed))
      (Grammar.Only.nil .newline)
  have fit : ∀ phrase ∈ phrases, phrase.Fits := by
    simp [phrases, Grammar.Phrase.Fits, Grammar.Parameter.Fits]
  refine ⟨tokens, yields, derived, fit, ?_⟩
  exact ((parse_recognizes_grammar _).1 _).mpr ⟨tokens, phrases, yields, derived, fit, rfl⟩

end Guu.Tree
