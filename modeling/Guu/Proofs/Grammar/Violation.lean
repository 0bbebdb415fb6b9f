import Guu.Proofs.Grammar.Viability
import Guu.Tree.Reader
import Mathlib.Data.List.DropRight

/-!
# The earliest violation

What is wrong with a program text that is not a program, in terms of the tokens
that scanning it finds.  The tokens are looked at from the left.  A text goes
wrong at the first token that no sentence allows behind the tokens in front of
it, at the first literal that does not fit, or at a character that no token
starts with, and a literal is looked at only after the token behind it has been
scanned.  Hence there is at most one such violation.
-/

namespace Guu.Grammar

/-! ## Literals in range -/

def negated (front : List Token) : Bool :=
  front.getLast?.any fun token => token.kind == .minus

/-- A token is a literal that does not fit, given the tokens in front of it. -/
def Exceeds (front : List Token) (token : Token) : Prop :=
  token.kind = .number ∧
    ¬(Parameter.literal (Text.Decimal.signed (negated front) token.text.toList)).Fits

def InRange (tokens : List Token) : Prop :=
  ∀ front token behind, tokens = front ++ token :: behind → ¬Exceeds front token

theorem InRange.nil : InRange [] := by
  intro front token behind same
  cases front <;> cases same

/-! ## Blame -/

def lastLine (tokens : List Token) : List Token :=
  tokens.rtakeWhile fun token => token.kind ≠ .newline

/-- A statement that has got as far as a whole command. -/
def HasCommand (tokens : List Token) : Prop :=
  ∃ blanks command behind phrase, tokens = blanks ++ command ++ behind ∧ Only .space blanks ∧
    Command command phrase

/--
The token that is reported when another one cannot stand behind the tokens in
front of it: this token itself behind a whole command, otherwise the first token
of its statement that is not a blank.
-/
def Blames (front : List Token) (token reported : Token) : Prop :=
  (HasCommand (lastLine front) → reported = token) ∧
  (¬HasCommand (lastLine front) →
    (lastLine front ++ [token]).find? (fun other => other.kind ≠ .space) = some reported)

theorem Blames.unique {front : List Token} {token reported other : Token}
    (blamed : Blames front token reported) (again : Blames front token other) :
    reported = other := by
  by_cases whole : HasCommand (lastLine front)
  · rw [blamed.1 whole, again.1 whole]
  · have same := (blamed.2 whole).symm.trans (again.2 whole)
    exact Option.some.inj same

/-! ## Violations -/

/-- The earliest violation in what scanning finds, given by the error that reports it. -/
inductive Violation (scan : Scanner.Scan) : SyntaxError → Prop where
  | unreadable {error : ScanError} (failed : scan.failure = some error)
      (viable : Viable scan.tokens) (inRange : InRange scan.tokens.dropLast) :
      Violation scan (.unreadable error)
  | tooLarge {front behind : List Token} {digits next : Token}
      (row : scan.tokens = front ++ digits :: next :: behind)
      (viable : Viable (front ++ [digits])) (inRange : InRange front)
      (exceeds : Exceeds front digits) :
      Violation scan
        (.literalTooLarge ((if negated front then "-" else "") ++ digits.text) digits.line)
  | unexpected {front behind : List Token} {token reported : Token}
      (row : scan.tokens = front ++ token :: behind) (viable : Viable front)
      (stuck : ¬Viable (front ++ [token])) (inRange : InRange front)
      (blamed : Blames front token reported) : Violation scan (.unexpected reported)

/-- Two places in a row of tokens: one lies in front of the other, or they are the same. -/
theorem compare_places {front behind others rest : List Token} {token other : Token}
    (same : front ++ token :: behind = others ++ other :: rest) :
    (∃ between, others = front ++ token :: between) ∨
      (∃ between, front = others ++ other :: between) ∨
      front = others ∧ token = other ∧ behind = rest := by
  rcases List.append_eq_append_iff.mp same with
    ⟨between, longer, remaining⟩ | ⟨between, longer, remaining⟩
  · cases between with
    | nil =>
        cases remaining
        simp_all
    | cons first between =>
        cases remaining
        exact .inl ⟨between, longer⟩
  · cases between with
    | nil =>
        cases remaining
        simp_all
    | cons first between =>
        cases remaining
        exact .inr (.inl ⟨between, longer⟩)

variable {scan : Scanner.Scan} {front others behind rest tokens : List Token}
  {token other : Token}

theorem viable_of_longer (viable : Viable tokens) (longer : tokens = front ++ token :: rest) :
    Viable (front ++ [token]) := by
  refine Viable.front (?_ : Viable (front ++ [token] ++ rest))
  rwa [List.append_assoc, List.singleton_append, ← longer]

theorem unreadable_excludes_tooLarge {next : Token} (inRange : InRange scan.tokens.dropLast)
    (row : scan.tokens = front ++ token :: next :: behind) : ¬Exceeds front token := by
  refine inRange front token (next :: behind).dropLast ?_
  rw [row, List.dropLast_append_of_ne_nil (List.cons_ne_nil _ _)]
  rfl

theorem tooLarge_excludes_unexpected (row : tokens = front ++ token :: behind)
    (viable : Viable (front ++ [token])) (exceeds : Exceeds front token)
    (otherRow : tokens = others ++ other :: rest) (inRange : InRange others) :
    Viable (others ++ [other]) := by
  rcases compare_places (row.symm.trans otherRow) with
    ⟨between, longer⟩ | ⟨between, rfl⟩ | ⟨rfl, rfl, _⟩
  · exact absurd exceeds (inRange front token between longer)
  · exact viable_of_longer viable (List.append_assoc ..)
  · exact viable

namespace Violation

theorem unique {error again : SyntaxError} (violation : Violation scan error)
    (other : Violation scan again) : error = again := by
  cases violation with
  | unreadable failed viable inRange =>
      cases other with
      | unreadable failedAgain _ _ =>
          rw [failed] at failedAgain
          cases failedAgain
          rfl
      | tooLarge row _ _ exceeds =>
          exact absurd exceeds (unreadable_excludes_tooLarge inRange row)
      | unexpected row _ stuck _ _ => exact absurd (viable_of_longer viable row) stuck
  | tooLarge row viable inRange exceeds =>
      cases other with
      | unreadable _ _ bounded =>
          exact absurd exceeds (unreadable_excludes_tooLarge bounded row)
      | tooLarge otherRow _ bounded otherExceeds =>
          rcases compare_places (row.symm.trans otherRow) with
            ⟨between, longer⟩ | ⟨between, longer⟩ | ⟨rfl, rfl, _⟩
          · exact absurd exceeds (bounded _ _ between longer)
          · exact absurd otherExceeds (inRange _ _ between longer)
          · rfl
      | unexpected otherRow _ stuck bounded _ =>
          exact absurd (tooLarge_excludes_unexpected row viable exceeds otherRow bounded) stuck
  | unexpected row viable stuck inRange blamed =>
      cases other with
      | unreadable _ others _ => exact absurd (viable_of_longer others row) stuck
      | tooLarge otherRow others _ exceeds =>
          exact absurd (tooLarge_excludes_unexpected otherRow others exceeds row inRange) stuck
      | unexpected otherRow others otherStuck _ otherBlamed =>
          rcases compare_places (row.symm.trans otherRow) with
            ⟨between, longer⟩ | ⟨between, longer⟩ | ⟨rfl, rfl, _⟩
          · exact absurd (viable_of_longer others longer) stuck
          · exact absurd (viable_of_longer viable longer) otherStuck
          · rw [blamed.unique otherBlamed]

/-- Where all tokens are viable and all literals fit, only a character can be wrong. -/
theorem failure_ne_none {error : SyntaxError} (violation : Violation scan error)
    (viable : Viable scan.tokens) (inRange : InRange scan.tokens) : scan.failure ≠ none := by
  cases violation with
  | unreadable failed _ _ =>
      rw [failed]
      exact Option.some_ne_none _
  | tooLarge row _ _ exceeds => exact absurd exceeds (inRange _ _ _ row)
  | unexpected row _ stuck _ _ => exact absurd (viable_of_longer viable row) stuck

end Violation

/-! ## What the stages tell -/

section Stages

variable {checked : Prop} {stage : Stage}

theorem Reads.viable (reads : Reads checked .lineStart tokens stage) : Viable tokens :=
  viable_iff_reads.mpr ⟨stage, reads.unchecked⟩

theorem Reads.not_viable (reads : Reads checked .lineStart front stage)
    (stuck : stage.next? token.kind = none) : ¬Viable (front ++ [token]) := by
  intro viable
  obtain ⟨_, whole⟩ := viable_iff_reads.mp viable
  obtain ⟨between, again, last⟩ := whole.split
  obtain rfl := reads.unique again
  cases last with
  | cons accepts _ _ => exact nomatch stuck.symm.trans accepts

theorem Reads.negative_eq (reads : Reads checked .lineStart tokens stage) :
    stage.negative = negated tokens := by
  cases tokens using List.reverseRecOn with
  | nil =>
      cases reads
      rfl
  | append_singleton front last =>
      obtain ⟨between, _, final⟩ := reads.split
      cases final with
      | cons accepts _ rest =>
          cases rest
          rw [Stage.negative_of_next? accepts, negated, List.getLast?_concat]
          rfl

theorem Reads.inRange (reads : Reads True .lineStart tokens stage) : InRange tokens := by
  rintro front token behind rfl ⟨number, exceeds⟩
  obtain ⟨between, before, rest⟩ := reads.split
  cases rest with
  | cons accepts fits _ =>
      rw [← before.negative_eq] at exceeds
      exact exceeds (fits trivial number)

end Stages

/-! ## What the last line tells -/

def EndsLine (tokens : List Token) : Prop :=
  ∀ last ∈ tokens.getLast?, last.kind = .newline

def SingleLine (tokens : List Token) : Prop :=
  ∀ token ∈ tokens, token.kind ≠ .newline

theorem SingleLine.append (left : SingleLine front) (right : SingleLine behind) :
    SingleLine (front ++ behind) := by
  intro token member
  rcases List.mem_append.mp member with inFront | inBehind
  · exact left token inFront
  · exact right token inBehind

theorem Only.singleLine {kind : Token.Kind} (only : Only kind tokens) (other : kind ≠ .newline) :
    SingleLine tokens := by
  intro token member
  rw [only token member]
  exact other

theorem Only.endsLine (breaks : Only .newline tokens) : EndsLine tokens := by
  intro last found
  exact breaks last (List.mem_of_getLast? found)

/-- Tokens with line breaks behind them end a line, whatever they are. -/
theorem Only.endsLine_behind (breaks : Only .newline behind) (front : List Token)
    (some : behind ≠ []) : EndsLine (front ++ behind) := by
  intro last found
  rw [List.getLast?_append_of_ne_nil _ some] at found
  exact breaks.endsLine last found

theorem lastLine_of_singleLine (single : SingleLine tokens) : lastLine tokens = tokens := by
  rw [lastLine, List.rtakeWhile_eq_self_iff]
  intro token member
  exact decide_eq_true (single token member)

theorem lastLine_append (ends : EndsLine front) (behind : List Token) :
    lastLine (front ++ behind) = lastLine behind := by
  induction behind using List.reverseRecOn with
  | nil =>
      rw [List.append_nil, lastLine, lastLine, List.rtakeWhile_nil, List.rtakeWhile_eq_nil_iff]
      intro some
      simpa using ends _ (List.getLast?_eq_some_getLast some)
  | append_singleton behind last ih =>
      simp only [lastLine] at ih ⊢
      rw [← List.append_assoc, List.rtakeWhile_concat, List.rtakeWhile_concat, ih]

/-- Tokens that end a line do not matter for who is to blame behind them. -/
theorem Blames.behind_line {token reported : Token} (ends : EndsLine front)
    (blamed : Blames behind token reported) : Blames (front ++ behind) token reported := by
  unfold Blames
  rw [lastLine_append ends]
  exact blamed

theorem Spells.singleLine {value : Parameter} (spells : Spells tokens value) :
    SingleLine tokens := by
  cases spells with
  | name identifier => simp [SingleLine, identifier]
  | unsigned number => simp [SingleLine, number]
  | positive plus number => simp [SingleLine, plus, number]
  | negative minus number => simp [SingleLine, minus, number]

theorem Command.singleLine {phrase : Phrase} (commands : Command tokens phrase) :
    SingleLine tokens := by
  cases commands with
  | print word gap spells => simpa [SingleLine, word, gap] using spells.singleLine
  | call word gap named => simp [SingleLine, word, gap, named]
  | set word gap named secondGap spells =>
      simpa [SingleLine, word, gap, named, secondGap] using spells.singleLine
  | sub word gap named => simp [SingleLine, word, gap, named]

theorem Statement.singleLine {phrase : Phrase} (stated : Statement tokens phrase) :
    SingleLine tokens := by
  cases stated with
  | padded indented commands trailing =>
      exact ((indented.singleLine (by decide)).append commands.singleLine).append
        (trailing.singleLine (by decide))

/-- Behind a whole statement the token itself is to blame. -/
theorem Statement.blames {phrase : Phrase} (stated : Statement tokens phrase) (token : Token) :
    Blames tokens token token := by
  have single := stated.singleLine
  cases stated with
  | @padded blanks command behind _ indented commands trailing =>
      have whole : HasCommand (blanks ++ command ++ behind) :=
        ⟨blanks, command, behind, _, rfl, indented, commands⟩
      unfold Blames
      rw [lastLine_of_singleLine single]
      exact ⟨fun _ => rfl, fun missing => absurd whole missing⟩

theorem Reads.finished {checked : Prop} {start stage : Stage}
    (reads : Reads checked start tokens stage) (finished : start.Finished)
    (single : SingleLine tokens) : stage.Finished := by
  induction reads with
  | nil => exact finished
  | cons accepts fits rest ih =>
      have behind := finished.next accepts (single _ List.mem_cons_self)
      exact ih behind fun other member => single other (List.mem_cons_of_mem _ member)

/-- A row of a single line that has got to a stage in front of a whole command has none. -/
theorem Reads.not_hasCommand {checked : Prop} {stage : Stage}
    (reads : Reads checked .lineStart tokens stage) (single : SingleLine tokens)
    (unfinished : ¬stage.Finished) : ¬HasCommand tokens := by
  rintro ⟨blanks, command, behind, phrase, rfl, indented, commands⟩
  have before : Statement (blanks ++ command ++ []) phrase :=
    .padded indented commands (Only.nil .space)
  rw [List.append_nil] at before
  have whole : Reads False .lineStart (blanks ++ command) .complete := before.reads False.elim
  obtain ⟨between, front, rest⟩ := reads.split
  obtain rfl := front.unique whole
  have last := fun other member => single other (List.mem_append_right _ member)
  exact unfinished (rest.finished (.inl rfl) last)

/-- In front of a whole command the first token of the statement is to blame. -/
theorem Reads.blames {checked : Prop} {stage : Stage} {blanks : List Token}
    {token reported : Token} (reads : Reads checked .lineStart (blanks ++ tokens) stage)
    (unfinished : ¬stage.Finished) (indented : Only .space blanks) (single : SingleLine tokens)
    (first : (tokens ++ [token]).head? = some reported) (word : reported.kind ≠ .space) :
    Blames (blanks ++ tokens) token reported := by
  have line : SingleLine (blanks ++ tokens) := (indented.singleLine (by decide)).append single
  unfold Blames
  rw [lastLine_of_singleLine line]
  refine ⟨fun whole => absurd whole (reads.not_hasCommand line unfinished), fun _ => ?_⟩
  obtain ⟨rest, row⟩ := List.head?_eq_some_iff.mp first
  have skipped : blanks.find? (fun other => other.kind ≠ .space) = none := by
    rw [List.find?_eq_none]
    intro blank member
    simp [indented blank member]
  rw [List.append_assoc, List.find?_append, skipped, row, Option.none_or, List.find?_cons]
  simp [word]

end Guu.Grammar
