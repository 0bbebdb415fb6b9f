import Guu.Proofs.Grammar.Phrase

/-!
# Viable rows of tokens

A row of tokens is viable when some sentence of the grammar begins with it.
Reading a row from the left leads through stages, and the kind of the next token
alone decides which stage comes next.  The rows that lead from the beginning of a
line to the end of the program are the sentences, and from every stage there is
a way to the end.  Therefore a row is viable exactly when it leads somewhere.
-/

namespace Guu.Grammar

def Sentence (tokens : List Token) : Prop :=
  ∃ body last phrases, tokens = body ++ [last] ∧ last.kind = .endOfInput ∧ Program body phrases

/-- A row of tokens that some sentence begins with. -/
def Viable (tokens : List Token) : Prop :=
  ∃ rest, Sentence (tokens ++ rest)

theorem Viable.front {front behind : List Token} (viable : Viable (front ++ behind)) :
    Viable front := by
  obtain ⟨rest, sentence⟩ := viable
  exact ⟨behind ++ rest, by rwa [← List.append_assoc]⟩

/-! ## Stages -/

inductive Stage where
  /-- Nothing of a statement has been read. -/
  | lineStart
  /-- Blanks of a statement have been read. -/
  | indented
  /-- The blank in front of an operand comes next. -/
  | operandGap
  | operand
  /-- A sign has been read, a minus sign or not. -/
  | digits (negative : Bool)
  /-- The blank in front of the name of a procedure comes next. -/
  | nameGap
  | name
  /-- The blank in front of the name of a variable to be set comes next. -/
  | targetGap
  | target
  /-- The command of a statement has been read. -/
  | complete
  /-- The end of the input has been read. -/
  | ended
deriving DecidableEq, Repr

namespace Stage

def behindKeyword? : Token.Kind → Option Stage
  | .print => some operandGap
  | .call | .sub => some nameGap
  | .set => some targetGap
  | _ => none

/-- The stage behind one more token, unless no such token can come next. -/
def next? : Stage → Token.Kind → Option Stage
  | lineStart, .newline => some lineStart
  | lineStart, .endOfInput => some ended
  | lineStart, .space | indented, .space => some indented
  | lineStart, word | indented, word => behindKeyword? word
  | operandGap, .space => some operand
  | operand, .identifier | operand, .number => some complete
  | operand, .plus => some (digits false)
  | operand, .minus => some (digits true)
  | digits _, .number => some complete
  | nameGap, .space => some name
  | name, .identifier => some complete
  | targetGap, .space => some target
  | target, .identifier => some operandGap
  | complete, .space => some complete
  | complete, .newline => some lineStart
  | complete, .endOfInput => some ended
  | _, _ => none

def negative : Stage → Bool
  | digits negative => negative
  | _ => false

def Opens (stage : Stage) : Prop :=
  stage = lineStart ∨ stage = indented

theorem Opens.next?_eq {start next : Stage} {kind : Token.Kind} (opens : start.Opens)
    (keyword : behindKeyword? kind = some next) : start.next? kind = some next := by
  rcases opens with rfl | rfl <;> cases kind <;> first | exact keyword | cases keyword

/-- Where a command can start, nothing but a keyword can come next apart from what ends a line. -/
theorem Opens.next?_eq_none {start : Stage} {kind : Token.Kind} (opens : start.Opens)
    (unknown : behindKeyword? kind = none) (inner : kind ≠ .space)
    (first : start = lineStart → kind ≠ .newline ∧ kind ≠ .endOfInput) :
    start.next? kind = none := by
  rcases opens with rfl | rfl
  · obtain ⟨notBreak, inside⟩ := first rfl
    cases kind <;> first | rfl | contradiction
  · cases kind <;> first | rfl | contradiction

/-- Only a minus sign is read in front of the digits of a negative literal. -/
theorem negative_of_next? {start next : Stage} {kind : Token.Kind}
    (accepts : start.next? kind = some next) : next.negative = (kind == .minus) := by
  cases start <;> cases kind <;> cases accepts <;> rfl

def Finished (stage : Stage) : Prop :=
  stage = complete ∨ stage = ended

instance (stage : Stage) : Decidable stage.Finished :=
  inferInstanceAs (Decidable (stage = complete ∨ stage = ended))

theorem Finished.next {stage after : Stage} {kind : Token.Kind} (finished : stage.Finished)
    (accepts : stage.next? kind = some after) (inner : kind ≠ .newline) : after.Finished := by
  rcases finished with rfl | rfl
  · cases kind with
    | space =>
        cases accepts
        exact .inl rfl
    | endOfInput =>
        cases accepts
        exact .inr rfl
    | newline => exact absurd rfl inner
    | _ => cases accepts
  · cases accepts

/-- The only kind of token that can come next at some of the stages. -/
def demanded? : Stage → Option Token.Kind
  | operandGap | nameGap | targetGap => some .space
  | name | target => some .identifier
  | digits _ => some .number
  | _ => none

theorem next?_of_demanded {stage : Stage} {kind other : Token.Kind}
    (only : stage.demanded? = some kind) (different : other ≠ kind) :
    stage.next? other = none := by
  cases stage <;> cases only <;> cases other <;> first | rfl | exact absurd rfl different

theorem not_finished_of_demanded {stage : Stage} {kind : Token.Kind}
    (only : stage.demanded? = some kind) : ¬stage.Finished := by
  rintro (rfl | rfl) <;> cases only

end Stage

/--
A row of tokens leads from one stage to another.  If it is to be checked, every
literal in it fits.
-/
inductive Reads (checked : Prop) : Stage → List Token → Stage → Prop where
  | nil (stage : Stage) : Reads checked stage [] stage
  | cons {start next stop : Stage} {token : Token} {tokens : List Token}
      (accepts : start.next? token.kind = some next)
      (fits : checked → token.kind = .number →
        (Parameter.literal (Text.Decimal.signed start.negative token.text.toList)).Fits)
      (rest : Reads checked next tokens stop) : Reads checked start (token :: tokens) stop

namespace Reads

variable {checked : Prop} {start next stop : Stage} {token : Token} {front behind : List Token}

theorem number (accepts : start.next? .number = some next) (digits : token.kind = .number)
    (fits : checked →
      (Parameter.literal (Text.Decimal.signed start.negative token.text.toList)).Fits) :
    Reads checked start [token] next :=
  .cons (digits ▸ accepts) (fun check _ => fits check) (.nil next)

/-- A token without a value leads on wherever its kind does. -/
theorem single {kind : Token.Kind} (accepts : start.next? kind = some next)
    (other : kind ≠ .number) (same : token.kind = kind) : Reads checked start [token] next :=
  .cons (same ▸ accepts) (fun _ digits => absurd (same.symm.trans digits) other) (.nil next)

theorem append (left : Reads checked start front next) (right : Reads checked next behind stop) :
    Reads checked start (front ++ behind) stop := by
  induction left with
  | nil => exact right
  | cons accepts fits rest ih => exact .cons accepts fits (ih right)

theorem split (reads : Reads checked start (front ++ behind) stop) :
    ∃ next, Reads checked start front next ∧ Reads checked next behind stop := by
  induction front generalizing start with
  | nil => exact ⟨start, .nil start, reads⟩
  | cons token others ih =>
      cases reads with
      | cons accepts fits rest =>
          obtain ⟨next, left, right⟩ := ih rest
          exact ⟨next, .cons accepts fits left, right⟩

/-- The tokens decide the stage, whether they are checked or not. -/
theorem unique {other : Prop} {last : Stage} (reads : Reads checked start front stop)
    (again : Reads other start front last) : stop = last := by
  induction reads with
  | nil =>
      cases again
      rfl
  | cons accepts fits rest ih =>
      cases again with
      | cons otherwise _ others =>
          rw [accepts] at otherwise
          cases otherwise
          exact ih others

theorem unchecked (reads : Reads checked start front stop) : Reads False start front stop := by
  induction reads with
  | nil stage => exact .nil stage
  | cons accepts fits rest ih => exact .cons accepts (fun check => check.elim) ih

/-- A row of one kind leads to a stage that tokens of this kind do not leave. -/
theorem of_only {kind : Token.Kind} (enters : start.next? kind = some next)
    (stays : next.next? kind = some next) (other : kind ≠ .number)
    (only : Only kind front) :
    Reads checked start front (if front = [] then start else next) := by
  induction front generalizing start with
  | nil => exact .nil start
  | cons token others ih =>
      have first : Reads checked start [token] next :=
        .single enters other (only token List.mem_cons_self)
      have rest := ih stays fun token member => only token (List.mem_cons_of_mem _ member)
      rw [ite_self] at rest
      rw [if_neg (List.cons_ne_nil _ _)]
      exact first.append rest

theorem of_staying {kind : Token.Kind} (stays : start.next? kind = some start)
    (other : kind ≠ .number) (only : Only kind front) : Reads checked start front start := by
  have reads : Reads checked start front (if front = [] then start else start) :=
    .of_only stays stays other only
  rwa [ite_self] at reads

end Reads

/-! ## Sentences lead to the end -/

variable {checked : Prop} {tokens : List Token} {start : Stage}

theorem Spells.reads {value : Parameter} (spells : Spells tokens value)
    (fits : checked → value.Fits) : Reads checked .operand tokens .complete := by
  cases spells with
  | name identifier => exact .single rfl (by decide) identifier
  | unsigned digits => exact .number rfl digits fits
  | positive plus digits =>
      have sign : Reads checked .operand [_] (.digits false) := .single rfl (by decide) plus
      exact sign.append (.number rfl digits fits)
  | negative minus digits =>
      have sign : Reads checked .operand [_] (.digits true) := .single rfl (by decide) minus
      exact sign.append (.number rfl digits fits)

theorem reads_of_keyword {keyword : Token} {kind : Token.Kind} {next : Stage}
    (opens : start.Opens) (word : keyword.kind = kind)
    (known : Stage.behindKeyword? kind = some next) : Reads checked start [keyword] next := by
  refine .single (opens.next?_eq known) ?_ word
  rintro rfl
  cases known

theorem Command.reads {phrase : Phrase} (commands : Command tokens phrase) (opens : start.Opens)
    (fits : checked → phrase.Fits) : Reads checked start tokens .complete := by
  cases commands with
  | print word gap spells =>
      have keyword : Reads checked start [_] .operandGap := reads_of_keyword opens word rfl
      have blank : Reads checked .operandGap [_] .operand := .single rfl (by decide) gap
      exact (keyword.append blank).append (spells.reads fits)
  | call word gap named =>
      have keyword : Reads checked start [_] .nameGap := reads_of_keyword opens word rfl
      have blank : Reads checked .nameGap [_] .name := .single rfl (by decide) gap
      exact (keyword.append blank).append (.single rfl (by decide) named)
  | set word gap named secondGap spells =>
      have keyword : Reads checked start [_] .targetGap := reads_of_keyword opens word rfl
      have blank : Reads checked .targetGap [_] .target := .single rfl (by decide) gap
      have target : Reads checked .target [_] .operandGap := .single rfl (by decide) named
      have second : Reads checked .operandGap [_] .operand := .single rfl (by decide) secondGap
      exact (((keyword.append blank).append target).append second).append (spells.reads fits)
  | sub word gap named =>
      have keyword : Reads checked start [_] .nameGap := reads_of_keyword opens word rfl
      have blank : Reads checked .nameGap [_] .name := .single rfl (by decide) gap
      exact (keyword.append blank).append (.single rfl (by decide) named)

/--
Blanks at the beginning of a line lead to a stage where a command can start,
which is another one than the first if there are any.
-/
theorem Only.reads_indentation (blanks : Only .space tokens) :
    ∃ stage, stage.Opens ∧ Reads checked .lineStart tokens stage ∧
      (stage = .lineStart → tokens = []) := by
  refine ⟨_, ?_, .of_only rfl rfl (by decide) blanks, ?_⟩
  · split
    · exact .inl rfl
    · exact .inr rfl
  · split
    · exact fun _ => by assumption
    · exact nofun

theorem Only.reads_trailing (blanks : Only .space tokens) :
    Reads checked .complete tokens .complete :=
  .of_staying rfl (by decide) blanks

theorem Only.reads_leading (breaks : Only .newline tokens) :
    Reads checked .lineStart tokens .lineStart :=
  .of_staying rfl (by decide) breaks

theorem Statement.reads {phrase : Phrase} (stated : Statement tokens phrase)
    (fits : checked → phrase.Fits) : Reads checked .lineStart tokens .complete := by
  cases stated with
  | padded indented commands trailing =>
      obtain ⟨stage, opens, indentation, _⟩ := indented.reads_indentation
      exact (indentation.append (commands.reads opens fits)).append trailing.reads_trailing

/-- Line breaks behind a statement lead to the beginning of a line. -/
theorem Only.reads_breaks (breaks : Only .newline tokens) (some : tokens ≠ []) :
    Reads checked .complete tokens .lineStart := by
  have reads : Reads checked .complete tokens (if tokens = [] then .complete else .lineStart) :=
    .of_only rfl rfl (by decide) breaks
  rwa [if_neg some] at reads

theorem Lines.reads {phrases : List Phrase} (lines : Lines tokens phrases)
    (fit : checked → ∀ phrase ∈ phrases, phrase.Fits) :
    ∃ stage, Reads checked .lineStart tokens stage ∧ stage.next? .endOfInput = some .ended := by
  induction lines with
  | nil => exact ⟨.lineStart, .nil _, rfl⟩
  | @cons tokens breaks rest phrase phrases stated broken separated others ih =>
      have statement := stated.reads fun check => fit check phrase List.mem_cons_self
      by_cases none : breaks = []
      · obtain rfl := separated none
        subst none
        exact ⟨.complete, by simpa using statement, rfl⟩
      · obtain ⟨stage, remaining, final⟩ :=
          ih fun check other member => fit check other (List.mem_cons_of_mem _ member)
        exact ⟨stage, (statement.append (broken.reads_breaks none)).append remaining, final⟩

theorem Program.reads {phrases : List Phrase} (program : Program tokens phrases)
    (fit : checked → ∀ phrase ∈ phrases, phrase.Fits) :
    ∃ stage, Reads checked .lineStart tokens stage ∧ stage.next? .endOfInput = some .ended := by
  obtain ⟨before, rest, rfl, leading, lines⟩ := program_iff.mp program
  obtain ⟨stage, reads, final⟩ := lines.reads fit
  exact ⟨stage, leading.reads_leading.append reads, final⟩

theorem Sentence.reads (sentence : Sentence tokens) : Reads False .lineStart tokens .ended := by
  obtain ⟨body, last, phrases, rfl, ends, program⟩ := sentence
  obtain ⟨stage, reads, final⟩ := program.reads False.elim
  exact reads.append (.single final (by decide) ends)

/-! ## What leads to the end is a sentence -/

def Ending (tokens : List Token) : Prop :=
  ∃ blanks first rest, tokens = blanks ++ first :: rest ∧ Only .space blanks ∧
    (first.kind = .endOfInput ∧ rest = [] ∨ first.kind = .newline ∧ Sentence rest)

def Opening (tokens : List Token) : Prop :=
  ∃ blanks command ending phrase, tokens = blanks ++ command ++ ending ∧ Only .space blanks ∧
    Command command phrase ∧ Ending ending

/-- The tokens that the grammar requires at a stage, up to the end of the input. -/
def Remains : Stage → List Token → Prop
  | .lineStart, tokens => Sentence tokens
  | .indented, tokens => Opening tokens
  | .operandGap, tokens => ∃ gap operand ending value, tokens = gap :: operand ++ ending ∧
      gap.kind = .space ∧ Spells operand value ∧ Ending ending
  | .operand, tokens => ∃ operand ending value, tokens = operand ++ ending ∧
      Spells operand value ∧ Ending ending
  | .digits _, tokens => ∃ digits ending, tokens = digits :: ending ∧ digits.kind = .number ∧
      Ending ending
  | .nameGap, tokens => ∃ gap name ending, tokens = gap :: name :: ending ∧ gap.kind = .space ∧
      name.kind = .identifier ∧ Ending ending
  | .name, tokens => ∃ name ending, tokens = name :: ending ∧ name.kind = .identifier ∧
      Ending ending
  | .targetGap, tokens => ∃ gap name second operand ending value,
      tokens = gap :: name :: second :: operand ++ ending ∧ gap.kind = .space ∧
      name.kind = .identifier ∧ second.kind = .space ∧ Spells operand value ∧ Ending ending
  | .target, tokens => ∃ name second operand ending value,
      tokens = name :: second :: operand ++ ending ∧ name.kind = .identifier ∧
      second.kind = .space ∧ Spells operand value ∧ Ending ending
  | .complete, tokens => Ending tokens
  | .ended, tokens => tokens = []

theorem Sentence.newline {token : Token} (sentence : Sentence tokens)
    (broken : token.kind = .newline) : Sentence (token :: tokens) := by
  obtain ⟨body, last, phrases, rfl, ends, program⟩ := sentence
  obtain ⟨before, rest, rfl, leading, lines⟩ := program_iff.mp program
  have first : Only .newline [token] := by simpa [Only] using broken
  refine ⟨token :: (before ++ rest), last, phrases, rfl, ends, ?_⟩
  exact program_iff.mpr ⟨token :: before, rest, rfl, first.append leading, lines⟩

theorem sentence_of_final {token : Token} (ends : token.kind = .endOfInput) :
    Sentence [token] :=
  ⟨[], token, [], rfl, ends, .empty (Only.nil .newline) (Only.nil .newline)⟩

theorem Opening.sentence (opening : Opening tokens) : Sentence tokens := by
  obtain ⟨blanks, command, _, phrase, rfl, indented, commands, behind, first, rest, rfl, trailing,
    last⟩ := opening
  have stated : Statement (blanks ++ command ++ behind) phrase :=
    .padded indented commands trailing
  rcases last with ⟨ends, rfl⟩ | ⟨broken, body, last, phrases, rfl, ends, program⟩
  · refine ⟨blanks ++ command ++ behind, first, [phrase], by simp, ends, ?_⟩
    have line := Lines.cons stated (Only.nil .newline) (fun _ => rfl) .nil
    exact program_iff.mpr ⟨[], _, by simp, Only.nil .newline, line⟩
  · obtain ⟨before, others, rfl, leading, lines⟩ := program_iff.mp program
    have breaks : Only .newline (first :: before) := by
      have one : Only .newline [first] := by simpa [Only] using broken
      exact one.append leading
    have line := Lines.cons stated breaks nofun lines
    refine ⟨blanks ++ command ++ behind ++ first :: before ++ others, last, phrase :: phrases,
      by simp, ends, ?_⟩
    exact program_iff.mpr ⟨[], _, rfl, Only.nil .newline, line⟩

theorem opening_of_keyword {keyword : Token} {next : Stage}
    (known : Stage.behindKeyword? keyword.kind = some next) (remains : Remains next tokens) :
    Opening (keyword :: tokens) := by
  have indented := Only.nil .space
  unfold Stage.behindKeyword? at known
  split at known
  · rename_i word
    cases known
    obtain ⟨gap, operand, ending, value, rfl, space, spells, ends⟩ := remains
    exact ⟨[], keyword :: gap :: operand, ending, _, rfl, indented, .print word space spells, ends⟩
  · rename_i word
    cases known
    obtain ⟨gap, name, ending, rfl, space, named, ends⟩ := remains
    exact ⟨[], [keyword, gap, name], ending, _, rfl, indented, .call word space named, ends⟩
  · rename_i word
    cases known
    obtain ⟨gap, name, ending, rfl, space, named, ends⟩ := remains
    exact ⟨[], [keyword, gap, name], ending, _, rfl, indented, .sub word space named, ends⟩
  · rename_i word
    cases known
    obtain ⟨gap, name, second, operand, ending, value, rfl, space, named, secondSpace, spells,
      ends⟩ := remains
    exact ⟨[], keyword :: gap :: name :: second :: operand, ending, _, rfl, indented,
      .set word space named secondSpace spells, ends⟩
  · cases known

theorem Opening.space {token : Token} (opening : Opening tokens) (blank : token.kind = .space) :
    Opening (token :: tokens) := by
  obtain ⟨blanks, command, ending, phrase, rfl, indented, commands, ends⟩ := opening
  have first : Only .space [token] := by simpa [Only] using blank
  exact ⟨token :: blanks, command, ending, phrase, rfl, first.append indented, commands, ends⟩

theorem Ending.space {token : Token} (ending : Ending tokens) (blank : token.kind = .space) :
    Ending (token :: tokens) := by
  obtain ⟨blanks, first, rest, rfl, trailing, last⟩ := ending
  have one : Only .space [token] := by simpa [Only] using blank
  exact ⟨token :: blanks, first, rest, rfl, one.append trailing, last⟩

/-- What remains at a stage is what remains at the next one, behind the token between them. -/
theorem remains_of_next {token : Token} {next : Stage}
    (accepts : start.next? token.kind = some next) (remains : Remains next tokens) :
    Remains start (token :: tokens) := by
  generalize same : token.kind = kind at accepts
  unfold Stage.next? at accepts
  split at accepts <;> try cases accepts
  -- At the beginning of a line and behind its first blanks.
  · exact remains.newline same
  · obtain rfl := remains
    exact sentence_of_final same
  · exact (remains.space same).sentence
  · exact remains.space same
  · exact (opening_of_keyword (same ▸ accepts) remains).sentence
  · exact opening_of_keyword (same ▸ accepts) remains
  -- In front of an operand and inside of it.
  · obtain ⟨operand, ending, value, rfl, spells, ends⟩ := remains
    exact ⟨token, operand, ending, value, rfl, same, spells, ends⟩
  · exact ⟨[token], tokens, _, rfl, .name same, remains⟩
  · exact ⟨[token], tokens, _, rfl, .unsigned same, remains⟩
  · obtain ⟨digits, ending, rfl, number, ends⟩ := remains
    exact ⟨[token, digits], ending, _, rfl, .positive same number, ends⟩
  · obtain ⟨digits, ending, rfl, number, ends⟩ := remains
    exact ⟨[token, digits], ending, _, rfl, .negative same number, ends⟩
  · exact ⟨token, tokens, rfl, same, remains⟩
  -- In front of the name of a procedure or of a variable.
  · obtain ⟨name, ending, rfl, named, ends⟩ := remains
    exact ⟨token, name, ending, rfl, same, named, ends⟩
  · exact ⟨token, tokens, rfl, same, remains⟩
  · obtain ⟨name, second, operand, ending, value, rfl, named, space, spells, ends⟩ := remains
    exact ⟨token, name, second, operand, ending, value, rfl, same, named, space, spells, ends⟩
  · obtain ⟨second, operand, ending, value, rfl, space, spells, ends⟩ := remains
    exact ⟨token, second, operand, ending, value, rfl, same, space, spells, ends⟩
  -- Behind a command.
  · exact remains.space same
  · exact ⟨[], token, tokens, rfl, Only.nil .space, .inr ⟨same, remains⟩⟩
  · obtain rfl := remains
    exact ⟨[], token, [], rfl, Only.nil .space, .inl ⟨same, rfl⟩⟩

theorem remains_of_reads (reads : Reads checked start tokens .ended) : Remains start tokens := by
  generalize final : Stage.ended = stop at reads
  induction reads with
  | nil =>
      subst final
      rfl
  | cons accepts fits rest ih => exact remains_of_next accepts (ih final)

/-- The sentences are the rows that lead from the beginning of a line to the end. -/
theorem sentence_iff_reads : Sentence tokens ↔ Reads False .lineStart tokens .ended :=
  ⟨Sentence.reads, remains_of_reads⟩

/-! ## Every stage can be left for the end -/

def Stage.Finishes (stage : Stage) : Prop :=
  ∃ rest, Reads False stage rest .ended

theorem Stage.finishes_of_next {next : Stage} (kind : Token.Kind)
    (accepts : start.next? kind = some next) (finishes : next.Finishes) : start.Finishes := by
  obtain ⟨rest, reads⟩ := finishes
  exact ⟨⟨kind, "", 0⟩ :: rest, .cons accepts False.elim reads⟩

theorem Stage.finishes (stage : Stage) : stage.Finishes := by
  have ended : Stage.ended.Finishes := ⟨[], .nil .ended⟩
  have lineStart : Stage.lineStart.Finishes := finishes_of_next .endOfInput rfl ended
  have complete : Stage.complete.Finishes := finishes_of_next .endOfInput rfl ended
  have operand : Stage.operand.Finishes := finishes_of_next .number rfl complete
  have operandGap : Stage.operandGap.Finishes := finishes_of_next .space rfl operand
  have name : Stage.name.Finishes := finishes_of_next .identifier rfl complete
  have nameGap : Stage.nameGap.Finishes := finishes_of_next .space rfl name
  have target : Stage.target.Finishes := finishes_of_next .identifier rfl operandGap
  cases stage with
  | lineStart => exact lineStart
  | indented => exact finishes_of_next .print rfl operandGap
  | operandGap => exact operandGap
  | operand => exact operand
  | digits negative => exact finishes_of_next .number rfl complete
  | nameGap => exact nameGap
  | name => exact name
  | targetGap => exact finishes_of_next .space rfl target
  | target => exact target
  | complete => exact complete
  | ended => exact ended

/-- A row is viable when every token in it comes next at the stage that it has got to. -/
theorem viable_iff_reads : Viable tokens ↔ ∃ stage, Reads False .lineStart tokens stage := by
  constructor
  · rintro ⟨rest, sentence⟩
    obtain ⟨stage, reads, _⟩ := sentence.reads.split
    exact ⟨stage, reads⟩
  · rintro ⟨stage, reads⟩
    obtain ⟨rest, finish⟩ := stage.finishes
    exact ⟨rest, sentence_iff_reads.mpr (reads.append finish)⟩

end Guu.Grammar
