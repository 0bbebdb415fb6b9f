import Guu.Proofs.Grammar.Recognition
import Guu.Proofs.Grammar.Violation

/-!
# Traces of rules

A rule inside of a command takes tokens that lead from the stage it starts at to
the stage it stops at.  When it does not accept, then because the token that it
has got to cannot come next, because its value does not fit, or because no token
can be scanned behind it.  The tokens it has taken until then lead to a stage in
front of a whole command.
-/

namespace Guu

namespace Rule

open Grammar (Stage Reads)

variable {α β : Type} {reader between after : Reader} {start middle stop stage : Stage}
  {tokens front behind : List Token}

/-! ## Traces -/

/-- Tokens of a single line that lead a reader from one stage to another, their literals fitting. -/
structure Takes (start : Stage) (reader : Reader) (tokens : List Token) (stop : Stage)
    (after : Reader) : Prop where
  consumes : reader.Consumes tokens after
  reads : Reads True start tokens stop
  single : Grammar.SingleLine tokens

namespace Takes

theorem nil (start : Stage) (reader : Reader) : Takes start reader [] start reader :=
  ⟨.refl reader, .nil start, nofun⟩

theorem append (left : Takes start reader front middle between)
    (right : Takes middle between behind stop after) :
    Takes start reader (front ++ behind) stop after :=
  ⟨left.consumes.append right.consumes, left.reads.append right.reads,
    left.single.append right.single⟩

end Takes

/--
A token that can come next at a stage is not taken, with the error for it: no
token can be scanned behind it, or it is a literal that does not fit.
-/
inductive Broken (stage : Stage) (reader : Reader) : SyntaxError → Prop where
  | unreadable {next : Stage} {cause : ScanError}
      (accepts : stage.next? reader.current.kind = some next) (inside : ¬reader.AtEnd)
      (refused : reader.scanner.next = .error cause) : Broken stage reader (.unreadable cause)
  | tooLarge {next : Stage} {after : Reader}
      (accepts : stage.next? reader.current.kind = some next)
      (number : reader.current.kind = .number)
      (moved : Reader.ofScanner reader.scanner = .ok after)
      (exceeds : ¬(Grammar.Parameter.literal
        (Text.Decimal.signed stage.negative reader.current.text.toList)).Fits) :
      Broken stage reader (.literalTooLarge
        ((if stage.negative then "-" else "") ++ reader.current.text) reader.current.line)

theorem broken_of_error {next : Stage} {error : SyntaxError}
    (accepts : stage.next? reader.current.kind = some next) (inside : ¬reader.AtEnd)
    (refused : Reader.ofScanner reader.scanner = .error error) : Broken stage reader error := by
  obtain ⟨cause, unreadable, rfl⟩ := Scanner.ofScanner_eq_error.mp refused
  exact .unreadable accepts inside unreadable

/-- How a rule inside of a command comes to its result on the way from one stage to another. -/
inductive Trace (start stop : Stage) (reader : Reader) :
    Except SyntaxError (Option (α × Reader)) → Prop where
  | accepted {tokens : List Token} {value : α} {after : Reader}
      (takes : Takes start reader tokens stop after) :
      Trace start stop reader (.ok (some (value, after)))
  | rejected {tokens : List Token} {stage : Stage} {between : Reader}
      (takes : Takes start reader tokens stage between) (unfinished : ¬stage.Finished)
      (stuck : stage.next? between.current.kind = none) : Trace start stop reader (.ok none)
  | failed {tokens : List Token} {stage : Stage} {between : Reader} {error : SyntaxError}
      (takes : Takes start reader tokens stage between) (broken : Broken stage between error) :
      Trace start stop reader (.error error)

namespace Trace

theorem prepend {result : Except SyntaxError (Option (α × Reader))}
    (takes : Takes start reader tokens middle between) (trace : Trace middle stop between result) :
    Trace start stop reader result := by
  cases trace with
  | accepted later => exact .accepted (takes.append later)
  | rejected later unfinished stuck => exact .rejected (takes.append later) unfinished stuck
  | failed later broken => exact .failed (takes.append later) broken

theorem andThen {first : Rule α} {next : α → Rule β}
    (left : Trace start middle reader (first reader))
    (right : ∀ value between, Trace middle stop between (next value between)) :
    Trace start stop reader ((first.andThen next) reader) := by
  unfold Rule.andThen
  generalize first reader = result at left
  cases left with
  | accepted takes => exact (right _ _).prepend takes
  | rejected takes unfinished stuck => exact .rejected takes unfinished stuck
  | failed takes broken => exact .failed takes broken

theorem accept (stage : Stage) (value : α) (reader : Reader) :
    Trace stage stage reader (Rule.accept value reader) :=
  .accepted (.nil stage reader)

/-- A token whose kind says everything about it. -/
theorem token {kind : Token.Kind} (accepts : start.next? kind = some stop)
    (inner : kind ∉ [.number, .newline, .endOfInput]) (unfinished : ¬start.Finished)
    (refuses : reader.current.kind ≠ kind → start.next? reader.current.kind = none) :
    Trace start stop reader (Rule.token kind reader) := by
  by_cases same : reader.current.kind = kind
  · subst same
    have inside : ¬reader.AtEnd := fun final => inner (by simp [show _ = _ from final])
    unfold Rule.token
    rw [if_pos ⟨rfl, inside⟩]
    split
    · rename_i error refused
      exact .failed (.nil start reader) (broken_of_error accepts inside refused)
    · rename_i after moved
      refine .accepted ⟨.single inside moved, .single accepts ?_ rfl, ?_⟩
      · exact fun number => inner (by simp [number])
      · exact fun other member broken =>
          inner (by rw [← List.mem_singleton.mp member, broken]; decide)
  · rw [token_of_other same]
    exact .rejected (.nil start reader) unfinished (refuses same)

/-- A keyword that is already known to be in front. -/
theorem keyword {kind : Token.Kind} (opens : start.Opens)
    (known : Stage.behindKeyword? kind = some stop) (word : reader.current.kind = kind) :
    Trace start stop reader (Rule.token kind reader) := by
  refine .token (opens.next?_eq known) ?_ ?_ fun other => absurd word other
  · cases kind <;> first | decide | cases known
  · rcases opens with rfl | rfl <;> decide

/-- A token at a stage where nothing else can come next. -/
theorem demanded {kind : Token.Kind} (only : start.demanded? = some kind)
    (accepts : start.next? kind = some stop) (inner : kind ∉ [.number, .newline, .endOfInput]) :
    Trace start stop reader (Rule.token kind reader) :=
  .token accepts inner (Stage.not_finished_of_demanded only)
    fun other => Stage.next?_of_demanded only other

end Trace

/-! ## Operands -/

theorem trace_digits {negative : Bool} (accepts : start.next? .number = some .complete)
    (sign : start.negative = negative) (unfinished : ¬start.Finished)
    (refuses : reader.current.kind ≠ .number → start.next? reader.current.kind = none) :
    Trace start .complete reader (((token .number).andThen (literalOf negative)) reader) := by
  by_cases number : reader.current.kind = .number
  · have inside : ¬reader.AtEnd := fun final => nomatch number.symm.trans final
    have allowed := number.symm ▸ accepts
    cases moved : Reader.ofScanner reader.scanner with
    | error error =>
        have failed : token .number reader = .error error := by simp [token, number, inside, moved]
        rw [andThen, failed]
        exact .failed (.nil start reader) (broken_of_error allowed inside moved)
    | ok after =>
        have consumes := Reader.Consumes.single inside moved
        rw [andThen_of_accepted (token_of_consumes number consumes)]
        by_cases fits : (Grammar.Parameter.literal
            (Text.Decimal.signed negative reader.current.text.toList)).Fits
        · rw [literalOf_iff.mpr ⟨rfl, fits, rfl⟩]
          refine .accepted ⟨consumes, .number accepts number fun _ => sign ▸ fits, ?_⟩
          simp [Grammar.SingleLine, number]
        · have refused : Text.Decimal.word?
              (Text.Decimal.signed negative reader.current.text.toList) = none := if_neg fits
          rw [literalOf, refused]
          subst sign
          exact .failed (.nil start reader) (.tooLarge allowed number moved fits)
  · rw [andThen_of_other number]
    exact .rejected (.nil start reader) unfinished (refuses number)

theorem sign_of_error {kind : Token.Kind} {error : SyntaxError}
    (signed : kind = .plus ∨ kind = .minus) (word : reader.current.kind = kind)
    (refused : Reader.ofScanner reader.scanner = .error error) : sign reader = .error error := by
  rcases signed with rfl | rfl <;>
    simp [sign, firstOf, andThen, token, Reader.AtEnd, word, refused]

/-- A sign and the digits behind it. -/
theorem trace_signed {kind : Token.Kind} {negative : Bool} (signed : kind = .plus ∨ kind = .minus)
    (word : reader.current.kind = kind)
    (accepts : Stage.operand.next? kind = some (.digits negative))
    (taken : ∀ after, reader.Consumes [reader.current] after →
      sign reader = .ok (some (negative, after))) :
    Trace .operand .complete reader (literal reader) := by
  have allowed := word.symm ▸ accepts
  have inside : ¬reader.AtEnd := by
    rcases signed with rfl | rfl <;> exact fun final => nomatch word.symm.trans final
  cases moved : Reader.ofScanner reader.scanner with
  | error error =>
      have failed : literal reader = .error error := by
        show (sign.andThen _) reader = _
        rw [andThen, sign_of_error signed word moved]
      rw [failed]
      exact .failed (.nil .operand reader) (broken_of_error allowed inside moved)
  | ok after =>
      have consumes := Reader.Consumes.single inside moved
      have digits : Trace (.digits negative) .complete after
          (((token .number).andThen (literalOf negative)) after) :=
        trace_digits rfl rfl (Stage.not_finished_of_demanded rfl)
          fun other => Stage.next?_of_demanded rfl other
      have rest : literal reader = ((token .number).andThen (literalOf negative)) after :=
        andThen_of_accepted (taken after consumes)
      rw [rest]
      refine digits.prepend ⟨consumes, ?_, ?_⟩
      · rcases signed with rfl | rfl
        · exact .single accepts (by decide) word
        · exact .single accepts (by decide) word
      · rcases signed with rfl | rfl <;> simp [Grammar.SingleLine, word]

theorem trace_literal (other : reader.current.kind ≠ .identifier) :
    Trace .operand .complete reader (literal reader) := by
  by_cases plus : reader.current.kind = .plus
  · exact trace_signed (.inl rfl) plus rfl fun after consumes => sign_of_plus plus consumes
  by_cases minus : reader.current.kind = .minus
  · exact trace_signed (.inr rfl) minus rfl fun after consumes => sign_of_minus minus consumes
  have rest : literal reader = ((token .number).andThen (literalOf false)) reader :=
    andThen_of_accepted (sign_of_other plus minus)
  rw [rest]
  refine trace_digits rfl rfl (by decide) fun number => ?_
  cases kind : reader.current.kind <;> first | rfl | contradiction

theorem trace_operand : Trace .operand .complete reader (operand reader) := by
  by_cases name : reader.current.kind = .identifier
  · have rest : literal reader = ((token .number).andThen (literalOf false)) reader :=
      andThen_of_accepted (sign_of_other (by simp [name]) (by simp [name]))
    have rejected : literal reader = .ok none := rest.trans (andThen_of_other (by simp [name]))
    have alone : operand reader = variableName reader :=
      firstOf_of_others_rejected ((firstOf_of_rejected rejected).trans rfl)
    rw [alone]
    have word : Trace .operand .complete reader (token .identifier reader) :=
      .token rfl (by decide) (by decide) fun other => absurd name other
    exact word.andThen fun word between => .accept _ _ between
  · have rejected : variableName reader = .ok none := andThen_of_other name
    have alone : operand reader = literal reader :=
      (firstOf_of_rejected rejected).trans (firstOf_of_others_rejected rfl)
    rw [alone]
    exact trace_literal name

/-! ## Commands -/

/-- A keyword and a name behind it, with a blank between them. -/
theorem trace_named {kind : Token.Kind} (opens : start.Opens)
    (known : Stage.behindKeyword? kind = some .nameGap) (word : reader.current.kind = kind)
    (make : Token → Token → α) :
    Trace start .complete reader (((token kind).andThen fun keyword =>
      (token .space).andThen fun _ =>
        (token .identifier).andThen fun name => accept (make keyword name)) reader) := by
  have keyword : Trace start .nameGap reader (token kind reader) := .keyword opens known word
  refine keyword.andThen fun keyword between => ?_
  have gap : Trace .nameGap .name between (token .space between) := .demanded rfl rfl (by decide)
  refine gap.andThen fun gap between => ?_
  have name : Trace .name .complete between (token .identifier between) :=
    .demanded rfl rfl (by decide)
  exact name.andThen fun name between => .accept _ _ between

/-- An operand with a blank in front of it. -/
theorem trace_value (reader : Reader) (make : Operand → α) :
    Trace .operandGap .complete reader (((token .space).andThen fun _ =>
      operand.andThen fun value => accept (make value)) reader) := by
  have gap : Trace .operandGap .operand reader (token .space reader) :=
    .demanded rfl rfl (by decide)
  refine gap.andThen fun gap between => ?_
  exact trace_operand.andThen fun value between => .accept _ _ between

theorem trace_print (opens : start.Opens) (word : reader.current.kind = .print) :
    Trace start .complete reader (print reader) := by
  have keyword : Trace start .operandGap reader (token .print reader) := .keyword opens rfl word
  exact keyword.andThen fun keyword between => trace_value between _

theorem trace_call (opens : start.Opens) (word : reader.current.kind = .call) :
    Trace start .complete reader (call reader) :=
  trace_named opens rfl word _

theorem trace_set (opens : start.Opens) (word : reader.current.kind = .set) :
    Trace start .complete reader (set reader) := by
  have keyword : Trace start .targetGap reader (token .set reader) := .keyword opens rfl word
  refine keyword.andThen fun keyword between => ?_
  have gap : Trace .targetGap .target between (token .space between) :=
    .demanded rfl rfl (by decide)
  refine gap.andThen fun gap between => ?_
  have target : Trace .target .operandGap between (token .identifier between) :=
    .demanded rfl rfl (by decide)
  exact target.andThen fun target between => trace_value between _

theorem trace_sub (opens : start.Opens) (word : reader.current.kind = .sub) :
    Trace start .complete reader (sub reader) :=
  trace_named opens rfl word _

/-- The token in front alone decides which of the commands is tried to the end. -/
theorem trace_choice (opens : start.Opens)
    (refuses : Stage.behindKeyword? reader.current.kind = none →
      start.next? reader.current.kind = none) :
    Trace start .complete reader (firstOf [print, call, set, sub] reader) := by
  have notPrint : reader.current.kind ≠ .print → print reader = .ok none := andThen_of_other
  have notCall : reader.current.kind ≠ .call → call reader = .ok none := andThen_of_other
  have notSet : reader.current.kind ≠ .set → set reader = .ok none := andThen_of_other
  have notSub : reader.current.kind ≠ .sub → sub reader = .ok none := andThen_of_other
  by_cases printed : reader.current.kind = .print
  · have alone : firstOf [print, call, set, sub] reader = print reader :=
      firstOf_of_others_rejected (by simp [firstOf, reject, notCall, notSet, notSub, printed])
    exact alone ▸ trace_print opens printed
  rw [firstOf_of_rejected (notPrint printed)]
  by_cases called : reader.current.kind = .call
  · have alone : firstOf [call, set, sub] reader = call reader :=
      firstOf_of_others_rejected (by simp [firstOf, reject, notSet, notSub, called])
    exact alone ▸ trace_call opens called
  rw [firstOf_of_rejected (notCall called)]
  by_cases assigned : reader.current.kind = .set
  · have alone : firstOf [set, sub] reader = set reader :=
      firstOf_of_others_rejected (by simp [firstOf, reject, notSub, assigned])
    exact alone ▸ trace_set opens assigned
  rw [firstOf_of_rejected (notSet assigned)]
  by_cases declared : reader.current.kind = .sub
  · have alone : firstOf [sub] reader = sub reader := firstOf_of_others_rejected rfl
    exact alone ▸ trace_sub opens declared
  rw [firstOf_of_rejected (notSub declared)]
  have unknown : Stage.behindKeyword? reader.current.kind = none := by
    cases kind : reader.current.kind <;> first | rfl | contradiction
  refine .rejected (.nil start reader) ?_ (refuses unknown)
  rcases opens with rfl | rfl <;> decide

end Rule

end Guu
