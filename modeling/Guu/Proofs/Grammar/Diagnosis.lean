import Guu.Proofs.Grammar.Trace

/-!
# The parser reports the earliest violation

A rule for whole statements accepts, or it finds an error that reports what is
wrong with the tokens up to the place it has got to.  Such an error is reported
for a violation, and there is only one violation in a text, which therefore
decides about the error.
-/

namespace Guu

namespace Rule

open Grammar (Stage Reads)

variable {α : Type} {reader between after : Reader} {stage : Stage} {tokens front : List Token}

/-! ## Faults -/

/-- An error that reports what is wrong behind a reader at the beginning of a line. -/
inductive Fault (reader : Reader) : SyntaxError → Prop where
  | broken {tokens : List Token} {stage : Stage} {between : Reader} {error : SyntaxError}
      (consumes : reader.Consumes tokens between) (reads : Reads True .lineStart tokens stage)
      (broken : Broken stage between error) : Fault reader error
  | unexpected {tokens : List Token} {stage : Stage} {between : Reader} {reported : Token}
      (consumes : reader.Consumes tokens between) (reads : Reads True .lineStart tokens stage)
      (stuck : stage.next? between.current.kind = none)
      (blamed : Grammar.Blames tokens between.current reported) :
      Fault reader (.unexpected reported)

/-- A rule for whole statements accepts, or it finds an error that reports a fault. -/
inductive Settled (reader : Reader) : Except SyntaxError (Option (α × Reader)) → Prop where
  | accepted {value : α} {after : Reader} : Settled reader (.ok (some (value, after)))
  | failed {error : SyntaxError} (fault : Fault reader error) : Settled reader (.error error)

theorem Fault.prepend {error : SyntaxError} (consumes : reader.Consumes front between)
    (reads : Reads True .lineStart front .lineStart) (ends : Grammar.EndsLine front)
    (fault : Fault between error) : Fault reader error := by
  cases fault with
  | broken others remaining broken =>
      exact .broken (consumes.append others) (reads.append remaining) broken
  | unexpected others remaining stuck blamed =>
      exact .unexpected (consumes.append others) (reads.append remaining) stuck
        (blamed.behind_line ends)

theorem Fault.of_refused {kind : Token.Kind} {next : Stage} {error : SyntaxError}
    (consumes : reader.Consumes tokens between) (reads : Reads True .lineStart tokens stage)
    (inner : kind ≠ .endOfInput) (accepts : stage.next? kind = some next)
    (same : between.current.kind = kind)
    (refused : Reader.ofScanner between.scanner = .error error) : Fault reader error := by
  have inside : ¬between.AtEnd := fun final => inner (same.symm.trans final)
  exact .broken consumes reads (broken_of_error (same ▸ accepts) inside refused)

theorem Settled.cases {result : Except SyntaxError (Option (α × Reader))}
    (settled : Settled reader result) :
    (∃ value after, result = .ok (some (value, after))) ∨
      ∃ error, result = .error error ∧ Fault reader error := by
  cases settled with
  | accepted => exact .inl ⟨_, _, rfl⟩
  | failed fault => exact .inr ⟨_, rfl, fault⟩

/-! ## Statements -/

/-- A command behind the blanks of its line. -/
theorem settled_command {blanks : List Token} (opens : stage.Opens)
    (consumes : reader.Consumes blanks between) (reads : Reads True .lineStart blanks stage)
    (indented : Grammar.Only .space blanks) (stops : between.current.kind ≠ .space)
    (first : stage = .lineStart → between.current.kind ≠ .newline ∧ ¬between.AtEnd) :
    Settled reader (command between) := by
  have trace := trace_choice opens fun unknown => opens.next?_eq_none unknown stops first
  unfold command demand run
  generalize firstOf [print, call, set, sub] between = result at trace
  cases trace with
  | accepted => exact .accepted
  | rejected takes unfinished stuck =>
      have whole := reads.append takes.reads
      exact .failed (.unexpected (consumes.append takes.consumes) whole stuck
        (whole.blames unfinished indented takes.single takes.consumes.head?_eq stops))
  | failed takes broken =>
      exact .failed (.broken (consumes.append takes.consumes) (reads.append takes.reads) broken)

theorem settled_statement (notBreak : reader.current.kind ≠ .newline) (inside : ¬reader.AtEnd) :
    Settled reader (statement command reader) := by
  rcases skip_cases (by decide : Token.Kind.space ≠ .endOfInput) reader with
    ⟨blanks, between, first, indented, stops, skipped⟩ |
    ⟨blanks, between, error, first, indented, blank, refused, skipped⟩
  · obtain ⟨stage, opens, reads, leaves⟩ : ∃ stage : Stage, stage.Opens ∧
        Reads True .lineStart blanks stage ∧ (stage = .lineStart → blanks = []) :=
      indented.reads_indentation
    have commanded : Settled reader (command between) := by
      refine settled_command opens first reads indented stops fun start => ?_
      obtain rfl := leaves start
      rw [first.eq_of_nil]
      exact ⟨notBreak, inside⟩
    have rest : statement command reader =
        (command.andThen fun tree => andThen (skip .space) fun _ => accept tree) between :=
      andThen_of_accepted skipped
    rw [rest]
    rcases commanded.cases with ⟨tree, after, accepted⟩ | ⟨error, failed, fault⟩
    · rw [andThen_of_accepted accepted]
      obtain ⟨tokens, phrase, second, commands, fits, _⟩ := command_iff.mp accepted
      have whole := reads.append (commands.reads opens fun _ => fits)
      rcases skip_cases (by decide : Token.Kind.space ≠ .endOfInput) after with
        ⟨trailing, last, _, _, _, skipped⟩ |
        ⟨trailing, last, error, third, padded, blank, refused, skipped⟩
      · rw [andThen_of_accepted skipped]
        exact .accepted
      · rw [andThen_of_failed skipped]
        exact .failed (.of_refused ((first.append second).append third)
          (whole.append padded.reads_trailing) (by decide) rfl blank refused)
    · rw [andThen_of_failed failed]
      exact .failed fault
  · have failed : statement command reader = .error error := andThen_of_failed skipped
    rw [failed]
    obtain ⟨stage, opens, reads, _⟩ : ∃ stage : Stage, stage.Opens ∧
        Reads True .lineStart blanks stage ∧ (stage = .lineStart → blanks = []) :=
      indented.reads_indentation
    have accepts : stage.next? .space = some .indented := by rcases opens with rfl | rfl <;> rfl
    exact .failed (.of_refused first reads (by decide) accepts blank refused)

/-! ## Lines -/

/-- The end of a line behind a statement and its line breaks. -/
theorem settled_lineEnd {phrase : Grammar.Phrase} {breaks : List Token}
    (first : reader.Consumes tokens between) (stated : Grammar.Statement tokens phrase)
    (fits : phrase.Fits) (stops : between.current.kind ≠ .space)
    (second : between.Consumes breaks after) (stopsBehind : after.current.kind ≠ .newline) :
    Settled reader (lineEnd breaks.length after) := by
  by_cases ended : breaks = [] → after.AtEnd
  · have accepted : lineEnd breaks.length after = .ok (some ((), after)) :=
      lineEnd_iff.mpr ⟨rfl, fun none => ended (List.length_eq_zero_iff.mp none)⟩
    rw [accepted]
    exact .accepted
  · obtain ⟨rfl, inside⟩ := Classical.not_imp.mp ended
    obtain rfl := second.eq_of_nil
    have failed : lineEnd ([] : List Token).length after =
        .error (.unexpected after.current) := if_neg inside
    have stuck : Stage.complete.next? after.current.kind = none := by
      cases kind : after.current.kind <;> first | rfl | contradiction
    rw [failed]
    exact .failed (.unexpected first (stated.reads fun _ => fits) stuck (stated.blames _))

theorem settled_line (notBreak : reader.current.kind ≠ .newline) (inside : ¬reader.AtEnd) :
    Settled reader (line command reader) := by
  rcases (settled_statement notBreak inside).cases with
    ⟨tree, between, accepted⟩ | ⟨error, failed, fault⟩
  · have rest : line command reader =
        (andThen (skip .newline) fun breaks => (lineEnd breaks).andThen fun _ => accept tree)
          between := andThen_of_accepted accepted
    rw [rest]
    obtain ⟨⟨tokens, phrase, first, stated, fits, _⟩, stops⟩ := statement_iff.mp accepted
    have reads : Reads True .lineStart tokens .complete := stated.reads fun _ => fits
    rcases skip_cases (by decide : Token.Kind.newline ≠ .endOfInput) between with
      ⟨breaks, after, second, broken, stopsBehind, skipped⟩ |
      ⟨breaks, last, error, second, broken, newline, refused, skipped⟩
    · rw [andThen_of_accepted skipped]
      rcases (settled_lineEnd first stated fits stops second stopsBehind).cases with
        ⟨_, last, ended⟩ | ⟨error, failed, fault⟩
      · rw [andThen_of_accepted ended]
        exact .accepted
      · rw [andThen_of_failed failed]
        exact .failed fault
    · rw [andThen_of_failed skipped]
      by_cases none : breaks = []
      · subst none
        obtain rfl := second.eq_of_nil
        exact .failed (.of_refused first reads (by decide) rfl newline refused)
      · exact .failed (.of_refused (first.append second) (reads.append (broken.reads_breaks none))
          (by decide) rfl newline refused)
  · have whole : line command reader = .error error := andThen_of_failed failed
    rw [whole]
    exact .failed fault

/-! ## Programs -/

theorem settled_statements (notBreak : reader.current.kind ≠ .newline) :
    Settled reader (statements command command_shortens reader) := by
  fun_induction statements command command_shortens reader with
  | case1 reader final => exact .accepted
  | case2 reader inside error refused =>
      have settled := settled_line notBreak inside
      rw [refused] at settled
      cases settled with
      | failed fault => exact .failed fault
  | case3 reader inside rejected =>
      have settled := settled_line notBreak inside
      rw [rejected] at settled
      cases settled
  | case4 reader inside tree next read ih =>
      obtain ⟨between, breaks, ⟨tokens, phrase, first, stated, fits, _⟩, second, broken, ended, _,
        stops⟩ := line_iff.mp read
      rcases (ih stops).cases with ⟨trees, last, accepted⟩ | ⟨error, failed, fault⟩
      · rw [accepted]
        exact .accepted
      · rw [failed]
        by_cases none : breaks = []
        · have final := ended none
          rw [statements, if_pos final] at failed
          cases failed
        · have reads : Reads True .lineStart (tokens ++ breaks) .lineStart :=
            (stated.reads fun _ => fits).append (broken.reads_breaks none)
          exact .failed (fault.prepend (first.append second) reads
            (broken.endsLine_behind tokens none))

theorem settled_program (reader : Reader) :
    Settled reader (program command command_shortens reader) := by
  rcases skip_cases (by decide : Token.Kind.newline ≠ .endOfInput) reader with
    ⟨breaks, between, first, broken, stops, skipped⟩ |
    ⟨breaks, between, error, first, broken, newline, refused, skipped⟩
  · have rest : program command command_shortens reader =
        statements command command_shortens between := andThen_of_accepted skipped
    rw [rest]
    rcases (settled_statements stops).cases with
      ⟨trees, last, accepted⟩ | ⟨error, failed, fault⟩
    · rw [accepted]
      exact .accepted
    · rw [failed]
      exact .failed (fault.prepend first broken.reads_leading broken.endsLine)
  · have failed : program command command_shortens reader = .error error :=
      andThen_of_failed skipped
    rw [failed]
    exact .failed (.of_refused first broken.reads_leading (by decide) rfl newline refused)

/-! ## Violations -/

theorem Fault.violation {scanner : Scanner} {error : SyntaxError}
    (held : Reader.ofScanner scanner = .ok reader) (fault : Fault reader error) :
    Grammar.Violation scanner.scan error := by
  cases fault with
  | @broken tokens stage between _ consumes reads broken =>
      obtain ⟨before, moved, row, failure⟩ := Scanner.scan_of_consumes held consumes
      cases broken with
      | unreadable accepts inside refused =>
          have rest := Scanner.scan_of_inside (Scanner.ofScanner_eq_ok.mp moved) inside
          rw [Scanner.scan_of_error refused] at rest
          rw [rest] at row failure
          -- The last token may be a literal that does not fit: nobody has looked at its value.
          have whole := reads.unchecked.append (.cons accepts False.elim (.nil _))
          refine .unreadable failure ?_ ?_
          · rw [row]
            exact whole.viable
          · rw [row, List.dropLast_concat]
            exact reads.inRange
      | tooLarge accepts number ahead exceeds =>
          have inside : ¬between.AtEnd := fun final => nomatch number.symm.trans final
          have rest := Scanner.scan_of_inside (Scanner.ofScanner_eq_ok.mp moved) inside
          obtain ⟨others, next⟩ := Scanner.exists_scan_tokens ahead
          rw [rest, next] at row
          have whole := reads.unchecked.append (.cons accepts False.elim (.nil _))
          rw [reads.negative_eq] at exceeds ⊢
          exact .tooLarge row whole.viable reads.inRange ⟨number, exceeds⟩
  | unexpected consumes reads stuck blamed =>
      obtain ⟨before, moved, row, _⟩ := Scanner.scan_of_consumes held consumes
      obtain ⟨rest, found⟩ := Scanner.exists_scan_tokens moved
      rw [found] at row
      exact .unexpected row reads.viable (reads.not_viable stuck) reads.inRange blamed

end Rule

namespace Tree

theorem parse_of_unreadable {source : String} {error : SyntaxError}
    (refused : Reader.ofSource source = .error error) : parse source = .error error := by
  simp [parse, Parsed.ofSource, Parsed.ofSourceWith, refused, bind, Except.bind, Except.map]

theorem parse_of_failed {source : String} {reader : Reader} {error : SyntaxError}
    (held : Reader.ofSource source = .ok reader)
    (failed : Rule.program Rule.command Rule.command_shortens reader = .error error) :
    parse source = .error error := by
  simp [parse, Parsed.ofSource, Parsed.ofSourceWith, held, Rule.run, failed, bind, Except.bind,
    Except.map]

theorem violation_of_parse {source : String} {error : SyntaxError}
    (failed : parse source = .error error) :
    Grammar.Violation (Scanner.ofSource source).scan error := by
  cases held : Reader.ofSource source with
  | error cause =>
      have same := (parse_of_unreadable held).symm.trans failed
      cases same
      obtain ⟨character, refused, rfl⟩ := Scanner.ofScanner_eq_error.mp held
      rw [Scanner.scan_of_error refused]
      exact .unreadable rfl (Grammar.Reads.nil .lineStart : Grammar.Reads False _ _ _).viable
        Grammar.InRange.nil
  | ok reader =>
      rcases (Rule.settled_program reader).cases with
        ⟨trees, last, accepted⟩ | ⟨found, broken, fault⟩
      · have parsed := parse_eq_ok.mpr ⟨reader, last, trees, held, accepted, rfl⟩
        exact nomatch failed.symm.trans parsed
      · have same := (parse_of_failed held broken).symm.trans failed
        cases same
        exact fault.violation held

theorem not_violation_of_parse {source : String} {tree : Tree} (parsed : parse source = .ok tree)
    (error : SyntaxError) : ¬Grammar.Violation (Scanner.ofSource source).scan error := by
  intro violation
  obtain ⟨reader, last, trees, held, accepted, rfl⟩ := parse_eq_ok.mp parsed
  obtain ⟨tokens, phrases, consumes, final, derived, fit, _⟩ := Rule.program_iff.mp accepted
  obtain ⟨line, behind, scanned⟩ := Scanner.yields_of_consumes held consumes final
  obtain ⟨stage, reads, ends⟩ : ∃ stage : Grammar.Stage,
      Grammar.Reads True .lineStart tokens stage ∧ stage.next? .endOfInput = some .ended :=
    derived.reads fun _ => fit
  have whole : Grammar.Reads True .lineStart (tokens ++ [.endOfInput line]) .ended :=
    reads.append (.single ends (by decide) rfl)
  rw [scanned] at violation
  exact violation.failure_ne_none whole.viable whole.inRange rfl

theorem parse_eq_error {source : String} {error : SyntaxError} :
    parse source = .error error ↔ Grammar.Violation (Scanner.ofSource source).scan error := by
  refine ⟨violation_of_parse, fun violation => ?_⟩
  cases result : parse source with
  | ok tree => exact absurd violation (not_violation_of_parse result error)
  | error found => rw [violation.unique (violation_of_parse result)]

/--
A text that does not parse is reported by its earliest violation of the grammar.
A character that no token starts with is reported when the tokens in front of it
are viable and their literals fit, the last token aside.  A literal that does not
fit is reported when it ends a viable row, all literals in front of it fit, and
another token is scanned behind it.  A token is reported as unexpected when the
tokens in front of some token are viable and their literals fit, but that token
makes them a row that is not viable: this token itself behind a whole command,
otherwise the first token of its statement that is not a blank.
-/
theorem parse_reports_earliest_violation (source : String) :
    let scan := (Scanner.ofSource source).scan
    (∀ cause, parse source = .error (.unreadable cause) ↔
      scan.failure = some cause ∧ Grammar.Viable scan.tokens ∧
        Grammar.InRange scan.tokens.dropLast) ∧
    (∀ text line, parse source = .error (.literalTooLarge text line) ↔
      ∃ front digits next behind, scan.tokens = front ++ digits :: next :: behind ∧
        Grammar.Viable (front ++ [digits]) ∧ Grammar.InRange front ∧
        Grammar.Exceeds front digits ∧
        text = (if Grammar.negated front then "-" else "") ++ digits.text ∧
        line = digits.line) ∧
    ∀ text line, parse source = .error (.unexpectedToken text line) ↔
      ∃ front token behind reported, scan.tokens = front ++ token :: behind ∧
        Grammar.Viable front ∧ ¬Grammar.Viable (front ++ [token]) ∧ Grammar.InRange front ∧
        Grammar.Blames front token reported ∧ text = reported.describe ∧
        line = reported.line := by
  intro scan
  refine ⟨fun cause => ?_, fun text line => ?_, fun text line => ?_⟩
  · rw [parse_eq_error]
    constructor
    · intro violation
      cases violation with
      | unreadable failed viable inRange => exact ⟨failed, viable, inRange⟩
    · rintro ⟨failed, viable, inRange⟩
      exact .unreadable failed viable inRange
  · rw [parse_eq_error]
    constructor
    · intro violation
      cases violation with
      | tooLarge row viable inRange exceeds =>
          exact ⟨_, _, _, _, row, viable, inRange, exceeds, rfl, rfl⟩
    · rintro ⟨front, digits, next, behind, row, viable, inRange, exceeds, rfl, rfl⟩
      exact .tooLarge row viable inRange exceeds
  · rw [parse_eq_error]
    constructor
    · intro violation
      generalize reported : SyntaxError.unexpectedToken text line = error at violation
      cases violation with
      | unexpected row viable stuck inRange blamed =>
          cases reported
          exact ⟨_, _, _, _, row, viable, stuck, inRange, blamed, rfl, rfl⟩
      | _ => cases reported
    · rintro ⟨front, token, behind, reported, row, viable, stuck, inRange, blamed, rfl, rfl⟩
      exact .unexpected row viable stuck inRange blamed

/--
A literal that does not fit is reported only when a token can be scanned behind
it, and the token that is reported as unexpected depends on whether a command
stands in front of it.
-/
example :
    let error? (source : String) := match parse source with
      | .error error => some error
      | .ok _ => none
    error? "print -9223372036854775809" = some (.literalTooLarge "-9223372036854775809" 1) ∧
      error? "print -9223372036854775809?" = some (.unreadable ⟨'?', 1⟩) ∧
      error? "print 1 2" = some (.unexpectedToken "Num(2)" 1) ∧
      error? " print\n2" = some (.unexpectedToken "Print(print)" 1) := by
  decide +kernel

end Tree

end Guu
