import Guu.Proofs.Grammar.Diagnosis
import Guu.Proofs.Grammar.Renumbering
import Guu.Proofs.Program.Compilation

/-!
# Parsing is compositional

A text whose last line is complete parses on its own, whatever stands behind it.
If there is something wrong with it, the same is wrong with the whole, and
otherwise the statements behind it, or what is wrong with them, are those of the
text behind it, only further down.  The grammar and its violations are followed
through both: they do not depend on the numbers of the lines, and behind a line
break everything begins again.
-/

namespace Guu

namespace Grammar

variable {tokens front behind : List Token} {phrase : Phrase} {phrases : List Phrase}

/-! ## A program behind a program -/

theorem EndsLine.of_append (ends : EndsLine (front ++ behind)) : EndsLine behind :=
  fun last found => ends last (List.mem_getLast?_append_of_mem_getLast? found)

theorem Statement.not_endsLine (stated : Statement tokens phrase) : ¬EndsLine tokens := by
  intro ends
  obtain ⟨first, rest, row, _⟩ := stated.exists_head
  have nonempty : tokens ≠ [] := by simp [row]
  have final := ends _ (List.getLast?_eq_some_getLast nonempty)
  exact stated.singleLine _ (List.getLast_mem nonempty) final

theorem Lines.append {others : List Phrase} (stated : Lines tokens phrases)
    (ends : EndsLine tokens) (program : Program behind others) :
    Program (tokens ++ behind) (phrases ++ others) := by
  induction stated with
  | nil => exact program
  | @cons tokens breaks rest phrase phrases stated broken separated following ih =>
      obtain ⟨before, remaining, row, leading, lines⟩ := program_iff.mp (ih ends.of_append)
      have some : breaks ++ before ≠ [] := by
        intro none
        obtain ⟨rfl, rfl⟩ := List.append_eq_nil_iff.mp none
        obtain rfl := separated rfl
        simp only [List.append_nil] at ends
        exact stated.not_endsLine ends
      refine program_iff.mpr ⟨[], _, ?_, Only.nil .newline,
        .cons stated (broken.append leading) (fun none => absurd none some) lines⟩
      rw [List.append_assoc, row]
      simp

/-- A program may stand behind complete lines of another one. -/
theorem Program.append {others : List Phrase} (program : Program tokens phrases)
    (ends : EndsLine tokens) (following : Program behind others) :
    Program (tokens ++ behind) (phrases ++ others) := by
  obtain ⟨before, rest, rfl, leading, lines⟩ := program_iff.mp program
  obtain ⟨more, remaining, row, breaks, stated⟩ :=
    program_iff.mp (lines.append ends.of_append following)
  refine program_iff.mpr ⟨before ++ more, remaining, ?_, leading.append breaks, stated⟩
  rw [List.append_assoc, row, List.append_assoc]

/-! ## Violations behind complete lines -/

/-- Complete lines lead to the beginning of a line. -/
theorem Reads.stop_of_endsLine {checked : Prop} {stop : Stage}
    (reads : Reads checked .lineStart front stop) (ends : EndsLine front) : stop = .lineStart := by
  cases front using List.reverseRecOn with
  | nil =>
      cases reads
      rfl
  | append_singleton others last =>
      obtain ⟨stage, _, final⟩ := reads.split
      have newline : last.kind = .newline := ends last (by simp)
      cases final with
      | cons accepts _ rest =>
          cases rest
          rw [newline] at accepts
          cases stage <;> cases accepts <;> rfl

theorem viable_append (viable : Viable front) (ends : EndsLine front) :
    Viable (front ++ tokens) ↔ Viable tokens := by
  obtain ⟨stage, reads⟩ := viable_iff_reads.mp viable
  obtain rfl := reads.stop_of_endsLine ends
  rw [viable_iff_reads, viable_iff_reads]
  constructor
  · rintro ⟨stop, whole⟩
    obtain ⟨between, again, rest⟩ := whole.split
    obtain rfl := reads.unique again
    exact ⟨stop, rest⟩
  · rintro ⟨stop, rest⟩
    exact ⟨stop, reads.append rest⟩

theorem negated_append (ends : EndsLine front) (tokens : List Token) :
    negated (front ++ tokens) = negated tokens := by
  cases tokens with
  | nil =>
      rw [List.append_nil, negated]
      cases found : front.getLast? with
      | none => rfl
      | some last => simp [negated, ends last found]
  | cons first rest =>
      rw [negated, negated, List.getLast?_append_of_ne_nil _ (List.cons_ne_nil _ _)]

theorem exceeds_append (ends : EndsLine front) {token : Token} :
    Exceeds (front ++ tokens) token ↔ Exceeds tokens token := by
  rw [Exceeds, negated_append ends]
  exact Iff.rfl

theorem InRange.of_prefix (inRange : InRange tokens) (shorter : front <+: tokens) :
    InRange front := by
  obtain ⟨behind, rfl⟩ := shorter
  rintro before token rest rfl
  exact inRange before token (rest ++ behind) (by rw [List.append_assoc, List.cons_append])

theorem InRange.append (left : InRange front) (ends : EndsLine front) (right : InRange behind) :
    InRange (front ++ behind) := by
  intro before token rest row
  rcases List.append_eq_append_iff.mp row with ⟨between, rfl, same⟩ | ⟨between, rfl, same⟩
  · rw [exceeds_append ends]
    exact right between token rest same
  · cases between with
    | nil =>
        rw [← List.append_nil before, exceeds_append (by simpa using ends)]
        exact right [] token rest same.symm
    | cons first others =>
        cases same
        exact left before token others rfl

variable {scan whole : Scanner.Scan} {error : SyntaxError}

/-- What is wrong with a text is wrong with it, further down, behind complete lines. -/
theorem Violation.moved {lines : Nat} (violation : Violation scan error) (viable : Viable front)
    (inRange : InRange front) (ends : EndsLine front)
    (tokens : whole.tokens = front ++ scan.tokens.map (Token.renumber (· + lines)))
    (failure : whole.failure = scan.failure.map (ScanError.renumber (· + lines))) :
    Violation whole (error.renumber (· + lines)) := by
  cases violation with
  | unreadable failed others fit =>
      refine .unreadable (by rw [failure, failed]; rfl) ?_ ?_
      · rwa [tokens, viable_append viable ends, viable_renumber]
      · rw [tokens]
        cases row : scan.tokens with
        | nil =>
            rw [List.map_nil, List.append_nil]
            exact inRange.of_prefix (List.dropLast_prefix front)
        | cons first rest =>
            rw [List.dropLast_append_of_ne_nil (by simp), ← List.map_dropLast, ← row]
            exact inRange.append ends (fit.renumber _)
  | @tooLarge others rest digits next row remains fit exceeds =>
      have same : whole.tokens = front ++ others.map (Token.renumber (· + lines)) ++
          digits.renumber (· + lines) :: next.renumber (· + lines) ::
            rest.map (Token.renumber (· + lines)) := by
        rw [tokens, row]
        simp
      have final : Violation whole _ := .tooLarge same
        (by
          rw [List.append_assoc, viable_append viable ends]
          simpa using viable_renumber.mpr remains)
        (inRange.append ends (fit.renumber _))
        ((exceeds_append ends).mpr (exceeds_renumber.mpr exceeds))
      rwa [negated_append ends, negated_renumber] at final
  | @unexpected others rest token reported row remains stuck fit blamed =>
      have same : whole.tokens = front ++ others.map (Token.renumber (· + lines)) ++
          token.renumber (· + lines) :: rest.map (Token.renumber (· + lines)) := by
        rw [tokens, row]
        simp
      refine .unexpected same ?_ ?_ (inRange.append ends (fit.renumber _))
        ((blamed.renumber lines).behind_line ends)
      · rwa [viable_append viable ends, viable_renumber]
      · rw [List.append_assoc, viable_append viable ends]
        simpa using viable_renumber.not.mpr stuck

theorem Violation.congr (violation : Violation scan error) (tokens : whole.tokens = scan.tokens)
    (failure : whole.failure = scan.failure) : Violation whole error := by
  cases violation with
  | unreadable failed viable inRange =>
      exact .unreadable (failure.trans failed) (tokens ▸ viable) (tokens ▸ inRange)
  | tooLarge row viable inRange exceeds =>
      exact .tooLarge (tokens.trans row) viable inRange exceeds
  | unexpected row viable stuck inRange blamed =>
      exact .unexpected (tokens.trans row) viable stuck inRange blamed

/-- The last token of a row is another one, or the row in front of it contains that one. -/
theorem split_concat {last token : Token} (same : front ++ [last] = tokens ++ token :: behind) :
    (front = tokens ∧ last = token) ∨
      ∃ between, front = tokens ++ token :: between := by
  cases behind using List.reverseRecOn with
  | nil =>
      obtain ⟨rfl, single⟩ := List.append_inj' same rfl
      cases single
      exact .inl ⟨rfl, rfl⟩
  | append_singleton between final =>
      rw [← List.cons_append, ← List.append_assoc] at same
      exact .inr ⟨between, (List.append_inj' same rfl).1⟩

/-- What is wrong with complete lines is wrong with them whatever stands behind them. -/
theorem Violation.followed {last : Token} {others : List Token} (violation : Violation scan error)
    (success : scan.failure = none) (row : scan.tokens = front ++ [last])
    (final : last.kind = .endOfInput) (ends : EndsLine front)
    (tokens : whole.tokens = front ++ others) : Violation whole error := by
  cases violation with
  | unreadable failed _ _ => exact nomatch success.symm.trans failed
  | @tooLarge before rest digits next place viable inRange exceeds =>
      rw [row] at place
      rcases split_concat place with ⟨_, rfl⟩ | ⟨between, rfl⟩
      · exact nomatch exceeds.1.symm.trans final
      · cases between with
        | nil => exact nomatch exceeds.1.symm.trans (ends digits (by simp))
        | cons following between =>
            have same : whole.tokens = before ++ digits :: following :: (between ++ others) := by
              rw [tokens]
              simp
            exact .tooLarge same viable inRange exceeds
  | @unexpected before rest token reported place viable stuck inRange blamed =>
      rw [row] at place
      rcases split_concat place with ⟨rfl, rfl⟩ | ⟨between, rfl⟩
      · -- Behind complete lines the input may end.
        refine absurd ((viable_append viable ends).mpr ?_) stuck
        exact viable_iff_reads.mpr ⟨.ended, .single rfl (by simp) final⟩
      · have same : whole.tokens = before ++ token :: (between ++ others) := by
          rw [tokens, List.append_assoc, List.cons_append]
        exact .unexpected same viable stuck inRange blamed

end Grammar

namespace Tree

open Grammar (EndsLine)

variable {source first second : String}

/-! ## Two texts -/

/-- A text parses when scanning it finds the tokens of a program whose literals all fit. -/
theorem parse_eq_ok_iff {tree : Tree} :
    parse source = .ok tree ↔ ∃ tokens line phrases,
      (Scanner.ofSource source).scan.tokens = tokens ++ [.endOfInput line] ∧
      (Scanner.ofSource source).scan.failure = none ∧ Grammar.Program tokens phrases ∧
      (∀ phrase ∈ phrases, phrase.Fits) ∧ tree = .root (phrases.map Grammar.Phrase.tree) := by
  rw [parse_eq_ok]
  constructor
  · rintro ⟨reader, last, trees, held, accepted, rfl⟩
    obtain ⟨tokens, phrases, consumes, final, program, fit, rfl⟩ := Rule.program_iff.mp accepted
    obtain ⟨line, behind, scanned⟩ := Scanner.yields_of_consumes held consumes final
    exact ⟨tokens, line, phrases, by rw [scanned], by rw [scanned], program, fit, rfl⟩
  · rintro ⟨tokens, line, phrases, row, success, program, fit, rfl⟩
    have yields : (Scanner.ofSource source).Yields tokens :=
      ⟨line, (Scanner.ofSource source).scan.last, by rw [← row, ← success]⟩
    obtain ⟨reader, last, held, consumes, final⟩ := Scanner.yields_iff.mp yields
    have accepted := Rule.program_iff.mpr ⟨tokens, phrases, consumes, final, program, fit, rfl⟩
    exact ⟨reader, last, _, held, accepted, rfl⟩

theorem eq_root_of_parse {tree : Tree} (parsed : parse source = .ok tree) :
    tree = .root tree.statements := by
  obtain ⟨_, _, _, _, _, _, _, rfl⟩ := parse_eq_ok_iff.mp parsed
  rfl

/-- The statements of complete lines, followed by those of the text behind them. -/
theorem parse_append_of_ok {lines : Nat} {front behind : Tree}
    (joins : Scanner.Joins lines (Scanner.ofSource first).scan (Scanner.ofSource second).scan
      (Scanner.ofSource (first ++ second)).scan)
    (parsed : parse first = .ok front) (remaining : parse second = .ok behind) :
    parse (first ++ second) =
      .ok (.root (front.statements ++ (behind.renumber (· + lines)).statements)) := by
  obtain ⟨tokens, line, phrases, row, success, program, fit, rfl⟩ := parse_eq_ok_iff.mp parsed
  obtain ⟨others, last, more, next, finished, following, fits, rfl⟩ :=
    parse_eq_ok_iff.mp remaining
  cases joins with
  | stopped failed _ _ => exact nomatch success.symm.trans failed
  | @joined inner _ _ same ends whole failure =>
      obtain rfl : tokens = inner := List.append_inj_left' (row.symm.trans same) rfl
      refine parse_eq_ok_iff.mpr ⟨tokens ++ others.map (Token.renumber (· + lines)), last + lines,
        phrases ++ more.map (Grammar.Phrase.renumber (· + lines)), ?_, ?_,
        program.append ends (following.renumber _), ?_, ?_⟩
      · rw [whole, next]
        simp [Token.renumber, Token.endOfInput]
      · rw [failure, finished]
        rfl
      · intro phrase member
        rcases List.mem_append.mp member with inFront | inBehind
        · exact fit phrase inFront
        · obtain ⟨other, inside, rfl⟩ := List.mem_map.mp inBehind
          exact Grammar.Phrase.fits_renumber.mpr (fits other inside)
      · simp [statements, renumber, renumberAll_eq_map, Grammar.Phrase.tree_renumber]

/-- An error in complete lines, whatever stands behind them. -/
theorem parse_append_of_error {lines : Nat} {error : SyntaxError}
    (joins : Scanner.Joins lines (Scanner.ofSource first).scan (Scanner.ofSource second).scan
      (Scanner.ofSource (first ++ second)).scan)
    (failed : parse first = .error error) : parse (first ++ second) = .error error := by
  rw [parse_eq_error] at failed ⊢
  cases joins with
  | stopped refused same again => exact failed.congr same (again.trans refused.symm)
  | joined success row ends tokens _ => exact failed.followed success row rfl ends tokens

/-- An error behind complete lines that parse. -/
theorem parse_append_of_error_behind {lines : Nat} {front : Tree} {error : SyntaxError}
    (joins : Scanner.Joins lines (Scanner.ofSource first).scan (Scanner.ofSource second).scan
      (Scanner.ofSource (first ++ second)).scan)
    (parsed : parse first = .ok front) (failed : parse second = .error error) :
    parse (first ++ second) = .error (error.renumber (· + lines)) := by
  obtain ⟨tokens, line, phrases, row, success, program, fit, rfl⟩ := parse_eq_ok_iff.mp parsed
  rw [parse_eq_error] at failed ⊢
  cases joins with
  | stopped refused _ _ => exact nomatch success.symm.trans refused
  | @joined inner _ _ same ends whole failure =>
      obtain rfl : tokens = inner := List.append_inj_left' (row.symm.trans same) rfl
      obtain ⟨stage, reads, _⟩ : ∃ stage : Grammar.Stage,
          Grammar.Reads True .lineStart tokens stage ∧ stage.next? .endOfInput = some .ended :=
        program.reads fun _ => fit
      exact failed.moved reads.viable reads.inRange ends whole failure

/--
Parsing is compositional at line breaks.  A text whose last line is complete is
parsed first.  Its error is the error of the whole text, whatever stands behind
it.  Otherwise the text behind it decides: its error is the error of the whole
text, and its statements follow the statements of the lines in front of it, and
all line numbers in either are greater by the number of line feeds in front.  A
parsed tree has nothing but statements below a root.
-/
theorem parse_composes_at_line_breaks (first second : String) :
    let lines := (first ++ "\n").toList.count '\n'
    (parse (first ++ "\n" ++ second) = do
      let front ← parse (first ++ "\n")
      let behind ← (parse second).mapError (SyntaxError.renumber (· + lines))
      return .root (front.statements ++ (behind.renumber (· + lines)).statements)) ∧
    ∀ source, parse source = (parse source).map fun tree => .root tree.statements := by
  intro lines
  have joins := Scanner.joins_scan first second
  constructor
  · cases parsed : parse (first ++ "\n") with
    | error error => exact parse_append_of_error joins parsed
    | ok front =>
        cases remaining : parse second with
        | error error => exact parse_append_of_error_behind joins parsed remaining
        | ok behind => exact parse_append_of_ok joins parsed remaining
  · intro source
    cases parsed : parse source with
    | error error => rfl
    | ok tree => exact congrArg Except.ok (eq_root_of_parse parsed)

end Tree

end Guu
