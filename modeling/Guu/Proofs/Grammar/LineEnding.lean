import Guu.Proofs.Grammar.Spelling

/-!
# Carriage returns in front of line feeds

A carriage return is a blank, and blanks may stand behind a command.  So a program
stays the same when each of its lines gets one at its end, as long as there is a
command on the line.  A line with nothing but a carriage return on it is no empty
line any more but a statement without a command.
-/

namespace Guu

/-! ## The lines of a text -/

def withReturns (source : String) : String :=
  String.ofList (source.toList.flatMap fun character =>
    if character = '\n' then ['\r', '\n'] else [character])

/-- The lines of a text that a line feed stands behind. -/
def completeLines (source : String) : List (List Char) :=
  (source.toList.splitOn '\n').dropLast

theorem flatMap_returns_of_not_mem {text : List Char} (unbroken : '\n' ∉ text) :
    (text.flatMap fun character => if character = '\n' then ['\r', '\n'] else [character]) =
      text := by
  induction text with
  | nil => rfl
  | cons first rest ih =>
      have other : first ≠ '\n' := List.ne_of_not_mem_cons unbroken |>.symm
      rw [List.flatMap_cons, if_neg other, ih (List.not_mem_of_not_mem_cons unbroken)]
      rfl

theorem withReturns_of_not_mem {source : String} (unbroken : '\n' ∉ source.toList) :
    withReturns source = source := by
  rw [withReturns, flatMap_returns_of_not_mem unbroken, String.ofList_toList]

theorem withReturns_append {line : String} (unbroken : '\n' ∉ line.toList) (rest : String) :
    withReturns (line ++ "\n" ++ rest) = line ++ "\r" ++ "\n" ++ withReturns rest := by
  rw [← String.toList_inj]
  simp [withReturns, flatMap_returns_of_not_mem unbroken]

theorem completeLines_of_not_mem {source : String} (unbroken : '\n' ∉ source.toList) :
    completeLines source = [] := by
  rw [completeLines, List.splitOn_eq_singleton unbroken]
  rfl

theorem completeLines_append {line : String} (unbroken : '\n' ∉ line.toList) (rest : String) :
    completeLines (line ++ "\n" ++ rest) = line.toList :: completeLines rest := by
  have others : ∀ character ∈ line.toList, (character == '\n') = false := by
    rintro character member
    simp only [beq_eq_false_iff_ne]
    rintro rfl
    exact unbroken member
  have row : (line ++ "\n" ++ rest).toList = line.toList ++ '\n' :: rest.toList := by simp
  rw [completeLines, row, List.splitOn_eq_splitOnP,
    List.splitOnP_append_cons_of_forall_mem others '\n' (by simp), ← List.splitOn_eq_splitOnP,
    List.dropLast_cons_of_ne_nil (List.splitOn_ne_nil _ _), completeLines]

/-- Texts are built from lines: a text without line feeds, or a line in front of a text. -/
theorem lines_induction {motive : String → Prop}
    (last : ∀ source, '\n' ∉ source.toList → motive source)
    (line : ∀ line rest, '\n' ∉ line.toList → motive rest → motive (line ++ "\n" ++ rest))
    (source : String) : motive source := by
  generalize size : source.toList.length = length
  induction length using Nat.strongRecOn generalizing source with
  | ind length ih =>
      by_cases broken : '\n' ∈ source.toList
      · obtain ⟨front, behind, row, unbroken⟩ := List.eq_append_cons_of_mem broken
        have same : source = String.ofList front ++ "\n" ++ String.ofList behind := by
          rw [← String.toList_inj, row]
          simp
        have shorter : (String.ofList behind).toList.length < length := by
          rw [← size, row]
          simp
          omega
        rw [same]
        exact line _ _ (by simpa using unbroken) (ih _ shorter _ rfl)
      · exact last source broken

/-! ## One line -/

namespace Grammar

open Token

variable {front tokens : List Token} {last gap : Token} {phrase : Phrase} {phrases : List Phrase}

theorem Statement.concat_space (stated : Statement tokens phrase) (blank : gap.kind = .space) :
    Statement (tokens ++ [gap]) phrase := by
  cases stated with
  | padded indented commands trailing =>
      rw [List.append_assoc]
      exact .padded indented commands (trailing.append (List.forall_mem_singleton.mpr blank))

/-- The only line of a program, with a command on it, may end with another blank. -/
theorem Program.pad_line (program : Program (front ++ [last]) phrases) (some : front ≠ [])
    (single : SingleLine front) (broken : last.kind = .newline) (blank : gap.kind = .space) :
    Program (front ++ [gap, last]) phrases := by
  obtain ⟨before, rest, row, leading, lines⟩ := program_iff.mp program
  have inside (token : Token) (newline : token.kind = .newline) : token ∉ front := fun member =>
    single token member newline
  obtain rfl : before = [] := by
    cases before with
    | nil => rfl
    | cons first others =>
        obtain ⟨head, tail, rfl⟩ := List.exists_cons_of_ne_nil some
        have same : head = first := (List.cons.inj row).1
        exact absurd List.mem_cons_self
          (inside head (same ▸ leading first List.mem_cons_self))
  rw [List.nil_append] at row
  cases lines with
  | nil => simp at row
  | @cons tokens breaks rest phrase phrases stated newlines separated others =>
      cases breaks with
      | nil =>
          obtain rfl := separated rfl
          simp only [List.append_nil] at row
          exact absurd broken (stated.singleLine last (by simp [← row]))
      | cons newline more =>
          rw [List.append_assoc, List.cons_append] at row
          obtain ⟨rfl, rfl, nothing⟩ := (List.append_cons_inj_of_notMem
            (inside newline (newlines newline List.mem_cons_self)) List.not_mem_nil).mp row
          obtain ⟨rfl, rfl⟩ := List.append_eq_nil_iff.mp nothing.symm
          have line := Lines.cons (stated.concat_space blank) newlines nofun others
          exact program_iff.mpr ⟨[], _, by simp, Only.nil .newline, line⟩

end Grammar

namespace Scanner

open Token Grammar

/-- How a line is scanned when a line feed stands behind it, or a carriage return and one. -/
theorem scan_line {line : String} (unbroken : '\n' ∉ line.toList)
    (success : (ofSource (line ++ "\n")).scan.failure = none) :
    ∃ front, SingleLine front ∧ texts front = line.toList ∧
      (ofSource (line ++ "\n")).scan.tokens =
        front ++ [⟨.newline, "\n", 1⟩] ++ [.endOfInput 2] ∧
      (ofSource (line ++ "\r" ++ "\n")).scan.tokens =
        front ++ [⟨.space, "\r", 1⟩, ⟨.newline, "\n", 1⟩] ++ [.endOfInput 2] ∧
      (ofSource (line ++ "\r" ++ "\n")).scan.failure = none := by
  have scans : Scans line.toList 1 _ _ := scans_scan (.ofSource line)
  have readable := (failure_eq_none_iff (scans_scan (.ofSource (line ++ "\n")))).mp success
  rw [(failure_eq_none_iff scans).mpr fun character member =>
    readable character (by simp [ofSource, member])] at scans
  obtain ⟨front, row⟩ := endOfInput_of_scans scans
  rw [row] at scans
  have same : texts front = line.toList := by
    have found := texts_of_scans scans
    rw [List.takeWhile_eq_self_iff.mpr fun character member =>
      readable character (by simp [ofSource, member])] at found
    simpa [texts, Token.endOfInput] using found
  have none : line.toList.count '\n' = 0 := List.count_eq_zero_of_not_mem unbroken
  have single : SingleLine front := by
    have counted := count_texts (wellFormed_of_scans_concat scans)
    rw [same, none, eq_comm, List.countP_eq_zero] at counted
    simpa [SingleLine] using counted
  have nothing : Separates [] := by decide
  have broken : Separates ['\n'] := by decide
  have feed : Scans "\n".toList 1 [⟨.newline, "\n", 1⟩, .endOfInput 2] Option.none :=
    @Scans.token .newline ['\n'] [] 1 _ _ rfl (nothing.endsToken _) (.finished 2)
  have returned : Scans "\r\n".toList 1
      [⟨.space, "\r", 1⟩, ⟨.newline, "\n", 1⟩, .endOfInput 2] Option.none :=
    @Scans.token .space ['\r'] ['\n'] 1 _ _ ⟨'\r', rfl, by decide, by decide⟩
      (broken.endsToken _) feed
  have behind (more : String) {others : List Token} (separates : Separates more.toList)
      (rest : Scans more.toList 1 others Option.none) :
      (ofSource (line ++ more)).scan.tokens = front ++ others ∧
        (ofSource (line ++ more)).scan.failure = Option.none := by
    have whole := scans.append_of_separates separates (by rwa [none])
    rw [← String.toList_append] at whole
    exact scan_of_scans whole
  have first := behind "\n" (by decide) feed
  have second := behind "\r\n" (by decide) returned
  have together : line ++ "\r\n" = line ++ "\r" ++ "\n" := by
    rw [String.append_assoc]
    rfl
  rw [together] at second
  refine ⟨front, single, same, ?_, ?_, second.2⟩
  · rw [List.append_assoc]
    exact first.1
  · rw [List.append_assoc]
    exact second.1

end Scanner

/-! ## All lines -/

namespace Tree

open Grammar

variable {line rest : String} {tree : Tree}

/-- A line with a command on it may end with a carriage return. -/
theorem parse_line (unbroken : '\n' ∉ line.toList) (some : line ≠ "")
    (parsed : parse (line ++ "\n") = .ok tree) : parse (line ++ "\r" ++ "\n") = .ok tree := by
  obtain ⟨tokens, number, phrases, row, success, program, fit, rfl⟩ := parse_eq_ok_iff.mp parsed
  obtain ⟨front, single, same, found, again, readable⟩ := Scanner.scan_line unbroken success
  obtain rfl := List.append_inj_left' (row.symm.trans found) rfl
  have nonempty : front ≠ [] := by
    rintro rfl
    exact some (String.toList_eq_nil_iff.mp same.symm)
  exact parse_eq_ok_iff.mpr
    ⟨_, 2, phrases, again, readable, program.pad_line nonempty single rfl rfl, fit, rfl⟩

theorem parse_returned :
    parse ("" ++ "\r" ++ "\n") = .error (.unexpectedToken "Newline(\\n)" 1) := by
  have told : (parse ("" ++ "\r" ++ "\n")).map (fun _ => ()) =
      .error (.unexpectedToken "Newline(\\n)" 1) := by
    decide +kernel
  cases found : parse ("" ++ "\r" ++ "\n") with
  | error error =>
      rw [found] at told
      rw [Except.error.inj told]
  | ok tree =>
      rw [found] at told
      cases told

/-- A text that parses is a line that parses with a text behind it that parses. -/
theorem exists_parse_of_line (parsed : parse (line ++ "\n" ++ rest) = .ok tree) :
    ∃ front behind, parse (line ++ "\n") = .ok front ∧ parse rest = .ok behind := by
  have joins := Scanner.joins_scan line rest
  cases first : parse (line ++ "\n") with
  | error error => cases (parse_append_of_error joins first).symm.trans parsed
  | ok front =>
      cases second : parse rest with
      | error error => cases (parse_append_of_error_behind joins first second).symm.trans parsed
      | ok behind => exact ⟨front, behind, rfl, rfl⟩

theorem count_returned (line : String) :
    (line ++ "\r" ++ "\n").toList.count '\n' = (line ++ "\n").toList.count '\n' := by
  simp

theorem parse_withReturns {source : String} (parsed : parse source = .ok tree)
    (commanded : ∀ line ∈ completeLines source, line ≠ []) :
    parse (withReturns source) = .ok tree := by
  induction source using lines_induction generalizing tree with
  | last source unbroken => rwa [withReturns_of_not_mem unbroken]
  | line line rest unbroken ih =>
      obtain ⟨front, behind, first, second⟩ := exists_parse_of_line parsed
      rw [completeLines_append unbroken, List.forall_mem_cons] at commanded
      have some : line ≠ "" := fun empty => commanded.1 (empty ▸ rfl)
      have whole := parse_append_of_ok (Scanner.joins_scan (line ++ "\r") (withReturns rest))
        (parse_line unbroken some first) (ih second commanded.2)
      rw [withReturns_append unbroken, whole, count_returned, ← parsed]
      exact (parse_append_of_ok (Scanner.joins_scan line rest) first second).symm

/-- The first empty line is where a text with carriage returns stops to parse. -/
theorem parse_withReturns_of_empty {source : String} {front behind : List (List Char)}
    (parsed : parse source = .ok tree) (row : completeLines source = front ++ [] :: behind)
    (commanded : ∀ line ∈ front, line ≠ []) :
    parse (withReturns source) =
      .error (.unexpectedToken "Newline(\\n)" (front.length + 1)) := by
  induction source using lines_induction generalizing tree front with
  | last source unbroken => simp [completeLines_of_not_mem unbroken] at row
  | line line rest unbroken ih =>
      rw [withReturns_append unbroken]
      rw [completeLines_append unbroken] at row
      obtain ⟨_, _, first, second⟩ := exists_parse_of_line parsed
      have joins := Scanner.joins_scan (line ++ "\r") (withReturns rest)
      cases front with
      | nil =>
          obtain rfl : line = "" := String.toList_eq_nil_iff.mp (List.cons.inj row).1
          exact parse_append_of_error joins parse_returned
      | cons spelled others =>
          obtain ⟨rfl, remaining⟩ := List.cons.inj row
          rw [List.forall_mem_cons] at commanded
          have some : line ≠ "" := fun empty => commanded.1 (empty ▸ rfl)
          have one : (line ++ "\r" ++ "\n").toList.count '\n' = 1 := by
            simp [List.count_eq_zero_of_not_mem unbroken]
          rw [parse_append_of_error_behind joins (parse_line unbroken some first)
            (ih second remaining commanded.2), one]
          rfl

/--
A text that parses and gets a carriage return in front of every line feed denotes
the same tree, with the same line numbers, if none of its lines is empty, the text
behind its last line feed not counted.  Otherwise its first empty line, which has
become a statement without a command, is where it does not parse any more.
-/
theorem carriage_returns_matter_on_empty_lines {source : String} {tree : Tree}
    (parsed : parse source = .ok tree) :
    ((∀ line ∈ completeLines source, line ≠ []) →
      parse (withReturns source) = parse source) ∧
    ∀ front behind, completeLines source = front ++ [] :: behind → (∀ line ∈ front, line ≠ []) →
      parse (withReturns source) =
        .error (.unexpectedToken "Newline(\\n)" (front.length + 1)) := by
  refine ⟨fun commanded => (parse_withReturns parsed commanded).trans parsed.symm, ?_⟩
  intro front behind row commanded
  exact parse_withReturns_of_empty parsed row commanded

/-- A blank in front of the line ending, and the first of two empty lines. -/
theorem carriage_returns_in_short_texts :
    parse "print -1 \r\nsub main\r\n" = parse "print -1 \nsub main\n" ∧
      parse "sub main\r\nprint a\r\n\r\n\r\n" = .error (.unexpectedToken "Newline(\\n)" 3) := by
  have accepted (source : String) (checked : (parse source).isOk = true) :
      ∃ tree, parse source = .ok tree := by
    cases found : parse source with
    | error error => simp [found, Except.isOk, Except.toBool] at checked
    | ok tree => exact ⟨tree, rfl⟩
  obtain ⟨_, first⟩ := accepted "print -1 \nsub main\n" (by decide +kernel)
  obtain ⟨_, second⟩ := accepted "sub main\nprint a\n\n\n" (by decide +kernel)
  constructor
  · exact (carriage_returns_matter_on_empty_lines first).1 (by decide)
  · exact (carriage_returns_matter_on_empty_lines second).2
      ["sub main".toList, "print a".toList] [[]] (by decide) (by decide)

end Tree

end Guu
