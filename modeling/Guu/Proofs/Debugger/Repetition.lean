import Guu.Proofs.Debugger.Flushing

/-!
# Blank lines repeat

A blank line is short for the command that was recognised last.  Spelling out
all blank lines of some input takes no session: which command was recognised
last can be read off the lines in front.  A session cannot tell the spelled out
input from the original, whatever its sinks refuse.
-/

namespace Guu.Debugger

structure Spoken where
  word : String
  command : Command
  recognised : Command.ofWord? word = some command

def Command.words : List String :=
  ["s", "step", "n", "next", "c", "continue", "v", "vars", "bt", "backtrace", "h", "help", "q",
    "quit"]

theorem Command.mem_words {word : String} {command : Command}
    (recognised : ofWord? word = some command) : word ∈ words := by
  unfold ofWord? at recognised
  split at recognised
  all_goals first | (simp [words]; done) | cases recognised

namespace InputLine

open Text.Utf8

/-- The words that a line consists of, if the debugger recognises them as a command. -/
def spoken? : InputLine → Option Spoken
  | text content =>
      match recognised : Command.ofWord? (Text.Blank.trim content) with
      | some command => some ⟨Text.Blank.trim content, command, recognised⟩
      | none => none
  | undecodable => none

/-- The command that was recognised last behind a line. -/
def latest (earlier : Option Spoken) (line : InputLine) : Option Spoken :=
  line.spoken?.or earlier

/-- A line, spelled out as the last command if it is blank. -/
def spelled (earlier : Option Spoken) (line : InputLine) : InputLine :=
  match earlier with
  | some spoken => if line.isBlank then .text spoken.word else line
  | none => line

def spellOut (earlier : Option Spoken) : List InputLine → List InputLine
  | [] => []
  | line :: rest => spelled earlier line :: spellOut (latest earlier line) rest

/-! ## Spelling out bytes -/

def spelledBytes (earlier : Option Spoken) (line : InputLine) (kept : List UInt8) : List UInt8 :=
  match earlier with
  | some spoken => if line.isBlank then bytes spoken.word else kept
  | none => kept

/-- Bytes whose blank lines are spelled out, given the reversed beginning of the first line. -/
def spellBehind (earlier : Option Spoken) (reversed : List UInt8) : List UInt8 → List UInt8
  | [] =>
      if reversed = [] then []
      else spelledBytes earlier (ofBytes reversed.reverse) reversed.reverse
  | byte :: rest =>
      if byte = lineFeed then
        let line := ofBytes (withoutReturn reversed).reverse
        spelledBytes earlier line reversed.reverse ++
          lineFeed :: spellBehind (latest earlier line) [] rest
      else spellBehind earlier (byte :: reversed) rest

def spellOutBytes (input : List UInt8) : List UInt8 :=
  spellBehind none [] input

end InputLine

namespace Spoken

open InputLine Text.Utf8

variable (spoken : Spoken)

theorem trim_word : Text.Blank.trim spoken.word = spoken.word := by
  have all : ∀ word ∈ Command.words, Text.Blank.trim word = word := by decide
  exact all _ (Command.mem_words spoken.recognised)

theorem word_ne_empty : spoken.word ≠ "" := by
  have all : ∀ word ∈ Command.words, word ≠ "" := by decide
  exact all _ (Command.mem_words spoken.recognised)

theorem bytes_ne_nil : bytes spoken.word ≠ [] := by
  have all : ∀ word ∈ Command.words, bytes word ≠ [] := by decide
  exact all _ (Command.mem_words spoken.recognised)

theorem lineFeed_not_mem : lineFeed ∉ bytes spoken.word := by
  have all : ∀ word ∈ Command.words, lineFeed ∉ bytes word := by decide
  exact all _ (Command.mem_words spoken.recognised)

theorem withoutReturn_word :
    (withoutReturn (bytes spoken.word).reverse).reverse = bytes spoken.word := by
  have all : ∀ word ∈ Command.words,
      (withoutReturn (bytes word).reverse).reverse = bytes word := by decide
  exact all _ (Command.mem_words spoken.recognised)

theorem ofBytes_word : ofBytes (bytes spoken.word) = .text spoken.word := by
  rw [ofBytes, decode?_eq_some_iff.mpr rfl]

end Spoken

namespace InputLine

open Text.Utf8

variable {earlier : Option Spoken}

/-- Bytes in front of a line feed are a line. -/
theorem lines_append {front : List UInt8} (inner : lineFeed ∉ front) (rest : List UInt8) :
    lines (front ++ lineFeed :: rest) =
      ofBytes (withoutReturn front.reverse).reverse :: lines rest := by
  rw [lines, split, splitBehind_of_lineFeed inner, List.append_nil, List.map_cons, ← lines]

/-- Bytes without a line feed are a line, unless there are none. -/
theorem lines_of_last {last : List UInt8} (inner : lineFeed ∉ last) (nonempty : last ≠ []) :
    lines last = [ofBytes last] := by
  rw [lines, split, splitBehind_of_last inner, List.append_nil, if_neg (by simpa),
    List.reverse_reverse, List.map_singleton]

/-- The bytes of a blank line are spelled out, and those of any other line kept. -/
theorem spelledBytes_cases (earlier : Option Spoken) (line : InputLine) (kept : List UInt8) :
    (spelledBytes earlier line kept = kept ∧ spelled earlier line = line) ∨
      ∃ spoken : Spoken, spelledBytes earlier line kept = bytes spoken.word ∧
        spelled earlier line = .text spoken.word := by
  cases earlier with
  | none => exact .inl ⟨rfl, rfl⟩
  | some spoken =>
      cases blank : line.isBlank with
      | true => exact .inr ⟨spoken, by simp [spelledBytes, blank], by simp [spelled, blank]⟩
      | false => exact .inl ⟨by simp [spelledBytes, blank], by simp [spelled, blank]⟩

theorem lines_spellBehind {reversed : List UInt8} (inner : lineFeed ∉ reversed)
    (earlier : Option Spoken) (input : List UInt8) :
    lines (spellBehind earlier reversed input) =
      spellOut earlier ((splitBehind reversed input).map ofBytes) := by
  -- A line ends where the input ends or at a line feed, and is kept or spelled out at either.
  induction input generalizing reversed earlier with
  | nil =>
      by_cases empty : reversed = []
      · simp [spellBehind, splitBehind, empty, lines, split, spellOut]
      · have kept : lineFeed ∉ reversed.reverse := by simpa using inner
        have nonempty : reversed.reverse ≠ [] := by simpa using empty
        simp only [spellBehind, splitBehind, if_neg empty, List.map_singleton, spellOut]
        rcases spelledBytes_cases earlier (ofBytes reversed.reverse) reversed.reverse with
          ⟨written, line⟩ | ⟨spoken, written, line⟩
        · rw [written, line, lines_of_last kept nonempty]
        · rw [written, line, lines_of_last spoken.lineFeed_not_mem spoken.bytes_ne_nil,
            spoken.ofBytes_word]
  | cons byte rest ih =>
      by_cases feed : byte = lineFeed
      · have kept : lineFeed ∉ reversed.reverse := by simpa using inner
        have behind := ih List.not_mem_nil
          (latest earlier (ofBytes (withoutReturn reversed).reverse))
        simp only [spellBehind, splitBehind, if_pos feed, List.map_cons, spellOut, ← behind]
        rcases spelledBytes_cases earlier (ofBytes (withoutReturn reversed).reverse)
          reversed.reverse with ⟨written, line⟩ | ⟨spoken, written, line⟩
        · rw [written, line, lines_append kept, List.reverse_reverse]
        · rw [written, line, lines_append spoken.lineFeed_not_mem, spoken.withoutReturn_word,
            spoken.ofBytes_word]
      · have longer : lineFeed ∉ byte :: reversed := by simp [inner, Ne.symm feed]
        rw [spellBehind, if_neg feed, splitBehind, if_neg feed]
        exact ih longer earlier

/-- Spelling out the blank lines of some bytes spells out the lines that are read. -/
theorem lines_spellOutBytes (input : List UInt8) :
    lines (spellOutBytes input) = spellOut none (lines input) :=
  lines_spellBehind List.not_mem_nil none input

/-! ## Lines that name a command, and others -/

/-- The text of a recognised word is that of the line. -/
theorem spoken?_eq_some {line : InputLine} {spoken : Spoken} (gives : line.spoken? = some spoken) :
    ∃ content, line = .text content ∧ Text.Blank.trim content = spoken.word := by
  cases line with
  | undecodable => cases gives
  | text content =>
      rw [spoken?] at gives
      split at gives
      · cases gives
        exact ⟨content, rfl, rfl⟩
      · cases gives

theorem spoken?_eq_none {content : String} (gives : (text content).spoken? = none) :
    Command.ofWord? (Text.Blank.trim content) = none := by
  rw [spoken?] at gives
  split at gives
  · cases gives
  · rename_i absent
    exact absent

/-- Lines without recognised commands do not change which command was the last one. -/
theorem foldl_latest_of_unspoken {lines : List InputLine}
    (unspoken : ∀ line ∈ lines, line.spoken? = none) (earlier : Option Spoken) :
    lines.foldl latest earlier = earlier := by
  induction lines with
  | nil => rfl
  | cons line rest ih =>
      obtain ⟨first, others⟩ := List.forall_mem_cons.mp unspoken
      rw [List.foldl_cons, latest, first, Option.none_or, ih others]

end InputLine

namespace Session

open InputLine

variable {session : Session} {earlier : Option Spoken} {line : InputLine}

/-! ## Answers -/

theorem answer_of_blank (blank : line.isBlank = true) {command : Command}
    (remembers : session.last = some command) : session.answer line = session.accept command := by
  apply answer_of_command
  cases line with
  | undecodable => cases blank
  | text content =>
      have word : (Text.Blank.trim content).isEmpty = true := blank
      simp only [command?, word, if_true, remembers]

theorem answer_of_word {content : String} (spoken : Spoken)
    (word : Text.Blank.trim content = spoken.word) :
    session.answer (.text content) = session.accept spoken.command := by
  apply answer_of_command
  rw [command?, word, if_neg (by simpa [String.isEmpty_iff] using spoken.word_ne_empty)]
  exact spoken.recognised

theorem answer_of_spoken {spoken : Spoken} (gives : line.spoken? = some spoken) :
    session.answer line = session.accept spoken.command := by
  obtain ⟨content, rfl, word⟩ := spoken?_eq_some gives
  exact answer_of_word spoken word

/-- A blank line that repeats nothing is not answered. -/
theorem answer_of_nothing (blank : line.isBlank = true) (forgets : session.last = none) :
    session.answer line = .done session := by
  cases line with
  | undecodable => cases blank
  | text content =>
      have word : (Text.Blank.trim content).isEmpty = true := blank
      simp only [answer, answerText, word, if_true, forgets]

/-! ## What a session remembers -/

theorem last_andThen {outcome : SessionOutcome} {following : Session → SessionOutcome}
    {last : Option Command} (kept : outcome.state.last = last)
    (keeps : ∀ session : Session, session.last = last → (following session).state.last = last) :
    (outcome.andThen following).state.last = last := by
  unfold Outcome.andThen
  split
  · exact kept
  · exact keeps _ kept

theorem last_say (text : String) (session : Session) :
    (session.say text).state.last = session.last := by
  unfold say
  dsimp only
  split <;> rfl

theorem last_flushConsole (session : Session) : session.flushConsole.state.last = session.last := by
  unfold flushConsole
  dsimp only
  split <;> rfl

theorem last_flushOutput (session : Session) : session.flushOutput.state.last = session.last := by
  unfold flushOutput
  dsimp only
  split <;> rfl

theorem last_prompt (session : Session) : session.prompt.state.last = session.last :=
  last_andThen (last_say _ session) fun other same => (last_flushConsole other).trans same

theorem last_advance (move : Machine → MachineOutcome) (session : Session) :
    (session.advance move).state.last = session.last := by
  refine last_andThen rfl fun moved kept => ?_
  refine last_andThen ((last_flushOutput moved).trans kept) fun flushed again => ?_
  split
  · exact again
  · exact (last_say _ flushed).trans again

theorem last_obey (command : Command) (session : Session) :
    (session.obey command).state.last = session.last := by
  cases command with
  | step => exact last_advance Machine.stepInto session
  | next => exact last_advance Machine.stepOver session
  | «continue» => exact last_advance Machine.run session
  | inspect => exact last_say _ session
  | backtrace => exact last_say _ session
  | help => exact last_say _ session
  | quit => rfl

/-- A session remembers the command of some words, or that there have been none. -/
def Recalls (session : Session) (spoken : Option Spoken) : Prop :=
  session.last = spoken.map Spoken.command

theorem recalls_answer (recalls : session.Recalls earlier) (line : InputLine) :
    (session.answer line).state.Recalls (latest earlier line) := by
  unfold Recalls latest
  cases gives : line.spoken? with
  | some spoken =>
      rw [answer_of_spoken gives]
      exact last_obey spoken.command _
  | none =>
      -- Without a recognised word the session forgets nothing, whether it repeats or complains.
      rw [Option.none_or, ← recalls]
      cases line with
      | undecodable => rfl
      | text content =>
          cases blank : (text content).isBlank with
          | true =>
              cases remembers : session.last with
              | none =>
                  rw [answer_of_nothing blank remembers]
                  exact remembers
              | some command =>
                  rw [answer_of_blank blank remembers]
                  exact last_obey command _
          | false =>
              have filled : (Text.Blank.trim content).isEmpty = false := blank
              simp only [answer, answerText, filled, spoken?_eq_none gives]
              exact last_say _ session

theorem recalls_prompt (recalls : session.Recalls earlier) :
    session.prompt.state.Recalls earlier :=
  (last_prompt session).trans recalls

theorem recalls_turn (recalls : session.Recalls earlier) (line : InputLine)
    (success : (session.turn line).failure = none) :
    (session.turn line).state.Recalls (latest earlier line) := by
  obtain ⟨prompted, _⟩ := Outcome.failure_andThen_eq_none.mp success
  rw [turn, Outcome.andThen_of_success prompted]
  exact recalls_answer (recalls_prompt recalls) line

/-! ## Turns -/

theorem andThen_congr {outcome : SessionOutcome} {first second : Session → SessionOutcome}
    (same : outcome.failure = none → first outcome.state = second outcome.state) :
    outcome.andThen first = outcome.andThen second := by
  cases failed : outcome.failure with
  | some failure => rw [Outcome.andThen_of_failure failed, Outcome.andThen_of_failure failed]
  | none => rw [Outcome.andThen_of_success failed, Outcome.andThen_of_success failed, same failed]

/-- A blank line has the turn of every line that consists of the words which were said last. -/
theorem turn_of_blank {spoken : Spoken} (recalls : session.Recalls (some spoken))
    (blank : line.isBlank = true) {content : String}
    (word : Text.Blank.trim content = spoken.word) :
    session.turn line = session.turn (.text content) := by
  refine andThen_congr fun _ => ?_
  rw [answer_of_blank blank (recalls_prompt recalls), answer_of_word spoken word]

/-- A blank line that repeats nothing only makes the session ask for a line. -/
theorem turn_of_nothing (recalls : session.Recalls none) (blank : line.isBlank = true) :
    session.turn line = session.prompt := by
  rw [← Outcome.andThen_done session.prompt]
  exact andThen_congr fun _ => answer_of_nothing blank (recalls_prompt recalls)

theorem turn_spelled (recalls : session.Recalls earlier) (line : InputLine) :
    session.turn (spelled earlier line) = session.turn line := by
  cases earlier with
  | none => rfl
  | some spoken =>
      cases blank : line.isBlank with
      | true =>
          rw [spelled, if_pos blank]
          exact (turn_of_blank recalls blank spoken.trim_word).symm
      | false => rw [spelled, if_neg (by simp [blank])]

/-! ## Whole sessions -/

def Remembers (outcome : SessionOutcome) (spoken : Option Spoken) : Prop :=
  outcome.failure = none → outcome.state.Recalls spoken

variable {outcome : SessionOutcome}

theorem Remembers.turn (remembers : Remembers outcome earlier) (line : InputLine) :
    Remembers (outcome.andThen (Session.turn line)) (latest earlier line) := by
  intro success
  obtain ⟨before, turned⟩ := Outcome.failure_andThen_eq_none.mp success
  rw [Outcome.andThen_of_success before]
  exact recalls_turn (remembers before) line turned

theorem Remembers.converse (remembers : Remembers outcome earlier) (lines : List InputLine) :
    Remembers (Session.converse outcome lines) (lines.foldl latest earlier) := by
  induction lines generalizing outcome earlier with
  | nil => exact remembers
  | cons line rest ih => exact ih (remembers.turn line)

theorem converse_append (outcome : SessionOutcome) (front behind : List InputLine) :
    converse outcome (front ++ behind) = converse (converse outcome front) behind :=
  List.foldl_append

/-- Lines and the same lines spelled out make the same conversation. -/
theorem converse_spellOut (remembers : Remembers outcome earlier) (lines : List InputLine) :
    converse outcome (spellOut earlier lines) = converse outcome lines := by
  induction lines generalizing outcome earlier with
  | nil => rfl
  | cons line rest ih =>
      have turned : outcome.andThen (turn (spelled earlier line)) = outcome.andThen (turn line) :=
        andThen_congr fun success => turn_spelled (remembers success) line
      show converse (outcome.andThen (turn (spelled earlier line))) _ =
        converse (outcome.andThen (turn line)) rest
      rw [turned]
      exact ih (remembers.turn line)

theorem remembers_help (machine : Machine) (console : Sink) :
    Remembers (ofMachine machine console).help none :=
  fun _ => last_say _ _

/--
Blank lines are exactly repetition.  A session about some input is the session
about the input whose blank lines are spelled out, event by event, whatever its
sinks refuse.  In particular a blank line may be replaced by the last line in
front of it that was recognised, no matter how many lines that are blank or not
recognised stand in between.  In front of all recognised lines a blank line
only makes the session ask for another one.
-/
theorem blank_lines_repeat (machine : Machine) (console : Sink) :
    let session := ofMachine machine console
    (∀ input, session.hold (lines (spellOutBytes input)) = session.hold (lines input)) ∧
    (∀ front named between blank behind, named.spoken?.isSome = true →
      (∀ line ∈ between, line.spoken? = none) → blank.isBlank = true →
      session.hold (front ++ named :: (between ++ blank :: behind)) =
        session.hold (front ++ named :: (between ++ named :: behind))) ∧
    (∀ front blank behind, (∀ line ∈ front, line.spoken? = none) → blank.isBlank = true →
      converse session.help (front ++ blank :: behind) =
        converse ((converse session.help front).andThen prompt) behind) := by
  intro session
  have greeted : Remembers session.help none := remembers_help machine console
  refine ⟨fun input => ?_, ?_, ?_⟩
  · rw [hold_eq_converse, lines_spellOutBytes, converse_spellOut greeted, hold_eq_converse]
  · intro front named between blank behind recognised unspoken isBlank
    obtain ⟨spoken, gives⟩ := Option.isSome_iff_exists.mp recognised
    obtain ⟨content, rfl, word⟩ := spoken?_eq_some gives
    have remembers := greeted.converse (front ++ .text content :: between)
    rw [List.foldl_append, List.foldl_cons, foldl_latest_of_unspoken unspoken, latest, gives,
      Option.some_or] at remembers
    have held (line : InputLine) :
        session.hold (front ++ .text content :: (between ++ line :: behind)) =
          (converse ((converse session.help (front ++ .text content :: between)).andThen
            (turn line)) behind).andThen lastTurn := by
      have split : front ++ .text content :: (between ++ line :: behind) =
          (front ++ .text content :: between) ++ line :: behind := by
        simp
      rw [hold_eq_converse, split, converse_append]
      rfl
    rw [held, held, andThen_congr fun success => turn_of_blank (remembers success) isBlank word]
  · intro front blank behind unspoken isBlank
    have remembers := greeted.converse front
    rw [foldl_latest_of_unspoken unspoken] at remembers
    rw [converse_append]
    exact congrArg (converse · behind)
      (andThen_congr fun success => turn_of_nothing (remembers success) isBlank)

/-- A session about the sample, with blank lines and with these spelled out. -/
theorem blank_lines_of_sample :
    let session := ofMachine (Machine.ofProgram .sample {}) {}
    let input := Text.Utf8.bytes "\ns \r\n\nfoo\n\u2003\nv\n\nc"
    let spelledOut := Text.Utf8.bytes "\ns \r\ns\nfoo\ns\nv\nv\nc"
    spellOutBytes input = spelledOut ∧
      session.hold (lines spelledOut) = session.hold (lines input) := by
  intro session input spelledOut
  have same : spellOutBytes input = spelledOut := by decide +kernel
  exact ⟨same, same ▸ (blank_lines_repeat (.ofProgram .sample {}) {}).1 input⟩

end Session

end Guu.Debugger
