import Guu.Proofs.Debugger.Inspection
import Guu.Proofs.Machine.Printing

/-!
# The debugger flushes the output in time

A session is the words of all commands and one exchange after the other: a
prompt, a line of input, and what the line makes the session do.  Over sinks
that never fail each exchange is in step, and it flushes the output once if its
command executes statements, and not at all otherwise.
-/

namespace Guu.Debugger

def Command.executes : Command → Bool
  | step | next | «continue» => true
  | _ => false

/-- What a session does about a line: the command that the line stands for, and all events. -/
structure Exchange where
  command : Option Command
  journal : Journal
deriving DecidableEq, Repr

namespace Session

/-! ## Exchanges -/

/-- The command that a line stands for.  For a blank line it is the last one. -/
def command? (session : Session) (line : InputLine) : Option Command :=
  match line with
  | .undecodable => none
  | .text text =>
      let word := Text.Blank.trim text
      if word.isEmpty then session.last else Command.ofWord? word

def exchanges (session : Session) : List InputLine → List Exchange
  | [] => [⟨none, session.lastTurn.journal⟩]
  | line :: rest =>
      let turned := session.turn line
      ⟨session.command? line, turned.journal⟩ ::
        match turned.failure with
        | none => turned.state.exchanges rest
        | some _ => []

/-- A line that stands for a command makes the session obey the command. -/
theorem answer_of_command {session : Session} {line : InputLine} {command : Command}
    (stands : session.command? line = some command) :
    session.answer line = session.accept command := by
  cases line with
  | undecodable => cases stands
  | text text =>
      simp only [command?] at stands
      simp only [answer, answerText]
      split at stands
      · rename_i blank
        rw [if_pos blank, stands]
      · rename_i filled
        rw [if_neg filled, stands]

theorem converse_of_failure {outcome : SessionOutcome} {failure : SessionEnd}
    (failed : outcome.failure = some failure) (lines : List InputLine) :
    converse outcome lines = outcome := by
  induction lines with
  | nil => rfl
  | cons line rest ih =>
      show converse (outcome.andThen (turn line)) rest = outcome
      rw [Outcome.andThen_of_failure failed, ih]

theorem journal_converse {outcome : SessionOutcome} (success : outcome.failure = none)
    (lines : List InputLine) :
    ((converse outcome lines).andThen lastTurn).journal.toList =
      outcome.journal.toList ++
        (outcome.state.exchanges lines).flatMap fun exchange => exchange.journal.toList := by
  induction lines generalizing outcome with
  | nil =>
      show (outcome.andThen lastTurn).journal.toList = _
      rw [Outcome.andThen_of_success success]
      simp [exchanges]
  | cons line rest ih =>
      show ((converse (outcome.andThen (turn line)) rest).andThen lastTurn).journal.toList = _
      rw [Outcome.andThen_of_success success]
      cases turned : (outcome.state.turn line).failure with
      | some failure =>
          rw [converse_of_failure rfl, Outcome.andThen_of_failure rfl]
          simp [exchanges, turned]
      | none =>
          rw [ih rfl]
          simp [exchanges, turned]

/-! ## Sinks that never fail -/

structure Steady (session : Session) : Prop where
  console : session.console.Steady
  output : session.machine.output.Steady

/-- A part of a session that keeps the sinks steady, is in step, and flushes so many times. -/
structure Flushes (count : Nat) (outcome : SessionOutcome) : Prop where
  steady : outcome.state.Steady
  inStep : outcome.journal.InStep
  count_eq : outcome.journal.outputFlushes = count

/-- A part of a session that does nothing to the output. -/
theorem Flushes.of_apart {outcome : SessionOutcome} (steady : outcome.state.Steady)
    (apart : outcome.journal.Apart) : Flushes 0 outcome :=
  ⟨steady, Journal.inStep_of_apart apart, Journal.outputFlushes_of_apart apart⟩

section Parts

variable {session : Session}

theorem flushes_say (steady : session.Steady) (text : String) :
    Flushes 0 (session.say text) := by
  rw [say_of_steady steady.console]
  exact .of_apart steady (by simp [Journal.Apart, Outcome.after, Event.isOutput])

theorem flushes_failed_apart (steady : session.Steady) {events : List Event}
    (apart : Journal.Apart events.toArray) (failure : SessionEnd) :
    Flushes 0 (.failed events session failure) :=
  .of_apart steady apart

theorem prompt_of_steady (steady : session.console.Steady) :
    session.prompt =
      .after [.wrote .console (Text.Utf8.bytes "(guu) "), .flushed .console] session := by
  rw [prompt, say_of_steady steady, Outcome.andThen_of_success rfl]
  simp [Outcome.after, flushConsole_of_steady steady]

theorem flushOutput_of_steady (steady : session.machine.output.Steady) :
    session.flushOutput = .after [.flushed .output] session := by
  rw [flushOutput, Sink.flush_of_never steady.flushes]

/-- Events in front of a part of a session, which are in step, add their flushes. -/
theorem Flushes.behind {count more : Nat} {journal : Journal} {outcome : SessionOutcome}
    (inStep : journal.InStep) (count_eq : journal.outputFlushes = count)
    (flushes : Flushes more outcome) :
    Flushes (count + more) ⟨outcome.state, journal ++ outcome.journal, outcome.failure⟩ where
  steady := flushes.steady
  inStep := inStep.append flushes.inStep
  count_eq := by rw [Journal.outputFlushes_append, count_eq, flushes.count_eq]

/-- What follows the prompt decides about the flushes. -/
theorem flushes_prompt_andThen (steady : session.Steady) {count : Nat}
    {following : Session → SessionOutcome} (flushes : Flushes count (following session)) :
    Flushes count (session.prompt.andThen following) := by
  have asked : Journal.Apart
      #[.wrote .console (Text.Utf8.bytes "(guu) "), .flushed .console] := by
    simp [Journal.Apart, Event.isOutput]
  rw [prompt_of_steady steady.console, Outcome.andThen_of_success rfl, ← Nat.zero_add count]
  exact .behind (Journal.inStep_of_apart asked) (Journal.outputFlushes_of_apart asked) flushes

/-- Executing statements flushes the output once, also if it fails. -/
theorem flushes_advance (steady : session.Steady) (operation : Operation) :
    Flushes 1 (session.advance operation.apply) := by
  have unlimited := Sink.unfailing_iff.mp steady.output.unfailing
  let moved := operation.apply session.machine
  let behind : Session := { session with machine := moved.state }
  have steadyBehind : behind.Steady :=
    ⟨steady.console, (Machine.output_apply operation unlimited) ▸ steady.output⟩
  have internal : moved.journal.Internal := Machine.internal_apply operation session.machine
  have flushed : Journal.outputFlushes (moved.journal ++ #[.flushed .output]) = 1 := by
    rw [Journal.outputFlushes_append, Journal.outputFlushes_of_internal internal]
    rfl
  unfold advance
  rw [Outcome.andThen_of_success rfl, flushOutput_of_steady steadyBehind.output,
    Outcome.andThen_of_success rfl]
  dsimp only [Outcome.after]
  rw [← Array.append_assoc, ← Nat.add_zero 1]
  refine .behind (Journal.inStep_flush internal) flushed ?_
  cases moved.failure with
  | some error => exact flushes_failed_apart steadyBehind (by simp [Journal.Apart]) _
  | none => exact flushes_say steadyBehind _

theorem flushes_obey (steady : session.Steady) (command : Command) :
    Flushes (if command.executes then 1 else 0) (session.obey command) := by
  cases command with
  | step => exact flushes_advance steady .stepInto
  | next => exact flushes_advance steady .stepOver
  | «continue» => exact flushes_advance steady .run
  | inspect => exact flushes_say steady _
  | backtrace => exact flushes_say steady _
  | help => exact flushes_say steady _
  | quit => exact flushes_failed_apart steady (by simp [Journal.Apart, Event.isOutput]) _

theorem flushes_answer (steady : session.Steady) (line : InputLine) :
    Flushes (if (session.command? line).any Command.executes then 1 else 0)
      (session.answer line) := by
  cases stands : session.command? line with
  | some command =>
      have remembered : { session with last := some command }.Steady :=
        ⟨steady.console, steady.output⟩
      rw [answer_of_command stands]
      exact flushes_obey remembered command
  | none =>
      cases line with
      | undecodable => exact flushes_failed_apart steady (by simp [Journal.Apart]) _
      | text text =>
          simp only [command?] at stands
          simp only [answer, answerText]
          split at stands
          · rename_i blank
            rw [if_pos blank, stands]
            exact .of_apart steady (by simp [Journal.Apart, Outcome.done])
          · rename_i filled
            rw [if_neg filled, stands]
            exact flushes_say steady _

theorem flushes_turn (steady : session.Steady) (line : InputLine) :
    Flushes (if (session.command? line).any Command.executes then 1 else 0)
      (session.turn line) :=
  flushes_prompt_andThen steady (flushes_answer steady line)

theorem flushes_lastTurn (steady : session.Steady) : Flushes 0 session.lastTurn :=
  flushes_prompt_andThen steady
    (flushes_failed_apart steady (by simp [Journal.Apart, Event.isOutput]) _)

end Parts

/-! ## Whole sessions -/

theorem flushes_exchanges {session : Session} (steady : session.Steady) (lines : List InputLine) :
    ∀ exchange ∈ session.exchanges lines, exchange.journal.InStep ∧
      exchange.journal.outputFlushes =
        if exchange.command.any Command.executes then 1 else 0 := by
  induction lines generalizing session with
  | nil =>
      have last := flushes_lastTurn steady
      simpa [exchanges] using And.intro last.inStep last.count_eq
  | cons line rest ih =>
      have turned := flushes_turn steady line
      intro exchange member
      rw [exchanges] at member
      rcases List.mem_cons.mp member with rfl | later
      · exact ⟨turned.inStep, turned.count_eq⟩
      · cases failed : (session.turn line).failure with
        | some failure => simp [failed] at later
        | none =>
            rw [failed] at later
            exact ih turned.steady exchange later

/-- A session over sinks that never fail is in step, and it is made of its exchanges. -/
theorem inStep_hold {session : Session} (steady : session.Steady) (lines : List InputLine) :
    (session.hold lines).journal.InStep ∧
      (session.hold lines).journal.toList = session.help.journal.toList ++
        (session.exchanges lines).flatMap fun exchange => exchange.journal.toList := by
  have greeted : session.help =
      .after [.wrote .console (Text.Utf8.bytes (Command.summary ++ "\n"))] session :=
    say_of_steady steady.console _
  have parts : (session.hold lines).journal.toList = session.help.journal.toList ++
      (session.exchanges lines).flatMap fun exchange => exchange.journal.toList := by
    rw [hold_eq_converse, journal_converse (by rw [greeted]; rfl), greeted]
    rfl
  have whole : (session.hold lines).journal = session.help.journal ++
      ((session.exchanges lines).flatMap fun exchange => exchange.journal.toList).toArray := by
    rw [← Array.toList_inj, parts, Array.toList_append]
  refine ⟨?_, parts⟩
  rw [whole]
  exact (flushes_say steady _).inStep.append
    (Journal.inStep_flatMap fun exchange member =>
      (flushes_exchanges steady lines exchange member).1)

end Session

end Guu.Debugger
