import Guu.Proofs.Debugger.Line
import Guu.Proofs.Debugger.Turn
import Guu.Proofs.Machine.Writing

/-!
# Inspection does not interfere

Some lines of a debugger's input only make it write to its console: commands
that show something, and words that are no commands.  Without them, a session
over a console that never fails does the same to the program.  Two sessions that
differ in nothing but the command that a blank line would repeat are followed
through every part of a session, and a line that only inspects changes nothing
else.
-/

namespace Guu

structure Sink.Steady (sink : Sink) : Prop where
  unfailing : sink.Unfailing
  flushes : sink.flushFailure = none

namespace Event

def isConsole : Event → Bool
  | wrote channel _ => channel = .console
  | flushed channel => channel = .console
  | noted _ => false

end Event

def Journal.program (journal : Journal) : List Event :=
  journal.toList.filter fun event => !event.isConsole

@[simp]
theorem Journal.program_append (earlier later : Journal) :
    Journal.program (earlier ++ later) = earlier.program ++ later.program := by
  simp [program]

namespace Debugger

def Command.isInspection : Command → Bool
  | inspect | backtrace | help => true
  | _ => false

/-- A word that only inspects: the word of such a command, or of none. -/
structure IsIdle (word : String) : Prop where
  nonempty : word ≠ ""
  inspects : (Command.ofWord? word).all Command.isInspection = true

instance (word : String) : Decidable (IsIdle word) :=
  decidable_of_iff (word ≠ "" ∧ (Command.ofWord? word).all Command.isInspection = true)
    ⟨fun ⟨nonempty, inspects⟩ => ⟨nonempty, inspects⟩, fun idle => ⟨idle.nonempty, idle.inspects⟩⟩

theorem IsIdle.isInspection {word : String} (idle : IsIdle word) {command : Command}
    (recognised : Command.ofWord? word = some command) : command.isInspection = true := by
  simpa [recognised] using idle.inspects

namespace InputLine

/-- A line that repeats the last command. -/
def isBlank : InputLine → Bool
  | text content => (Text.Blank.trim content).isEmpty
  | undecodable => false

/-! ## Deleting lines -/

/-- Some lines of a text that only inspect are deleted, with their line feeds. -/
inductive Thins : List Char → List Char → Prop where
  | keep {line whole thinned : List Char} (inner : '\n' ∉ line) (rest : Thins whole thinned) :
      Thins (line ++ '\n' :: whole) (line ++ '\n' :: thinned)
  | delete {line whole thinned : List Char} (inner : '\n' ∉ line)
      (idle : IsIdle (Text.Blank.trim (String.ofList line))) (rest : Thins whole thinned) :
      Thins (line ++ '\n' :: whole) thinned
  | keepLast {line : List Char} (inner : '\n' ∉ line) : Thins line line
  | deleteLast {line : List Char} (inner : '\n' ∉ line)
      (idle : IsIdle (Text.Blank.trim (String.ofList line))) : Thins line []

inductive Deletes : List InputLine → List InputLine → Prop where
  | nil : Deletes [] []
  | keep {lines thinned : List InputLine} (line : InputLine) (rest : Deletes lines thinned) :
      Deletes (line :: lines) (line :: thinned)
  | delete {lines thinned : List InputLine} {text : String}
      (idle : IsIdle (Text.Blank.trim text)) (rest : Deletes lines thinned) :
      Deletes (.text text :: lines) thinned

theorem Deletes.refl (lines : List InputLine) : Deletes lines lines := by
  induction lines with
  | nil => exact .nil
  | cons line rest ih => exact .keep line ih

open Text.Utf8 in
/-- Deleting lines from a text deletes them from what the debugger reads. -/
theorem Thins.deletes {whole thinned : List Char} (thins : Thins whole thinned) :
    Deletes (lines (encode whole)) (lines (encode thinned)) := by
  induction thins with
  | keep inner rest ih =>
      rw [lines_encode_append inner, lines_encode_append inner]
      exact .keep _ ih
  | delete inner idle rest ih =>
      rw [lines_encode_append inner]
      rw [← trim_withoutReturnAtEnd] at idle
      exact .delete idle ih
  | keepLast inner => exact .refl _
  | @deleteLast line inner idle =>
      have nonempty : line ≠ [] := by
        rintro rfl
        exact idle.nonempty (by decide)
      rw [lines_encode_of_last inner, if_neg nonempty]
      exact .delete idle .nil

end InputLine

namespace Session

/-! ## A console that never fails -/

section Steady

variable {session : Session}

theorem say_of_steady (steady : session.console.Steady) (text : String) :
    session.say text = .after [.wrote .console (Text.Utf8.bytes text)] session := by
  rw [say, Sink.write_unlimited (Sink.unfailing_iff.mp steady.unfailing)]
  rfl

theorem flushConsole_of_steady (steady : session.console.Steady) :
    session.flushConsole = .after [.flushed .console] session := by
  rw [flushConsole, Sink.flush_of_never steady.flushes]

end Steady

/-! ## Sessions that differ in the last command -/

variable {console : Sink}

/-- Two outcomes differ in nothing but the console's events and the last command. -/
structure Agrees (console : Sink) (left right : SessionOutcome) : Prop where
  machine : left.state.machine = right.state.machine
  leftConsole : left.state.console = console
  rightConsole : right.state.console = console
  failure : left.failure = right.failure
  program : left.journal.program = right.journal.program

namespace Agrees

variable {left between right : SessionOutcome} {first second : Session → SessionOutcome}

theorem symm (agrees : Agrees console left right) : Agrees console right left :=
  ⟨agrees.machine.symm, agrees.rightConsole, agrees.leftConsole, agrees.failure.symm,
    agrees.program.symm⟩

theorem trans (agrees : Agrees console left between) (again : Agrees console between right) :
    Agrees console left right :=
  ⟨agrees.machine.trans again.machine, agrees.leftConsole, again.rightConsole,
    agrees.failure.trans again.failure, agrees.program.trans again.program⟩

theorem andThen (agrees : Agrees console left right)
    (following : ∀ machine last other,
      Agrees console (first ⟨machine, console, last⟩) (second ⟨machine, console, other⟩)) :
    Agrees console (left.andThen first) (right.andThen second) := by
  obtain ⟨⟨machine, _, last⟩, before, failed⟩ := left
  obtain ⟨⟨_, _, other⟩, behind, _⟩ := right
  obtain ⟨machines, leftConsole, rightConsole, failures, program⟩ := agrees
  dsimp only at machines leftConsole rightConsole failures program
  subst machines leftConsole rightConsole failures
  cases failed with
  | some error =>
      rw [Outcome.andThen_of_failure rfl, Outcome.andThen_of_failure rfl]
      exact ⟨rfl, rfl, rfl, rfl, program⟩
  | none =>
      rw [Outcome.andThen_of_success rfl, Outcome.andThen_of_success rfl]
      have later := following machine last other
      refine ⟨later.machine, later.leftConsole, later.rightConsole, later.failure, ?_⟩
      rw [Journal.program_append, Journal.program_append, program, later.program]

end Agrees

/-- A part of a session that does not look at the last command. -/
def Respects (console : Sink) (part : Session → SessionOutcome) : Prop :=
  ∀ machine last other,
    Agrees console (part ⟨machine, console, last⟩) (part ⟨machine, console, other⟩)

/-- A part of a session that could as well be left out. -/
def Idle (console : Sink) (part : Session → SessionOutcome) : Prop :=
  ∀ machine last other,
    Agrees console (part ⟨machine, console, last⟩) (.done ⟨machine, console, other⟩)

section Parts

variable {part first second : Session → SessionOutcome}

theorem Respects.andThen (respects : Respects console first)
    (following : Respects console second) :
    Respects console fun session => (first session).andThen second :=
  fun machine last other => (respects machine last other).andThen following

theorem Idle.andThen (idle : Idle console first) (following : Idle console second) :
    Idle console fun session => (first session).andThen second := by
  intro machine last other
  rw [← Outcome.andThen_done (Outcome.done (Session.mk machine console other))]
  exact (idle machine last other).andThen following

theorem Idle.respects (idle : Idle console part) : Respects console part :=
  fun machine last other => (idle machine last other).trans (idle machine other other).symm

end Parts

/-! ## Writing to the console -/

theorem idle_say (steady : console.Steady) (text : Machine → String) :
    Idle console fun session => session.say (text session.machine) := by
  intro machine last other
  dsimp only
  rw [say_of_steady steady]
  exact ⟨rfl, rfl, rfl, rfl, rfl⟩

theorem idle_flushConsole (steady : console.Steady) : Idle console flushConsole := by
  intro machine last other
  rw [flushConsole_of_steady steady]
  exact ⟨rfl, rfl, rfl, rfl, rfl⟩

theorem idle_prompt (steady : console.Steady) : Idle console prompt :=
  (idle_say steady fun _ => "(guu) ").andThen (idle_flushConsole steady)

/-! ## Parts that do not look at the last command -/

theorem respects_failed (events : List Event) (failure : SessionEnd) :
    Respects console fun session => .failed events session failure :=
  fun _ _ _ => ⟨rfl, rfl, rfl, rfl, rfl⟩

theorem respects_flushOutput : Respects console flushOutput := by
  intro machine last other
  unfold flushOutput
  dsimp only
  split <;> exact ⟨rfl, rfl, rfl, rfl, rfl⟩

theorem respects_advance (steady : console.Steady) (move : Machine → MachineOutcome) :
    Respects console (advance move) := by
  intro machine last other
  have moved : Agrees console
      ⟨⟨(move machine).state, console, last⟩, (move machine).journal, none⟩
      ⟨⟨(move machine).state, console, other⟩, (move machine).journal, none⟩ :=
    ⟨rfl, rfl, rfl, rfl, rfl⟩
  unfold advance
  refine moved.andThen (Respects.andThen respects_flushOutput ?_)
  cases (move machine).failure with
  | some error => exact respects_failed [] (.execution error)
  | none => exact (idle_say steady status).respects

theorem respects_obey (steady : console.Steady) (command : Command) :
    Respects console (obey command) := by
  cases command with
  | step => exact respects_advance steady Machine.stepInto
  | next => exact respects_advance steady Machine.stepOver
  | «continue» => exact respects_advance steady Machine.run
  | inspect => exact (idle_say steady Machine.variableReport).respects
  | backtrace => exact (idle_say steady Machine.backtrace).respects
  | help => exact (idle_say steady fun _ => Command.summary ++ "\n").respects
  | quit => exact respects_failed _ .closed

theorem respects_accept (steady : console.Steady) (command : Command) :
    Respects console (accept command) :=
  fun machine _ _ => respects_obey steady command machine (some command) (some command)

/-- Only a blank line looks at the last command. -/
theorem respects_answer (steady : console.Steady) {line : InputLine}
    (filled : line.isBlank = false) : Respects console (answer line) := by
  intro machine last other
  cases line with
  | undecodable => exact respects_failed [] (.stream .undecodable) machine last other
  | text text =>
      have word : (Text.Blank.trim text).isEmpty = false := filled
      simp only [answer, answerText, word, Bool.false_eq_true, if_false]
      cases Command.ofWord? (Text.Blank.trim text) with
      | some command => exact respects_accept steady command machine last other
      | none => exact (idle_say steady fun _ => _).respects machine last other

theorem respects_turn (steady : console.Steady) {line : InputLine}
    (filled : line.isBlank = false) : Respects console (turn line) :=
  (idle_prompt steady).respects.andThen (respects_answer steady filled)

theorem respects_lastTurn (steady : console.Steady) : Respects console lastTurn :=
  (idle_prompt steady).respects.andThen (respects_failed _ .closed)

/-! ## Lines that only inspect -/

theorem idle_obey (steady : console.Steady) {command : Command}
    (inspects : command.isInspection = true) : Idle console (obey command) := by
  cases command with
  | inspect => exact idle_say steady Machine.variableReport
  | backtrace => exact idle_say steady Machine.backtrace
  | help => exact idle_say steady fun _ => Command.summary ++ "\n"
  | step | next | «continue» | quit => cases inspects

theorem idle_answer (steady : console.Steady) {text : String}
    (idle : IsIdle (Text.Blank.trim text)) : Idle console (answer (.text text)) := by
  intro machine last other
  have word : (Text.Blank.trim text).isEmpty = false := by
    simpa [String.isEmpty_iff] using idle.nonempty
  simp only [answer, answerText, word, Bool.false_eq_true, if_false]
  cases recognised : Command.ofWord? (Text.Blank.trim text) with
  | some command =>
      exact idle_obey steady (idle.isInspection recognised) machine (some command) other
  | none => exact idle_say steady (fun _ => _) machine last other

/-- A line that only inspects could as well be left out. -/
theorem idle_turn (steady : console.Steady) {text : String}
    (idle : IsIdle (Text.Blank.trim text)) : Idle console (turn (.text text)) :=
  (idle_prompt steady).andThen (idle_answer steady idle)

/-! ## Whole sessions -/

theorem agrees_converse (steady : console.Steady) {lines thinned : List InputLine}
    (deletes : InputLine.Deletes lines thinned) (filled : ∀ line ∈ lines, line.isBlank = false)
    {left right : SessionOutcome} (agrees : Agrees console left right) :
    Agrees console (converse left lines) (converse right thinned) := by
  -- Kept lines and deleted ones move the two sessions on, which may remember other commands.
  induction deletes generalizing left right with
  | nil => exact agrees
  | keep line rest ih =>
      obtain ⟨first, others⟩ := List.forall_mem_cons.mp filled
      exact ih others (agrees.andThen (respects_turn steady first))
  | delete idle rest ih =>
      obtain ⟨first, others⟩ := List.forall_mem_cons.mp filled
      rw [← Outcome.andThen_done right]
      exact ih others (agrees.andThen (idle_turn steady idle))

/-- A session without some of the lines that only inspect does the same to its machine. -/
theorem agrees_hold (steady : console.Steady) {lines thinned : List InputLine}
    (deletes : InputLine.Deletes lines thinned) (filled : ∀ line ∈ lines, line.isBlank = false)
    (machine : Machine) :
    Agrees console ((ofMachine machine console).hold lines)
      ((ofMachine machine console).hold thinned) := by
  have greeted := (idle_say steady fun _ => Command.summary ++ "\n").respects machine none none
  rw [hold_eq_converse, hold_eq_converse]
  exact (agrees_converse steady deletes filled greeted).andThen (respects_lastTurn steady)

end Session

end Debugger

end Guu
