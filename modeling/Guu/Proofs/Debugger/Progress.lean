import Guu.Proofs.Debugger.Inspection
import Guu.Proofs.Machine.Printing
import Guu.Proofs.Machine.Redirection

/-!
# A session follows the execution of its program

Every part of a session either executes statements of the program or leaves the
machine where it is, except for its output, which may be flushed.  As long as this
output takes whatever is written to it, a session therefore stands somewhere on
the one execution that the program has, whatever its commands are and whatever
becomes of the console and of the flushes.
-/

namespace Guu

open Machine

namespace Debugger

structure SessionEnd.Reports (failure : Option RuntimeError) (ended : Option SessionEnd) :
    Prop where
  of_success : ended = none → failure = none
  of_execution : ∀ error, ended = some (.execution error) → failure = some error

namespace Session

/-! ## Parts that execute nothing -/

/-- A part of a session that executes nothing, and that fails like the operation in front of it. -/
structure Silent (session : Session) (failure : Option RuntimeError) (outcome : SessionOutcome) :
    Prop where
  machine : outcome.state.machine = session.machine.redirect outcome.state.machine.output
  room : outcome.state.machine.output.room = session.machine.output.room
  unwritten : outcome.journal.bytesTo .output = []
  reports : SessionEnd.Reports failure outcome.failure

theorem silent_say (text : String) (session : Session) :
    Silent session none (session.say text) := by
  unfold say
  dsimp only
  split
  · exact ⟨rfl, rfl, rfl, fun _ => rfl, nofun⟩
  · exact ⟨rfl, rfl, rfl, nofun, nofun⟩

theorem silent_flushConsole (session : Session) : Silent session none session.flushConsole := by
  unfold flushConsole
  dsimp only
  split
  · exact ⟨rfl, rfl, rfl, fun _ => rfl, nofun⟩
  · exact ⟨rfl, rfl, rfl, nofun, nofun⟩

theorem silent_close (session : Session) : Silent session none session.close :=
  ⟨rfl, rfl, rfl, nofun, nofun⟩

/-- Behind an operation a session tells its failure, or where the machine stands. -/
theorem silent_verdict (failure : Option RuntimeError) (session : Session) :
    Silent session failure
      (match failure with
        | some error => .failed [] session (.execution error)
        | none => session.say (status session.machine)) := by
  cases failure with
  | none => exact silent_say _ session
  | some error =>
      refine ⟨rfl, rfl, rfl, nofun, fun other same => ?_⟩
      cases same
      rfl

/-- What an operation printed is flushed before the session says how the operation ended. -/
theorem silent_flushOutput_andThen {failure : Option RuntimeError}
    {following : Session → SessionOutcome}
    (later : ∀ session, Silent session failure (following session)) (session : Session) :
    Silent session failure (session.flushOutput.andThen following) := by
  have room : session.machine.output.flush.sink.room = session.machine.output.room := by
    rw [Sink.sink_flush]
  unfold flushOutput
  dsimp only
  split
  · rw [Outcome.andThen_of_success rfl]
    have behind := later { session with
      machine := { session.machine with output := session.machine.output.flush.sink } }
    refine ⟨behind.machine, behind.room.trans room, ?_, behind.reports⟩
    rw [Journal.bytesTo_append]
    exact behind.unwritten
  · exact ⟨rfl, room, rfl, nofun, nofun⟩

/-! ## Parts that stay on the execution -/

/-- A machine over an output that takes everything lies on the execution from another one. -/
structure Lies (first machine : Machine) (journal : Journal) (failure : Option RuntimeError) :
    Prop where
  unlimited : machine.output.room = none
  onExecution : OnExecution first ⟨machine.redirect first.output, journal, failure⟩

/-- What a session left lies on the execution from a machine. -/
def Follows (first : Machine) (outcome : SessionOutcome) : Prop :=
  ∃ failure, Lies first outcome.state.machine outcome.journal failure ∧
    SessionEnd.Reports failure outcome.failure

def Stays (first : Machine) (session : Session) (outcome : SessionOutcome) : Prop :=
  ∀ journal, Lies first session.machine journal none →
    Follows first ⟨outcome.state, journal ++ outcome.journal, outcome.failure⟩

variable {first : Machine} {session : Session}

theorem Follows.of_success {outcome : SessionOutcome} (follows : Follows first outcome)
    (success : outcome.failure = none) : Lies first outcome.state.machine outcome.journal none := by
  obtain ⟨failure, lies, reports⟩ := follows
  rwa [reports.of_success success] at lies

/-- Events that write nothing to the output do not matter. -/
theorem onExecution_append {machine : Machine} {journal later : Journal}
    {failure : Option RuntimeError} (onExecution : OnExecution first ⟨machine, journal, failure⟩)
    (unwritten : later.bytesTo .output = []) :
    OnExecution first ⟨machine, journal ++ later, failure⟩ := by
  cases onExecution with
  | arrived execution same =>
      exact .arrived execution (by rw [Journal.bytesTo_append, unwritten, List.append_nil, same])
  | failed execution failure same =>
      exact .failed execution failure
        (by rw [Journal.bytesTo_append, unwritten, List.append_nil, same])

theorem Silent.follows {failure : Option RuntimeError} {outcome : SessionOutcome}
    (silent : Silent session failure outcome) {journal : Journal}
    (lies : Lies first session.machine journal failure) :
    Follows first ⟨outcome.state, journal ++ outcome.journal, outcome.failure⟩ := by
  refine ⟨failure, ⟨silent.room.trans lies.unlimited, ?_⟩, silent.reports⟩
  dsimp only
  rw [silent.machine, redirect_redirect]
  exact onExecution_append lies.onExecution silent.unwritten

theorem Silent.stays {outcome : SessionOutcome} (silent : Silent session none outcome) :
    Stays first session outcome :=
  fun _ lies => silent.follows lies

theorem Stays.andThen {outcome : SessionOutcome} {following : Session → SessionOutcome}
    (stays : Stays first session outcome)
    (later : ∀ session, Stays first session (following session)) :
    Stays first session (outcome.andThen following) := by
  intro journal lies
  have follows := stays journal lies
  cases failed : outcome.failure with
  | some error =>
      rw [Outcome.andThen_of_failure failed]
      exact follows
  | none =>
      rw [Outcome.andThen_of_success failed]
      have behind := later outcome.state _ (follows.of_success failed)
      rwa [Array.append_assoc] at behind

theorem Follows.andThen {outcome : SessionOutcome} {following : Session → SessionOutcome}
    (follows : Follows first outcome)
    (later : ∀ session, Stays first session (following session)) :
    Follows first (outcome.andThen following) := by
  cases failed : outcome.failure with
  | some error => rwa [Outcome.andThen_of_failure failed]
  | none =>
      rw [Outcome.andThen_of_success failed]
      exact later outcome.state _ (follows.of_success failed)

/-- Commands that execute statements go on with the execution. -/
theorem stays_advance (unlimited : first.output.room = none) (operation : Operation)
    (session : Session) : Stays first session (session.advance operation.apply) := by
  intro journal lies
  have same := apply_redirect lies.unlimited unlimited operation
  have moved : Lies first (operation.apply session.machine).state
      (journal ++ (operation.apply session.machine).journal)
      (operation.apply session.machine).failure := by
    refine ⟨by rw [output_apply operation lies.unlimited, lies.unlimited], ?_⟩
    have applied := lies.onExecution.applyAfter unlimited operation
    rwa [Operation.applyAfter, same] at applied
  have silent :=
    silent_flushOutput_andThen (silent_verdict (operation.apply session.machine).failure)
      { session with machine := (operation.apply session.machine).state }
  have follows := silent.follows moved
  rw [Array.append_assoc] at follows
  unfold advance
  rw [Outcome.andThen_of_success rfl]
  exact follows

theorem stays_prompt (session : Session) : Stays first session session.prompt :=
  (silent_say _ session).stays.andThen fun session => (silent_flushConsole session).stays

theorem stays_obey (unlimited : first.output.room = none) (command : Command)
    (session : Session) : Stays first session (session.obey command) := by
  cases command with
  | step => exact stays_advance unlimited .stepInto session
  | next => exact stays_advance unlimited .stepOver session
  | «continue» => exact stays_advance unlimited .run session
  | inspect | backtrace | help => exact (silent_say _ session).stays
  | quit => exact (silent_close session).stays

theorem stays_accept (unlimited : first.output.room = none) (command : Command)
    (session : Session) : Stays first session (session.accept command) :=
  stays_obey unlimited command { session with last := some command }

theorem stays_answer (unlimited : first.output.room = none) (line : InputLine)
    (session : Session) : Stays first session (session.answer line) := by
  cases line with
  | undecodable =>
      have silent : Silent session none (.failed [] session (.stream .undecodable)) :=
        ⟨rfl, rfl, rfl, nofun, nofun⟩
      exact silent.stays
  | text text =>
      have silent : Silent session none (.done session) := ⟨rfl, rfl, rfl, fun _ => rfl, nofun⟩
      unfold answer answerText
      dsimp only
      split
      · cases session.last with
        | none => exact silent.stays
        | some command => exact stays_accept unlimited command session
      · cases Command.ofWord? (Text.Blank.trim text) with
        | some command => exact stays_accept unlimited command session
        | none => exact (silent_say _ session).stays

theorem stays_turn (unlimited : first.output.room = none) (line : InputLine)
    (session : Session) : Stays first session (session.turn line) :=
  (stays_prompt session).andThen (stays_answer unlimited line)

theorem stays_lastTurn (session : Session) : Stays first session session.lastTurn :=
  (stays_prompt session).andThen fun session => (silent_close session).stays

theorem follows_converse (unlimited : first.output.room = none) (lines : List InputLine)
    {outcome : SessionOutcome} (follows : Follows first outcome) :
    Follows first (converse outcome lines) := by
  induction lines generalizing outcome with
  | nil => exact follows
  | cons line rest ih => exact ih (follows.andThen (stays_turn unlimited line))

/-- A session stands on the execution of its machine, whatever its lines and its console are. -/
theorem follows_hold (unlimited : first.output.room = none) (console : Sink)
    (lines : List InputLine) : Follows first ((ofMachine first console).hold lines) := by
  have fresh : Lies first first #[] none := ⟨unlimited, .arrived (.refl first) rfl⟩
  have greeted := (silent_say (Command.summary ++ "\n") (ofMachine first console)).stays #[] fresh
  rw [Array.empty_append] at greeted
  rw [hold_eq_converse]
  exact (follows_converse unlimited lines greeted).andThen stays_lastTurn

/--
Lines that only inspect may be deleted from the input of a session: if no line
of the input is blank and the console never fails, the session ends as before,
leaves the same machine and does the same to the output in the same order.  If
the output takes whatever is written to it, then the session has written a
beginning of what a run writes, an error of execution is that of a run, and
where execution is over a run has written the same and has the same variables.
-/
theorem inspection_does_not_interfere {program : Program} {output console : Sink}
    (steady : console.Steady) {input : List UInt8} {text thinned : String}
    (decoded : Text.Utf8.decode? input = some text)
    (filled : ∀ line ∈ InputLine.lines input, line.isBlank = false)
    (thins : InputLine.Thins text.toList thinned.toList) :
    let fresh := Machine.ofProgram program output
    let session := ofMachine fresh console
    let whole := session.hold (InputLine.lines input)
    let less := session.hold (InputLine.lines (Text.Utf8.bytes thinned))
    whole.failure = less.failure ∧ whole.state.machine = less.state.machine ∧
      whole.journal.program = less.journal.program ∧
      (output.Unfailing →
        whole.journal.bytesTo .output <+: fresh.run.journal.bytesTo .output ∧
        (∀ error, whole.failure = some (.execution error) → fresh.run.failure = some error) ∧
        (whole.state.machine.control = .finished →
          whole.journal.bytesTo .output = fresh.run.journal.bytesTo .output ∧
          whole.state.machine.store = fresh.run.state.store)) := by
  intro fresh session whole less
  have deletes : InputLine.Deletes (InputLine.lines input)
      (InputLine.lines (Text.Utf8.bytes thinned)) := by
    rw [Text.Utf8.decode?_eq_some_iff.mp decoded]
    exact thins.deletes
  have agrees : Agrees console whole less := agrees_hold steady deletes filled fresh
  refine ⟨agrees.failure, agrees.machine, agrees.program, fun unfailing => ?_⟩
  obtain ⟨failure, ⟨_, onExecution⟩, reports⟩ : Follows fresh whole :=
    follows_hold (Sink.unfailing_iff.mp unfailing) console (InputLine.lines input)
  refine ⟨onExecution.prefix_run, fun error ended => ?_, fun finished => ?_⟩
  · exact (onExecution.run_of_failure (reports.of_execution error ended)).1
  · obtain ⟨same, written⟩ := onExecution.run_of_finished finished
    refine ⟨written.symm, ?_⟩
    rw [same]
    rfl

/-- A session that runs into the failure of the sample, with and without lines that inspect. -/
theorem inspection_of_sample :
    let input := "s\nv\nfoo\r\nc\nbt"
    let thinned := "s\nc\n"
    let fresh := Machine.ofProgram .sample {}
    let session := ofMachine fresh {}
    let whole := session.hold (InputLine.lines (Text.Utf8.bytes input))
    let less := session.hold (InputLine.lines (Text.Utf8.bytes thinned))
    let error := RuntimeError.undefinedProcedure "nowhere" 5
    Sink.Steady {} ∧ InputLine.Thins input.toList thinned.toList ∧
      whole.failure = some (.execution error) ∧ less.failure = some (.execution error) ∧
      less.state.machine = whole.state.machine ∧ less.journal.program = whole.journal.program ∧
      fresh.run.failure = some error ∧
      less.journal.bytesTo .console ≠ whole.journal.bytesTo .console := by
  intro input thinned fresh session whole less error
  have steady : Sink.Steady {} := ⟨Sink.unfailing_iff.mpr rfl, rfl⟩
  have decoded : Text.Utf8.decode? (Text.Utf8.bytes input) = some input :=
    Text.Utf8.decode?_eq_some_iff.mpr rfl
  have filled : ∀ line ∈ InputLine.lines (Text.Utf8.bytes input), line.isBlank = false := by
    decide +kernel
  have spelled : input.toList = ['s'] ++ '\n' :: (['v'] ++ '\n' ::
      ("foo\r".toList ++ '\n' :: (['c'] ++ '\n' :: ['b', 't']))) := by
    decide
  have thinnedSpelled : thinned.toList = ['s'] ++ '\n' :: (['c'] ++ '\n' :: []) := by
    decide
  have thins : InputLine.Thins input.toList thinned.toList := by
    rw [spelled, thinnedSpelled]
    exact .keep (by decide) <| .delete (by decide) (by decide) <|
      .delete (by decide) (by decide) <| .keep (by decide) <| .deleteLast (by decide) (by decide)
  have failed : whole.failure = some (.execution error) := by decide +kernel
  have inspected : less.journal.bytesTo .console ≠ whole.journal.bytesTo .console := by
    decide +kernel
  obtain ⟨failure, machine, program, confluent⟩ :=
    @inspection_does_not_interfere .sample {} {} steady _ _ _ decoded filled thins
  obtain ⟨_, ran, _⟩ := confluent steady.unfailing
  exact ⟨steady, thins, failed, failure.symm.trans failed, machine.symm, program.symm,
    ran error failed, inspected⟩

end Session

end Debugger

end Guu
