import Guu.Proofs.Journal.Account
import Guu.Proofs.Machine.Refusal
import Mathlib.Data.List.Infix

/-!
# The notes replay the execution

What a machine does is told by its notes.  Whoever knows the program and follows
the notes of an execution knows where the machine stands, what its variables are
and what it has printed, and can tell which calls the call stack had no room for.
This is shown for one step, for a chain of steps, and for all operations that a
machine is driven by, one after the other, whether they fail or not.
-/

namespace Guu

namespace Journal

def printed (journal : Journal) : List Int64 :=
  journal.notes.filterMap Note.printed?

@[simp]
theorem printed_append (earlier later : Journal) :
    printed (earlier ++ later) = earlier.printed ++ later.printed := by
  simp [printed]

end Journal

namespace Account

/-- A journal leads from one account to another, and what it says is printed was written. -/
structure Replays (program : Program) (before : Account) (journal : Journal) (after : Account) :
    Prop where
  told : tellAll? program before journal.notes = some after
  written : Journal.bytesTo .output journal = journal.printed.flatMap Attempt.line

namespace Replays

variable {program : Program} {before between after : Account} {earlier later : Journal}

theorem refl (account : Account) : Replays program account #[] account :=
  ⟨rfl, rfl⟩

theorem append (left : Replays program before earlier between)
    (right : Replays program between later after) :
    Replays program before (earlier ++ later) after where
  told := by rw [Journal.notes_append, tellAll?_append, left.told, Option.bind_some, right.told]
  written := by
    rw [Journal.bytesTo_append, left.written, right.written, Journal.printed_append,
      List.flatMap_append]

/-- A note about something that is not printed. -/
theorem note {note : Note} (tells : Tells program before note after)
    (silent : note.printed? = none) : Replays program before #[.noted note] after where
  told := by simp [Journal.notes, Event.note?, tellAll?_cons, tells_iff.mpr tells]
  written := by
    simp [Journal.bytesTo, Event.bytesTo, Journal.printed, Journal.notes, Event.note?, silent]

end Replays

end Account

namespace Machine

open Account

def account (machine : Machine) (refused : List RuntimeError) : Account :=
  ⟨machine.control, machine.store, refused⟩

def overflow (failure : Option RuntimeError) : List RuntimeError :=
  failure.toList.filter RuntimeError.isOverflow

@[simp]
theorem overflow_none : overflow none = [] :=
  rfl

variable {machine : Machine} {position : Position} {callers : List Position}
  {outcome : MachineOutcome}

/-! ## One step -/

/-- The notes about leaving procedures tell where execution stands then. -/
theorem replays_departures (program : Program) (account : Account) (position : Position)
    (callers : List Position) :
    Replays program (account.standAt position callers) (departures program position callers)
      { account with control := (settle program position callers).control } := by
  induction callers generalizing position with
  | nil =>
      rw [departures, settle]
      split
      · exact .refl _
      · exact .note (.left rfl) rfl
  | cons caller outer ih =>
      have rest := ih caller.next
      rw [departures, settle]
      split
      · exact .refl _
      · have first : Replays program (account.standAt position (caller :: outer))
            #[.noted (.returning (program.nameAt caller))] (account.standAt caller.next outer) :=
          .note (.returned rfl) rfl
        simpa [departures] using first.append rest

theorem replays_start (machine : Machine) (refused : List RuntimeError) :
    Replays machine.program (machine.account refused) machine.start.journal
      (machine.start.state.account refused) := by
  have entered := entered_start machine
  generalize machine.start = outcome at entered
  cases entered with
  | absent ready missing => exact .refl _
  | @entered procedure ready found =>
      have first : Replays machine.program (machine.account refused) #[.noted .entered]
          ((machine.account refused).standAt (.start procedure) []) :=
        .note (.entered ready found) rfl
      exact first.append (replays_departures _ _ _ _)
  | already started => exact .refl _

/-- A printed value is told, and its line is written. -/
theorem replays_print {statement : Statement} {value : Int64} (refused : List RuntimeError)
    (running : machine.control = .running position callers)
    (found : machine.program.statement? position = some statement)
    (written : (machine.write (printedPieces value)).failure = none) :
    Replays machine.program (machine.account refused)
      (announcement statement (.print value) ++ (machine.write (printedPieces value)).journal)
      ((machine.account refused).standAt position.next callers) where
  told := by
    have tells : Tells machine.program (machine.account refused)
        (.executing statement.line (.print value)) _ := .printed running found value
    rw [Journal.notes_append, notes_write, List.append_nil]
    simp [announcement, Journal.notes, Event.note?, tellAll?_cons, tells_iff.mpr tells]
  written := by
    rw [Journal.bytesTo_append, bytesTo_announcement, bytesTo_write_of_success written,
      encode_printedPieces, Journal.printed, Journal.notes_append, notes_write]
    simp [announcement, Journal.notes, Event.note?, Note.printed?]

theorem overflow_of_effect {statement : Statement} {error : RuntimeError}
    (refused : machine.effect statement = .error error) : overflow (some error) = [] := by
  rcases machine.effect_cases statement with
    ⟨_, same⟩ | ⟨_, _, same⟩ | ⟨_, _, _, _, same⟩ | ⟨_, same⟩ | ⟨_, same⟩ <;>
    cases refused.symm.trans same <;> rfl

/-- The notes about a statement tell what executing it does. -/
theorem Executed.replays (executed : Executed machine position callers outcome)
    (running : machine.control = .running position callers)
    (unlimited : machine.output.room = none) (refused : List RuntimeError) :
    Replays machine.program (machine.account refused) outcome.journal
      (outcome.state.account (refused ++ overflow outcome.failure)) := by
  cases executed with
  | absent missing =>
      rw [show overflow (some (.invalidInstruction 0)) = [] from rfl, List.append_nil]
      exact .refl _
  | undefined found refuses =>
      rw [overflow_of_effect refuses, List.append_nil]
      exact .refl _
  | unprinted found defined refuses => simp [write_of_unlimited unlimited] at refuses
  | printed found defined written =>
      rw [overflow_none, List.append_nil, ← Array.append_assoc, state_write]
      exact (replays_print refused running found written).append (replays_departures _ _ _ _)
  | @assigned statement name value found defined =>
      have tells : Tells machine.program (machine.account refused) _ _ :=
        .assigned running found name value
      rw [overflow_none, List.append_nil]
      exact (Replays.note tells rfl).append (replays_departures _ _ _ _)
  | @overflowed statement procedure found defined full =>
      exact .note (.refused running found full procedure) rfl
  | @called statement procedure found defined free =>
      have tells : Tells machine.program (machine.account refused) _ _ :=
        .called running found free procedure
      rw [overflow_none, List.append_nil]
      exact (Replays.note tells rfl).append (replays_departures _ _ _ _)

/-- The notes of a step tell what the step does, whether it succeeds or fails. -/
theorem replays_stepInto (unlimited : machine.output.room = none) (refused : List RuntimeError) :
    Replays machine.program (machine.account refused) machine.stepInto.journal
      (machine.stepInto.state.account (refused ++ overflow machine.stepInto.failure)) := by
  cases entered : machine.start.failure with
  | some error =>
      rw [stepInto_of_start_failure entered,
        show overflow (some .entryPointNotFound) = [] from rfl, List.append_nil]
      exact .refl _
  | none =>
      have first := replays_start machine refused
      rw [stepInto_of_start_success entered]
      rcases finished_or_running (control_start_ne_ready entered) with
        finished | ⟨position, callers, running⟩
      · rw [stepInto_of_finished finished]
        simpa [Outcome.done] using first
      · have second := (executed_stepInto running).replays running (unlimited_start unlimited)
          refused
        rw [program_start] at second
        exact first.append second

/-! ## Chains of steps -/

theorem Execution.replays {continues : Machine → Bool} {count : Nat} {last : Machine}
    {journal : Journal} (execution : Execution continues count machine journal last)
    (unlimited : machine.output.room = none) (refused : List RuntimeError) :
    Replays machine.program (machine.account refused) journal (last.account refused) := by
  induction execution with
  | refl => exact .refl _
  | next unfinished goesOn success rest ih =>
      have first := replays_stepInto unlimited refused
      rw [success, overflow_none, List.append_nil] at first
      have others := ih (unlimited_stepInto _ unlimited)
      rw [program_stepInto] at others
      exact first.append others

theorem Execution.program_eq {continues : Machine → Bool} {count : Nat} {last : Machine}
    {journal : Journal} (execution : Execution continues count machine journal last) :
    last.program = machine.program := by
  have kept (other : Machine) (same : other.program = machine.program)
      (_ : other.stepInto.failure = none) : other.stepInto.state.program = machine.program := by
    rw [program_stepInto, same]
  exact execution.preserves kept rfl

/-- The notes of an operation tell what the operation does. -/
theorem replays_apply (operation : Operation) (unlimited : machine.output.room = none)
    (refused : List RuntimeError) :
    Replays machine.program (machine.account refused) (operation.apply machine).journal
      ((operation.apply machine).state.account
        (refused ++ overflow (operation.apply machine).failure)) := by
  obtain ⟨count, journal, last, execution, ends⟩ := exists_ends_apply operation machine
  have replays := execution.replays unlimited refused
  generalize operation.apply machine = outcome at ends
  cases ends with
  | succeeded => simpa using replays
  | failed failure =>
      have final := replays_stepInto (execution.unlimited unlimited) refused
      rw [execution.program_eq, failure] at final
      exact replays.append final

theorem unlimited_applyAll (unlimited : machine.output.room = none)
    (operations : List Operation) :
    (Operation.applyAll operations machine).state.output.room = none := by
  induction operations using List.reverseRecOn with
  | nil => exact unlimited
  | append_singleton earlier operation ih =>
      rw [Operation.applyAll_concat]
      exact apply_preserves (·.output.room = none) unlimited_stepInto operation ih

theorem program_applyAll (machine : Machine) (operations : List Operation) :
    (Operation.applyAll operations machine).state.program = machine.program := by
  induction operations using List.reverseRecOn with
  | nil => rfl
  | append_singleton earlier operation ih =>
      rw [Operation.applyAll_concat]
      refine apply_preserves (·.program = machine.program) ?_ operation ih
      intro other same
      rw [program_stepInto, same]

def overflows (operations : List Operation) (machine : Machine) : List RuntimeError :=
  operations.inits.flatMap fun earlier => overflow (Operation.applyAll earlier machine).failure

/-- The notes of operations tell what all of them do. -/
theorem replays_applyAll (unlimited : machine.output.room = none) (operations : List Operation) :
    Replays machine.program (machine.account [])
      (Operation.applyAll operations machine).journal
      ((Operation.applyAll operations machine).state.account (overflows operations machine)) := by
  induction operations using List.reverseRecOn with
  | nil => exact .refl _
  | append_singleton earlier operation ih =>
      have last := replays_apply operation (unlimited_applyAll unlimited earlier)
        (overflows earlier machine)
      rw [program_applyAll] at last
      have reported : overflows (earlier ++ [operation]) machine = overflows earlier machine ++
          overflow (operation.apply (Operation.applyAll earlier machine).state).failure := by
        simp [overflows, List.inits_append, Operation.applyAfter]
      rw [reported, Operation.applyAll_concat]
      exact ih.append last

/-! ## All notes of an execution -/

/-- Nothing is noted about a statement with a name that stands for nothing. -/
theorem journal_of_undefined {error : RuntimeError}
    (failure : machine.stepInto.failure = some error) (undefined : error.isUndefined = true) :
    machine.stepInto.journal = machine.start.journal := by
  cases entered : machine.start.failure with
  | some other =>
      rw [stepInto_of_start_failure entered] at failure
      cases failure
      cases undefined
  | none =>
      rw [stepInto_of_start_success entered] at failure ⊢
      rcases finished_or_running (control_start_ne_ready entered) with
        finished | ⟨position, callers, running⟩
      · simp [stepInto_of_finished finished, Outcome.done] at failure
      · have executed := executed_stepInto running
        generalize machine.start.state.stepInto = outcome at executed failure ⊢
        cases executed with
        | absent missing => simp
        | undefined found refuses => simp
        | unprinted found defined refuses =>
            cases failure
            obtain ⟨kind, rfl⟩ := failure_write refuses
            cases undefined
        | overflowed found defined full =>
            cases failure
            cases undefined
        | printed found defined written => cases failure
        | assigned found defined => cases failure
        | called found defined free => cases failure

/--
The notes of an execution replay it, however operations follow each other on a
fresh machine whose output never fails.  Following the notes leads to the place
where the machine stands, to its variables, and to the calls that operations
have reported as refused.  On the way each note makes sense: it has the line of
the statement that is executed, a return goes to the procedure with the latest
call that waits, and `main` returns when no call does.  Entering `main` is noted
first or not at all, and its return last and exactly when execution is over.  The
notes about printed values are the lines of the output, and those about variables
that are set make up the variables.  The calls that have been noted, have not
been refused and have not returned are the frames above `main`.  Every note moves
execution on, unless it is about a refused call, and nothing is noted about a
statement with a name that stands for nothing.
-/
theorem notes_replay_operations {program : Program} {output : Sink}
    (unfailing : output.Unfailing) (operations : List Operation) :
    let fresh := ofProgram program output
    let outcome := Operation.applyAll operations fresh
    let machine := outcome.state
    let notes := outcome.journal.notes
    let refused := overflows operations fresh
    tellAll? program .fresh notes = some ⟨machine.control, machine.store, refused⟩ ∧
    (∀ earlier note later, notes = earlier ++ note :: later →
      ∃ account next, tellAll? program .fresh earlier = some account ∧
        Tells program account note next ∧
        (note = .entered → earlier = []) ∧ (note = .mainReturned → later = []) ∧
        (next.control ≠ account.control ∨ ∃ line procedure,
          note = .executing line (.call procedure) ∧ next = { account with
            refused := account.refused ++ [.stackOverflow account.control.depth line] })) ∧
    Journal.bytesTo .output outcome.journal =
      (notes.filterMap Note.printed?).flatMap Attempt.line ∧
    machine.store = notes.foldl Note.assign .empty ∧
    (machine.control.isRunning = true → notes.countP Note.isCall + 1 =
      notes.countP Note.isReturn + refused.length + machine.depth) ∧
    (.mainReturned ∈ notes ↔ machine.control = .finished) ∧
    (machine.control = .finished →
      notes.countP Note.isCall = notes.countP Note.isReturn + refused.length) ∧
    ∀ error, machine.stepInto.failure = some error → error.isUndefined = true →
      machine.stepInto.journal = machine.start.journal := by
  intro fresh outcome machine notes refused
  have unlimited : fresh.output.room = none := Sink.unfailing_iff.mp unfailing
  have replays : Replays program .fresh outcome.journal (machine.account refused) :=
    replays_applyAll unlimited operations
  have told : tellAll? program .fresh notes = some (machine.account refused) := replays.told
  have balanced := balanced_of_tellAll? told
  refine ⟨told, ?_, replays.written, store_of_tellAll? told, ?_, ?_, ?_,
    fun error => journal_of_undefined⟩
  · intro earlier note later row
    rw [row] at told
    obtain ⟨account, next, before, tells, _⟩ := exists_tells told
    refine ⟨account, next, before, tells, ?_, ?_, ?_⟩
    · rintro rfl
      exact eq_nil_of_entered told
    · rintro rfl
      exact eq_nil_of_mainReturned told
    · by_cases same : next.control = account.control
      · exact .inr (tells.eq_refused same)
      · exact .inl same
  · intro running
    cases control : machine.control with
    | running position callers =>
        simp only [account, control, Account.fresh, Control.waiting, List.length_nil] at balanced
        simp only [depth, control, Control.depth]
        omega
    | ready => simp [control, Control.isRunning] at running
    | finished => simp [control, Control.isRunning] at running
  · exact (finished_iff_of_tellAll? told (by decide)).symm
  · intro finished
    simpa [account, finished, Account.fresh, Control.waiting] using balanced

/-- The notes of the sample, which is stepped over two statements and run from there. -/
theorem replay_of_sample :
    let operations : List Operation := [.stepOver, .stepOver, .run]
    let outcome := Operation.applyAll operations (ofProgram .sample {})
    let notes := outcome.journal.notes
    Sink.Unfailing {} ∧ notes.filterMap Note.printed? = [-7, -7] ∧
      tellAll? .sample .fresh notes = some ⟨outcome.state.control, outcome.state.store, []⟩ ∧
      Journal.bytesTo .output outcome.journal = [-7, -7].flatMap Attempt.line := by
  intro operations outcome notes
  have unfailing : Sink.Unfailing {} := Sink.unfailing_iff.mpr rfl
  have values : notes.filterMap Note.printed? = [-7, -7] := by decide +kernel
  have room : overflows operations (ofProgram .sample {}) = [] := by decide +kernel
  obtain ⟨told, _, written, _⟩ := @notes_replay_operations .sample {} unfailing operations
  exact ⟨unfailing, values, room ▸ told, values ▸ written⟩

end Machine

end Guu
