import Guu.Proofs.Journal.Attempt
import Guu.Proofs.Machine.Confluence

/-!
# Steps over an output that refuses bytes

A step does the same over every output, with one exception: where the line of a
printed value is refused, the machine stays in front of the statement that
prints it.  So whatever the output refuses, a machine stands somewhere on the
execution over an output that never fails.
-/

namespace Guu

namespace Sink

/-- What a sink takes of bytes that are too long for it is a proper beginning of them. -/
theorem taken_of_incomplete {sink : Sink} {bytes : List UInt8}
    (incomplete : (sink.write bytes).complete = false) :
    (sink.write bytes).taken <+: bytes ∧ (sink.write bytes).taken.length < bytes.length := by
  unfold write at *
  cases limit : sink.room with
  | none => simp [limit] at incomplete
  | some room =>
      simp only [limit] at incomplete ⊢
      split at incomplete
      · cases incomplete
      · rename_i tooLong
        simp only [tooLong, if_false]
        exact ⟨List.take_prefix room bytes, by rw [List.length_take]; omega⟩

end Sink

namespace Machine

def redirect (machine : Machine) (output : Sink) : Machine :=
  { machine with output := output }

section Redirect

variable (machine : Machine) (output : Sink)

@[simp]
theorem program_redirect : (machine.redirect output).program = machine.program :=
  rfl

@[simp]
theorem redirect_redirect (other : Sink) :
    (machine.redirect other).redirect output = machine.redirect output :=
  rfl

theorem resume_redirect (position : Position) (callers : List Position) :
    (machine.redirect output).resume position callers =
      (machine.resume position callers).redirect output :=
  rfl

theorem value_redirect (line : Nat) (operand : Operand) :
    (machine.redirect output).value line operand = machine.value line operand := by
  cases operand <;> rfl

theorem effect_redirect (statement : Statement) :
    (machine.redirect output).effect statement = machine.effect statement := by
  obtain ⟨line, instruction⟩ := statement
  cases instruction <;> simp only [effect, value_redirect, program_redirect]

theorem state_write_eq_redirect (pieces : List (List Char)) :
    (machine.write pieces).state = machine.redirect (machine.write pieces).state.output :=
  state_write machine pieces

theorem start_redirect :
    (machine.redirect output).start =
      ⟨machine.start.state.redirect output, machine.start.journal, machine.start.failure⟩ := by
  have control : (machine.redirect output).control = machine.control := rfl
  by_cases ready : machine.control = .ready
  · cases found : machine.program.find? Program.entryPoint with
    | none => rw [start_of_absent ready found, start_of_absent (control.trans ready) found]
    | some procedure =>
        rw [start_of_ready ready found, start_of_ready (control.trans ready) found]
        rfl
  · rw [start_of_not_ready ready, start_of_not_ready (control ▸ ready)]
    rfl

end Redirect

/-! ## Writing the line of a value -/

theorem exists_wrote_of_mem_write {machine : Machine} {pieces : List (List Char)} {event : Event}
    (member : event ∈ (machine.write pieces).journal.toList) :
    ∃ bytes, event = .wrote .output bytes := by
  induction pieces generalizing machine with
  | nil => simp [write, Outcome.done] at member
  | cons piece rest ih =>
      simp only [write] at member
      split at member
      · rw [Outcome.andThen_of_success rfl] at member
        simp only [Outcome.after, Array.toList_append, List.cons_append, List.nil_append,
          List.mem_cons] at member
        rcases member with same | later
        · exact ⟨_, same⟩
        · exact ih later
      · simp only [Outcome.failed, List.mem_cons, List.not_mem_nil, or_false] at member
        exact ⟨_, member⟩

theorem quiet_write {machine : Machine} {pieces : List (List Char)} :
    ∀ event ∈ (machine.write pieces).journal.toList, Attempt.isQuiet event = true := by
  intro event member
  obtain ⟨bytes, rfl⟩ := exists_wrote_of_mem_write member
  rfl

/-- Writing that succeeds writes everything. -/
theorem bytesTo_write_of_success {machine : Machine} {pieces : List (List Char)}
    (success : (machine.write pieces).failure = none) :
    (machine.write pieces).journal.bytesTo .output = Text.Utf8.encode pieces.flatten := by
  induction pieces generalizing machine with
  | nil => rfl
  | cons piece rest ih =>
      simp only [write] at success ⊢
      split at success
      · rename_i complete
        simp only [complete, if_true]
        rw [Outcome.andThen_of_success rfl] at success ⊢
        have taken := Sink.taken_of_complete complete
        rw [Journal.bytesTo_append, ih success]
        simp [Outcome.after, Journal.bytesTo, Event.bytesTo, taken]
      · cases success

/-- Writing that fails writes a proper beginning. -/
theorem bytesTo_write_of_failure {machine : Machine} {pieces : List (List Char)}
    {error : RuntimeError} (failure : (machine.write pieces).failure = some error) :
    (machine.write pieces).journal.bytesTo .output <+: Text.Utf8.encode pieces.flatten ∧
      ((machine.write pieces).journal.bytesTo .output).length <
        (Text.Utf8.encode pieces.flatten).length := by
  induction pieces generalizing machine with
  | nil => cases failure
  | cons piece rest ih =>
      simp only [write] at failure ⊢
      split at failure
      · rename_i complete
        simp only [complete, if_true]
        rw [Outcome.andThen_of_success rfl] at failure ⊢
        have taken := Sink.taken_of_complete complete
        obtain ⟨begins, shorter⟩ := ih failure
        rw [Journal.bytesTo_append]
        simpa [Outcome.after, Journal.bytesTo, Event.bytesTo, taken] using And.intro begins shorter
      · rename_i incomplete
        simp only [Bool.not_eq_true] at incomplete
        obtain ⟨begins, shorter⟩ := Sink.taken_of_incomplete incomplete
        simp only [incomplete, Bool.false_eq_true, if_false, Outcome.failed, Journal.bytesTo,
          Event.bytesTo, List.flatMap_cons, List.flatMap_nil, List.append_nil, if_true,
          List.flatten_cons, Text.Utf8.encode_append, List.length_append]
        exact ⟨begins.trans (List.prefix_append _ _), Nat.lt_add_right _ shorter⟩

theorem encode_printedPieces (value : Int64) :
    Text.Utf8.encode (printedPieces value).flatten = Attempt.line value := by
  simp [printedPieces, Attempt.line, Text.Utf8.bytes, Text.Decimal.render]

/-! ## Steps -/

open Attempt in
/--
How a step compares with the same step over an output that never fails.  It
does the same, or the line of a value is refused that the other step prints.
-/
inductive Matches (ideal : Machine) : MachineOutcome → Prop where
  | succeeded {left : Sink} {journal : Journal} {values : List Int64}
      (success : ideal.stepInto.failure = none)
      (prints : Amounts false ideal.stepInto.journal (values.map whole))
      (same : Amounts false journal (values.map whole)) :
      Matches ideal ⟨ideal.stepInto.state.redirect left, journal, none⟩
  | failed {left : Sink} {events journal : Journal} {error : RuntimeError}
      (failure : ideal.stepInto = ⟨ideal, events, some error⟩)
      (other : blamesOutput (some error) = false) (prints : Amounts false events [])
      (same : Amounts false journal []) :
      Matches ideal ⟨ideal.redirect left, journal, some error⟩
  | refused {left : Sink} {journal : Journal} {kind : FailureKind} {line : Nat} {value : Int64}
      {taken : List UInt8} (success : ideal.stepInto.failure = none)
      (prints : Amounts false ideal.stepInto.journal [whole value])
      (orderly : Orderly ⟨value, taken, true⟩)
      (broken : Amounts true journal [⟨value, taken, true⟩])
      (announced : journal.notes.getLast? = some (.executing line (.print value)))
      (expected : ∀ output, (ideal.redirect output).stepInto.journal.notes.head? =
        some (.executing line (.print value))) :
      Matches ideal ⟨ideal.redirect left, journal, some (.output kind)⟩

section Steps

variable {machine : Machine} {position : Position} {callers : List Position}
  {statement : Statement}

open Attempt

theorem quiet_departures (program : Program) (position : Position) (callers : List Position) :
    ∀ event ∈ (departures program position callers).toList, isQuiet event = true := by
  unfold departures
  induction callers generalizing position with
  | nil =>
      unfold settle
      split <;> simp [isQuiet]
  | cons caller outer ih =>
      unfold settle
      split
      · simp
      · simpa [isQuiet] using ih caller.next

theorem amounts_departures (program : Program) (position : Position) (callers : List Position) :
    Amounts false (departures program position callers) [] :=
  .of_quiet (quiet_departures program position callers)
    (bytesTo_departures program position callers)

/-- A step announces the effect of its statement, and carries it out. -/
theorem stepInto_of_effect {effect : Effect} (running : machine.control = .running position callers)
    (found : machine.program.statement? position = some statement)
    (defined : machine.effect statement = .ok effect) :
    machine.stepInto =
      ⟨(machine.perform position callers statement.line effect).state,
        announcement statement effect ++
          (machine.perform position callers statement.line effect).journal,
        (machine.perform position callers statement.line effect).failure⟩ := by
  rw [stepInto_of_not_ready (by simp [running]), execute_of_effect running found defined]

theorem stepInto_of_error {error : RuntimeError}
    (running : machine.control = .running position callers)
    (found : machine.program.statement? position = some statement)
    (refused : machine.effect statement = .error error) :
    machine.stepInto = ⟨machine, #[], some error⟩ := by
  rw [stepInto_of_not_ready (by simp [running]), execute_of_error running found refused]

theorem stepInto_of_absent (running : machine.control = .running position callers)
    (missing : machine.program.statement? position = none) :
    machine.stepInto = ⟨machine, #[], some (.invalidInstruction 0)⟩ := by
  rw [stepInto_of_not_ready (by simp [running])]
  simp only [execute, running, missing]
  rfl

theorem stepInto_of_printed {value : Int64}
    (running : machine.control = .running position callers)
    (found : machine.program.statement? position = some statement)
    (defined : machine.effect statement = .ok (.print value))
    (written : (machine.write (printedPieces value)).failure = none) :
    machine.stepInto =
      ⟨(machine.write (printedPieces value)).state.resume position.next callers,
        announcement statement (.print value) ++ ((machine.write (printedPieces value)).journal ++
          departures machine.program position.next callers),
        none⟩ := by
  rw [stepInto_of_effect running found defined]
  simp only [perform]
  rw [Outcome.andThen_of_success written]
  simp only [moveTo_eq_resume, program_write]

/-- Whatever becomes of its line, a value that is printed is announced first. -/
theorem head?_notes_of_print {value : Int64}
    (running : machine.control = .running position callers)
    (found : machine.program.statement? position = some statement)
    (defined : machine.effect statement = .ok (.print value)) :
    machine.stepInto.journal.notes.head? = some (.executing statement.line (.print value)) := by
  rw [stepInto_of_effect running found defined]
  simp [announcement, Journal.notes, Event.note?]

theorem notes_write (machine : Machine) (pieces : List (List Char)) :
    (machine.write pieces).journal.notes = [] := by
  rw [Journal.notes, List.filterMap_eq_nil_iff]
  intro event member
  obtain ⟨bytes, rfl⟩ := exists_wrote_of_mem_write member
  rfl

/-- A printed value is announced, and its whole line is written. -/
theorem amounts_of_printed (statement : Statement) {value : Int64}
    (written : (machine.write (printedPieces value)).failure = none) (program : Program)
    (position : Position) (callers : List Position) :
    Amounts false
      (announcement statement (.print value) ++ ((machine.write (printedPieces value)).journal ++
        departures program position callers))
      [whole value] := by
  have line : Amounts false
      (announcement statement (.print value) ++ (machine.write (printedPieces value)).journal)
      [⟨value, (machine.write (printedPieces value)).journal.bytesTo .output, false⟩] :=
    .of_announced quiet_write
  rw [bytesTo_write_of_success written, encode_printedPieces] at line
  rw [← Array.append_assoc]
  exact line.append (amounts_departures program position callers)

/-- A statement prints its whole line over an output that never fails. -/
theorem stepInto_of_print {value : Int64} (unlimited : machine.output.room = none)
    (running : machine.control = .running position callers)
    (found : machine.program.statement? position = some statement)
    (defined : machine.effect statement = .ok (.print value)) :
    ∃ events, machine.stepInto = ⟨machine.resume position.next callers, events, none⟩ ∧
      Amounts false events [whole value] := by
  have complete : (machine.write (printedPieces value)).failure = none := by
    rw [write_of_unlimited unlimited]
  have step := stepInto_of_printed running found defined complete
  have prints := amounts_of_printed statement complete machine.program position.next callers
  rw [write_of_unlimited unlimited] at step prints
  exact ⟨_, step, prints⟩

/-- Over any output, a step that succeeds in printing a value has written its whole line. -/
theorem bytesTo_of_print {value : Int64}
    (running : machine.control = .running position callers)
    (found : machine.program.statement? position = some statement)
    (defined : machine.effect statement = .ok (.print value))
    (success : machine.stepInto.failure = none) :
    machine.stepInto.journal.bytesTo .output =
      Text.Utf8.bytes (Text.Decimal.render value.toInt ++ "\n") := by
  cases written : (machine.write (printedPieces value)).failure with
  | none =>
      rw [stepInto_of_printed running found defined written, Journal.bytesTo_append,
        Journal.bytesTo_append, bytesTo_announcement, bytesTo_departures,
        bytesTo_write_of_success written, encode_printedPieces, List.nil_append, List.append_nil]
      rfl
  | some error =>
      rw [stepInto_of_effect running found defined] at success
      simp only [perform] at success
      rw [Outcome.andThen_of_failure written, written] at success
      cases success

/-- What is announced without being printed amounts to nothing. -/
theorem amounts_of_unprinted (statement : Statement) (effect : Effect)
    (other : ∀ value, effect ≠ .print value) (program : Program) (position : Position)
    (callers : List Position) :
    Amounts false (announcement statement effect ++ departures program position callers) [] := by
  have silent : Amounts false (announcement statement effect) [] := by
    cases effect with
    | print value => exact absurd rfl (other value)
    | _ => rfl
  exact silent.append (amounts_departures program position callers)

theorem blamesOutput_of_effect {error : RuntimeError}
    (refused : machine.effect statement = .error error) : blamesOutput (some error) = false := by
  rcases machine.effect_cases statement with
    ⟨_, same⟩ | ⟨_, _, same⟩ | ⟨_, _, _, _, same⟩ | ⟨_, same⟩ | ⟨_, same⟩ <;>
    cases refused.symm.trans same <;> rfl

theorem Matches.of_step {ideal state : Machine} {events journal : Journal}
    (values : List Int64) (step : ideal.stepInto = ⟨state, events, none⟩)
    (prints : Amounts false events (values.map whole))
    (same : Amounts false journal (values.map whole)) (left : Sink) :
    Matches ideal ⟨state.redirect left, journal, none⟩ := by
  have success : ideal.stepInto.failure = none := by rw [step]
  have journals : Amounts false ideal.stepInto.journal (values.map whole) := by rwa [step]
  have matched : Matches ideal ⟨ideal.stepInto.state.redirect left, journal, none⟩ :=
    .succeeded success journals same
  rwa [step] at matched

/-- A step over any output matches the one over an output that never fails. -/
theorem matches_stepInto {ideal : Machine} (unlimited : ideal.output.room = none)
    (started : ideal.control ≠ .ready) (output : Sink) :
    Matches ideal (ideal.redirect output).stepInto := by
  rcases finished_or_running started with finished | ⟨position, callers, running⟩
  · have step : ideal.stepInto = ⟨ideal, #[], none⟩ := stepInto_of_finished finished
    have stays : (ideal.redirect output).stepInto = ⟨ideal.redirect output, #[], none⟩ :=
      stepInto_of_finished finished
    rw [stays]
    exact .of_step [] step .nil .nil output
  · have executed : Executed (ideal.redirect output) position callers
        (ideal.redirect output).stepInto := executed_stepInto running
    generalize (ideal.redirect output).stepInto = outcome at executed
    cases executed with
    | absent missing =>
        exact .failed (stepInto_of_absent running missing) rfl .nil .nil
    | undefined found refused =>
        rw [effect_redirect] at refused
        exact .failed (stepInto_of_error running found refused) (blamesOutput_of_effect refused)
          .nil .nil
    | @overflowed statement procedure found defined full =>
        rw [effect_redirect] at defined
        have step := stepInto_of_effect running found defined
        simp only [perform, full, if_true] at step
        exact .failed step rfl rfl rfl
    | @assigned statement name value found defined =>
        rw [effect_redirect] at defined
        have step := stepInto_of_effect running found defined
        have amounts := amounts_of_unprinted statement (.set name value) (by simp) ideal.program
          position.next callers
        exact .of_step [] step amounts amounts output
    | @called statement procedure found defined free =>
        rw [effect_redirect] at defined
        have step := stepInto_of_effect running found defined
        simp only [perform, Nat.not_le_of_lt free, if_false] at step
        have amounts := amounts_of_unprinted statement (.call procedure) (by simp) ideal.program
          (.start procedure) (position :: callers)
        exact .of_step [] step amounts amounts output
    | @printed statement value found defined written =>
        rw [effect_redirect] at defined
        obtain ⟨events, step, prints⟩ := stepInto_of_print unlimited running found defined
        have same := amounts_of_printed statement written ideal.program position.next callers
        rw [state_write_eq_redirect, redirect_redirect, resume_redirect]
        exact .of_step [value] step prints same _
    | @unprinted statement value error found defined refused =>
        rw [effect_redirect] at defined
        obtain ⟨kind, rfl⟩ := failure_write refused
        obtain ⟨events, step, prints⟩ := stepInto_of_print unlimited running found defined
        obtain ⟨begins, shorter⟩ := bytesTo_write_of_failure refused
        rw [encode_printedPieces] at begins shorter
        rw [state_write_eq_redirect, redirect_redirect]
        refine .refused (by rw [step]) (by rwa [step]) ?_ (.of_announced quiet_write)
          ?_ fun other => head?_notes_of_print running found ?_
        · exact ⟨begins, fun same => absurd (congrArg List.length same) (Nat.ne_of_lt shorter)⟩
        · rw [Journal.notes_append, notes_write, List.append_nil]
          rfl
        · rw [effect_redirect, defined]

end Steps

end Machine

end Guu
