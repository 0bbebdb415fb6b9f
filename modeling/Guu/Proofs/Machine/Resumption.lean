import Guu.Proofs.Machine.Refusal
import Guu.Proofs.Machine.Termination

/-!
# Going on behind refused output

The limit of an output may change at any time between operations.  However
operations and changes of the limit follow each other, the machine stands on the
execution over an output that never fails, and what was printed is a beginning
of what is printed there.  A refused line is the next thing to be printed again,
so that with the limit lifted a run ends as if nothing had ever been refused.
-/

namespace Guu

/-- What a machine is told: to execute statements, or to take a new limit of its output. -/
inductive Order where
  | operate (operation : Operation)
  | limit (room : Option Nat)
deriving DecidableEq, Repr

def Order.obey (order : Order) (machine : Machine) : MachineOutcome :=
  match order with
  | operate operation => operation.apply machine
  | limit room => .done { machine with output := machine.output.limited room }

structure History where
  machine : Machine
  journal : Journal
  attempts : List Attempt
deriving DecidableEq, Repr

namespace History

def ofMachine (machine : Machine) : History :=
  ⟨machine, #[], []⟩

def obey (history : History) (order : Order) : History :=
  let outcome := order.obey history.machine
  ⟨outcome.state, history.journal ++ outcome.journal, history.attempts ++ Attempt.ofOutcome outcome⟩

def ofOrders (orders : List Order) (machine : Machine) : History :=
  orders.foldl obey (ofMachine machine)

end History

namespace Machine

open Attempt

/-! ## Operations over a limited output -/

/-- An execution over any output matches one over an output that never fails. -/
theorem Execution.matched {ideal : Machine} (unlimited : ideal.output.room = none)
    (started : ideal.control ≠ .ready) {output : Sink} {count : Nat} {journal : Journal}
    {last : Machine} (execution : Execution always count (ideal.redirect output) journal last) :
    ∃ (steps : Nat) (events : Journal) (final : Machine) (left : Sink) (values : List Int64),
      Execution always steps ideal events final ∧ last = final.redirect left ∧
      Amounts false events (values.map whole) ∧ Amounts false journal (values.map whole) := by
  generalize begins : ideal.redirect output = first at execution
  induction execution generalizing ideal output with
  | refl first => exact ⟨0, #[], ideal, output, [], .refl ideal, begins.symm, .nil, .nil⟩
  | @next count first last journal unfinished goesOn success rest ih =>
      subst begins
      have matched := matches_stepInto unlimited started output
      generalize (ideal.redirect output).stepInto = outcome at matched success rest ih
      cases matched with
      | failed failure other prints same => cases success
      | refused succeeds prints orderly broken announced expected => cases success
      | @succeeded left journal values succeeds prints same =>
          obtain ⟨steps, events, final, left, others, continued, stands, further, more⟩ :=
            ih (unlimited_stepInto ideal unlimited) (control_stepInto_ne_ready started) rfl
          refine ⟨_, _, final, left, values ++ others, .next unfinished rfl succeeds continued,
            stands, ?_, ?_⟩
          · rw [List.map_append]
            exact prints.append further
          · rw [List.map_append]
            exact same.append more

/--
How an operation compares with steps over an output that never fails.  It makes
a number of these steps, and then it stops, or fails as the next of them does, or
the line is refused that the next of them prints.
-/
inductive Performed (ideal : Machine) : MachineOutcome → Prop where
  | succeeded {steps : Nat} {events journal : Journal} {final : Machine} {left : Sink}
      {values : List Int64} (execution : Execution always steps ideal events final)
      (prints : Amounts false events (values.map whole))
      (same : Amounts false journal (values.map whole)) :
      Performed ideal ⟨final.redirect left, journal, none⟩
  | failed {steps : Nat} {events silent journal : Journal} {final : Machine} {left : Sink}
      {values : List Int64} {error : RuntimeError}
      (execution : Execution always steps ideal events final)
      (prints : Amounts false events (values.map whole))
      (failure : final.stepInto = ⟨final, silent, some error⟩)
      (other : blamesOutput (some error) = false) (nothing : Amounts false silent [])
      (same : Amounts false journal (values.map whole)) :
      Performed ideal ⟨final.redirect left, journal, some error⟩
  | refused {steps : Nat} {events journal : Journal} {final : Machine} {left : Sink}
      {values : List Int64} {kind : FailureKind} {line : Nat} {value : Int64} {taken : List UInt8}
      (execution : Execution always steps ideal events final)
      (prints : Amounts false events (values.map whole))
      (orderly : Orderly ⟨value, taken, true⟩)
      (broken : Amounts true journal (values.map whole ++ [⟨value, taken, true⟩]))
      (announced : journal.notes.getLast? = some (.executing line (.print value)))
      (expected : ∀ output, (final.redirect output).stepInto.journal.notes.head? =
        some (.executing line (.print value))) :
      Performed ideal ⟨final.redirect left, journal, some (.output kind)⟩

section Operations

variable {ideal : Machine}

theorem Execution.started {first last : Machine} {count : Nat} {journal : Journal}
    (execution : Execution always count first journal last) (started : first.control ≠ .ready) :
    last.control ≠ .ready := by
  have kept : ∀ machine : Machine, machine.control ≠ .ready →
      machine.stepInto.failure = none → machine.stepInto.state.control ≠ .ready :=
    fun _ started _ => control_stepInto_ne_ready started
  exact execution.preserves kept started

/-- Events without attempts in front make no difference. -/
theorem Performed.prepend {outcome : MachineOutcome} (performed : Performed ideal outcome)
    {earlier : Journal} (silent : Amounts false earlier []) :
    Performed ideal ⟨outcome.state, earlier ++ outcome.journal, outcome.failure⟩ := by
  cases performed with
  | succeeded execution prints same =>
      exact .succeeded execution prints (silent.append same)
  | failed execution prints failure other nothing same =>
      exact .failed execution prints failure other nothing (silent.append same)
  | refused execution prints orderly broken announced expected =>
      refine .refused execution prints orderly (silent.append broken) ?_ expected
      rw [Journal.notes_append, List.getLast?_append, announced, Option.some_or]

theorem performed_of_started (unlimited : ideal.output.room = none)
    (started : ideal.control ≠ .ready) (output : Sink) (operation : Operation) :
    Performed ideal (operation.apply (ideal.redirect output)) := by
  obtain ⟨count, journal, last, execution, ends⟩ :=
    exists_ends_apply operation (ideal.redirect output)
  obtain ⟨steps, events, final, left, values, ideally, rfl, prints, same⟩ :=
    execution.matched unlimited started
  generalize operation.apply (ideal.redirect output) = outcome at ends
  cases ends with
  | succeeded => exact .succeeded ideally prints same
  | failed failure =>
      have matched := matches_stepInto (ideally.unlimited unlimited) (ideally.started started) left
      generalize (final.redirect left).stepInto = step at matched failure
      cases matched with
      | succeeded success printed equal => cases failure
      | failed failed other nothing silent =>
          cases failure
          refine .failed ideally prints failed other nothing ?_
          simpa using same.append silent
      | refused success next orderly broken announced expected =>
          cases failure
          refine .refused ideally prints orderly (same.append broken) ?_ expected
          rw [Journal.notes_append, List.getLast?_append, announced, Option.some_or]

theorem amounts_start (machine : Machine) : Amounts false machine.start.journal [] := by
  have entered := entered_start machine
  generalize machine.start = outcome at entered
  cases entered with
  | absent ready missing => exact .nil
  | already started => exact .nil
  | entered ready found =>
      have announced : Amounts false #[.noted .entered] [] := rfl
      exact announced.append (amounts_departures _ _ _)

/-- An operation that can enter `main` makes steps from there. -/
theorem performed_apply (unlimited : ideal.output.room = none)
    (entered : ideal.start.failure = none) (output : Sink) (operation : Operation) :
    Performed ideal.start.state (operation.apply (ideal.redirect output)) := by
  rw [apply_eq_start_andThen, start_redirect, entered, Outcome.andThen_of_success rfl]
  exact (performed_of_started (unlimited_start unlimited) (control_start_ne_ready entered) output
    operation).prepend (amounts_start ideal)

/-- Without a `main` no operation does anything. -/
theorem apply_of_start_failure {error : RuntimeError} (failure : ideal.start.failure = some error)
    (operation : Operation) :
    operation.apply ideal = ⟨ideal, #[], some .entryPointNotFound⟩ := by
  have step := stepInto_of_start_failure failure
  rw [apply_eq_stepInto_andThen, Outcome.andThen_of_failure (by rw [step]), step]

theorem orderly_of_whole (values : List Int64) : ∀ attempt ∈ values.map whole, attempt.Orderly := by
  intro attempt member
  obtain ⟨value, _, rfl⟩ := List.mem_map.mp member
  exact orderly_whole value

/-- The events of an operation are attempts to print, and each of them is orderly. -/
theorem Performed.amounts {outcome : MachineOutcome} (performed : Performed ideal outcome) :
    Amounts (blamesOutput outcome.failure) outcome.journal (ofOutcome outcome) ∧
      ∀ attempt ∈ ofOutcome outcome, attempt.Orderly := by
  cases performed with
  | succeeded execution prints same =>
      rw [Amounts.ofOutcome_of_success same]
      exact ⟨same, orderly_of_whole _⟩
  | failed execution prints failure other nothing same =>
      rw [Amounts.ofOutcome_of_failure other same, other]
      exact ⟨same, orderly_of_whole _⟩
  | @refused steps events journal final left values kind line value taken execution prints orderly
      broken announced expected =>
      rw [Amounts.ofOutcome_of_refusal broken]
      refine ⟨broken, fun attempt member => ?_⟩
      rcases List.mem_append.mp member with earlier | last
      · exact orderly_of_whole _ attempt earlier
      · rw [List.mem_singleton.mp last]
        exact orderly

/-- An operation goes on by as many steps as print what it printed. -/
theorem Performed.advance {outcome : MachineOutcome} (performed : Performed ideal outcome) :
    ∃ steps events final left, Execution always steps ideal events final ∧
      Amounts false events ((printed (ofOutcome outcome)).map whole) ∧
      outcome.state = final.redirect left := by
  cases performed with
  | @succeeded steps events journal final left values execution prints same =>
      rw [Amounts.ofOutcome_of_success same, printed_whole]
      exact ⟨steps, events, final, left, execution, prints, rfl⟩
  | @failed steps events silent journal final left values error execution prints failure other
      nothing same =>
      rw [Amounts.ofOutcome_of_failure other same, printed_whole]
      exact ⟨steps, events, final, left, execution, prints, rfl⟩
  | @refused steps events journal final left values kind line value taken execution prints orderly
      broken announced expected =>
      rw [Amounts.ofOutcome_of_refusal broken, printed_append, printed_whole, printed_refused,
        List.append_nil]
      exact ⟨steps, events, final, left, execution, prints, rfl⟩

end Operations

/-! ## A refused line comes next -/

/--
An operation ended because the line of a value was refused: it is the last value
that was announced, only the attempt to print it was refused, and every other
operation, over whatever output, announces it first.
-/
structure Interrupted (outcome : MachineOutcome) (line : Nat) (value : Int64) : Prop where
  last : ∃ (values : List Int64) (taken : List UInt8),
    ofOutcome outcome = values.map whole ++ [⟨value, taken, true⟩]
  announced : outcome.journal.notes.getLast? = some (.executing line (.print value))
  next : ∀ (operation : Operation) (output : Sink),
    (operation.apply (outcome.state.redirect output)).journal.notes.head? =
      some (.executing line (.print value))

theorem head?_notes_apply {machine : Machine} {note : Note}
    (first : machine.stepInto.journal.notes.head? = some note) (operation : Operation) :
    (operation.apply machine).journal.notes.head? = some note := by
  rw [apply_eq_stepInto_andThen]
  cases stepped : machine.stepInto.failure with
  | some error => rwa [Outcome.andThen_of_failure stepped]
  | none =>
      rw [Outcome.andThen_of_success stepped, Journal.notes_append, List.head?_append, first,
        Option.some_or]

/-- An operation is interrupted when it fails because of the output, and not otherwise. -/
theorem Performed.interrupted {ideal : Machine} {outcome : MachineOutcome}
    (performed : Performed ideal outcome) :
    ((∀ kind, outcome.failure ≠ some (.output kind)) →
      ∃ values : List Int64, ofOutcome outcome = values.map whole) ∧
    (∀ kind, outcome.failure = some (.output kind) →
      ∃ line value, Interrupted outcome line value) := by
  cases performed with
  | @succeeded steps events journal final left values execution prints same =>
      exact ⟨fun _ => ⟨values, Amounts.ofOutcome_of_success same⟩, nofun⟩
  | @failed steps events silent journal final left values error execution prints failure other
      nothing same =>
      refine ⟨fun _ => ⟨values, Amounts.ofOutcome_of_failure other same⟩, fun kind blamed => ?_⟩
      cases blamed
      cases other
  | @refused steps events journal final left values kind line value taken execution prints orderly
      broken announced expected =>
      refine ⟨fun other => absurd rfl (other kind), fun _ _ => ⟨line, value, ?_, announced, ?_⟩⟩
      · exact ⟨values, taken, Amounts.ofOutcome_of_refusal broken⟩
      · exact fun operation output => head?_notes_apply (expected output) operation

/-! ## Rows of orders -/

/-- What orders have led to, compared with the execution over an output that never fails. -/
structure Tracks (ideal : Machine) (history : History) : Prop where
  stands : (printed history.attempts = [] ∧ ∃ left, history.machine = ideal.redirect left) ∨
    (ideal.start.failure = none ∧ ∃ steps events final left,
      Execution always steps ideal.start.state events final ∧
      Amounts false events ((printed history.attempts).map whole) ∧
      history.machine = final.redirect left)
  written : history.journal.bytesTo .output = history.attempts.flatMap Attempt.taken
  orderly : ∀ attempt ∈ history.attempts, attempt.Orderly

section Orders

variable {ideal : Machine} {history : History}

/-- Where there is a `main`, another operation makes steps from where the machine stands. -/
theorem Tracks.performed (tracks : Tracks ideal history) (unlimited : ideal.output.room = none)
    (entered : ideal.start.failure = none) (operation : Operation) :
    ∃ steps events final, Execution always steps ideal.start.state events final ∧
      Amounts false events ((printed history.attempts).map whole) ∧
      Performed final (operation.apply history.machine) := by
  rcases tracks.stands with ⟨none, left, stands⟩ |
    ⟨_, steps, events, final, left, execution, prints, stands⟩
  · rw [none, stands]
    exact ⟨0, #[], ideal.start.state, .refl _, .nil,
      performed_apply unlimited entered left operation⟩
  · rw [stands]
    refine ⟨steps, events, final, execution, prints, performed_of_started ?_ ?_ left operation⟩
    · exact execution.unlimited (unlimited_start unlimited)
    · exact execution.started (control_start_ne_ready entered)

/-- Without a `main` the machine stays where it was. -/
theorem Tracks.apply_of_start_failure (tracks : Tracks ideal history) {error : RuntimeError}
    (failure : ideal.start.failure = some error) (operation : Operation) :
    (∃ left, history.machine = ideal.redirect left) ∧
      operation.apply history.machine = ⟨history.machine, #[], some .entryPointNotFound⟩ := by
  rcases tracks.stands with ⟨_, left, stands⟩ | ⟨entered, _⟩
  · have failed : history.machine.start.failure = some error := by
      rw [stands, start_redirect, failure]
    exact ⟨⟨left, stands⟩, Machine.apply_of_start_failure failed operation⟩
  · rw [entered] at failure
    cases failure

theorem Tracks.operate (tracks : Tracks ideal history) (unlimited : ideal.output.room = none)
    (operation : Operation) : Tracks ideal (history.obey (.operate operation)) := by
  cases entered : ideal.start.failure with
  | some error =>
      obtain ⟨_, nothing⟩ := tracks.apply_of_start_failure entered operation
      have same : history.obey (.operate operation) = history := by
        simp only [History.obey, Order.obey, nothing, Array.append_empty]
        simp [ofOutcome, Attempt.read]
      rwa [same]
  | none =>
      obtain ⟨steps, events, middle, execution, prints, performed⟩ :=
        tracks.performed unlimited entered operation
      obtain ⟨amounts, orderly⟩ := performed.amounts
      obtain ⟨more, further, final, left, continued, printsMore, stands⟩ := performed.advance
      refine ⟨.inr ⟨entered, _, _, final, left, execution.trans continued, ?_, stands⟩, ?_, ?_⟩
      · simp only [History.obey, Order.obey, printed_append, List.map_append]
        exact prints.append printsMore
      · simp only [History.obey, Order.obey, Journal.bytesTo_append, List.flatMap_append,
          tracks.written, amounts.bytesTo_eq]
      · intro attempt member
        rcases List.mem_append.mp member with earlier | later
        · exact tracks.orderly attempt earlier
        · exact orderly attempt later

theorem Tracks.limit (tracks : Tracks ideal history) (room : Option Nat) :
    Tracks ideal (history.obey (.limit room)) := by
  have attempts : (history.obey (.limit room)).attempts = history.attempts := List.append_nil _
  have journal : (history.obey (.limit room)).journal = history.journal := Array.append_empty
  refine ⟨?_, by rw [attempts, journal, tracks.written], attempts ▸ tracks.orderly⟩
  rw [attempts]
  rcases tracks.stands with ⟨none, left, stands⟩ |
    ⟨entered, steps, events, final, left, execution, prints, stands⟩
  · refine .inl ⟨none, history.machine.output.limited room, ?_⟩
    show history.machine.redirect _ = _
    rw [stands, redirect_redirect]
  · refine .inr ⟨entered, steps, events, final, history.machine.output.limited room, execution,
      prints, ?_⟩
    show history.machine.redirect _ = _
    rw [stands, redirect_redirect]

theorem tracks_ofOrders (unlimited : ideal.output.room = none) (output : Sink)
    (orders : List Order) : Tracks ideal (History.ofOrders orders (ideal.redirect output)) := by
  have begins : Tracks ideal (History.ofMachine (ideal.redirect output)) :=
    ⟨.inl ⟨rfl, output, rfl⟩, rfl, nofun⟩
  unfold History.ofOrders
  generalize History.ofMachine (ideal.redirect output) = history at begins
  induction orders generalizing history with
  | nil => exact begins
  | cons order rest ih =>
      cases order with
      | operate operation => exact ih _ (begins.operate unlimited operation)
      | limit room => exact ih _ (begins.limit room)

end Orders

/-! ## Lifting the limit -/

/-- An operation never blames an output without a limit. -/
theorem apply_ne_output {machine : Machine} (unlimited : machine.output.room = none)
    (operation : Operation) (kind : FailureKind) :
    (operation.apply machine).failure ≠ some (.output kind) := by
  intro failure
  obtain ⟨count, journal, last, execution, failed, _⟩ := exists_failing_step failure
  exact stepInto_ne_output (execution.unlimited unlimited) kind failed

/-- A run that nothing was refused to leaves what a run over an output that never fails leaves. -/
theorem Performed.run_eq {ideal : Machine} {resumed : MachineOutcome}
    (performed : Performed ideal resumed)
    (accepted : ∀ kind, resumed.failure ≠ some (.output kind))
    (ends : resumed.failure = none → resumed.state.control = .finished) :
    resumed.failure = ideal.run.failure ∧
      (∃ left, resumed.state = ideal.run.state.redirect left) ∧
      Amounts (blamesOutput ideal.run.failure) ideal.run.journal (ofOutcome resumed) := by
  cases performed with
  | @succeeded steps events journal final left values execution prints same =>
      have finished : final.control = .finished := ends rfl
      have idle : final.run = .done final := apply_of_finished finished .run
      rw [run_of_execution execution, Outcome.andThen_of_success rfl, idle,
        Amounts.ofOutcome_of_success same]
      exact ⟨rfl, ⟨left, rfl⟩, by simpa [Outcome.done, blamesOutput] using prints⟩
  | @failed steps events silent journal final left values error execution prints failure other
      nothing same =>
      have failed : final.stepInto.failure = some error := by rw [failure]
      have stopped : final.run = ⟨final, silent, some error⟩ := by
        rw [run_of_failure failed, failure]
      rw [run_of_execution execution, Outcome.andThen_of_success rfl, stopped, other,
        Amounts.ofOutcome_of_failure other same]
      exact ⟨rfl, ⟨left, rfl⟩, by simpa using prints.append nothing⟩
  | @refused steps events journal final left values kind line value taken execution prints orderly
      broken announced expected => exact absurd rfl (accepted kind)

/-- With the limit lifted, a run prints the rest of what is printed over an unlimited output. -/
theorem Tracks.run_eq {ideal : Machine} {history : History} (tracks : Tracks ideal history)
    (unlimited : ideal.output.room = none) (free : history.machine.output.room = none) :
    history.machine.run.failure = ideal.run.failure ∧
      (∃ left, history.machine.run.state = ideal.run.state.redirect left) ∧
      printed history.attempts ++ printed (ofOutcome history.machine.run) =
        printed (ofOutcome ideal.run) := by
  cases entered : ideal.start.failure with
  | some error =>
      obtain ⟨⟨left, stands⟩, nothing⟩ := tracks.apply_of_start_failure entered .run
      have idle : ideal.run = ⟨ideal, #[], some .entryPointNotFound⟩ :=
        Machine.apply_of_start_failure entered .run
      have unprinted : printed history.attempts = [] := by
        rcases tracks.stands with ⟨none, _⟩ | ⟨success, _⟩
        · exact none
        · exact nomatch success.symm.trans entered
      change history.machine.run = _ at nothing
      rw [nothing, idle, unprinted]
      exact ⟨rfl, ⟨left, stands⟩, rfl⟩
  | none =>
      obtain ⟨steps, events, middle, execution, prints, performed⟩ :=
        tracks.performed unlimited entered .run
      obtain ⟨failure, ⟨left, state⟩, rest⟩ := performed.run_eq
        (apply_ne_output free .run) control_run_of_success
      have whole : ideal.run = ⟨middle.run.state,
          ideal.start.journal ++ (events ++ middle.run.journal), middle.run.failure⟩ := by
        rw [run_eq_start_andThen, Outcome.andThen_of_success entered, run_of_execution execution,
          Outcome.andThen_of_success rfl]
      have amounts := (amounts_start ideal).append (prints.append rest)
      rw [whole, Amounts.ofOutcome_eq amounts]
      exact ⟨failure, ⟨left, state⟩, by simp [Operation.apply]⟩

/-! ## Orders on a fresh machine -/

theorem exists_steps_of_started {ideal last : Machine} (ready : ideal.control = .ready)
    (entered : ideal.start.failure = none) {count : Nat} {journal : Journal}
    (execution : Execution always count ideal.start.state journal last) :
    last = ideal.start.state ∨
      ∃ steps, (Operation.applyAll (List.replicate steps .stepInto) ideal).state = last := by
  cases execution with
  | refl => exact .inl rfl
  | next unfinished goesOn success rest =>
      have step := stepInto_of_start_success entered
      have state : ideal.stepInto.state = ideal.start.state.stepInto.state := by rw [step]
      rw [← state] at rest
      have whole : Execution always _ ideal _ last :=
        .next (by rw [ready]; rfl) rfl (by rw [step]; exact success) rest
      obtain ⟨steps, same, _⟩ := (OnExecution.arrived whole rfl).exists_steps
      exact .inr ⟨steps, same⟩

/-- A machine stands where steps over an output that never fails lead, or at the front of `main`. -/
theorem Tracks.exists_steps {ideal : Machine} {history : History} (tracks : Tracks ideal history)
    (ready : ideal.control = .ready) :
    (ideal.start.failure = none ∧ ∃ left, history.machine = ideal.start.state.redirect left) ∨
      ∃ steps left, history.machine =
        (Operation.applyAll (List.replicate steps .stepInto) ideal).state.redirect left := by
  rcases tracks.stands with ⟨_, left, stands⟩ |
    ⟨entered, count, events, final, left, execution, _, stands⟩
  · exact .inr ⟨0, left, stands⟩
  · rcases exists_steps_of_started ready entered execution with rfl | ⟨steps, same⟩
    · exact .inl ⟨entered, left, stands⟩
    · exact .inr ⟨steps, left, by rw [stands, same]⟩

/-- Only a failure of the output interrupts another operation. -/
theorem Tracks.interrupted {ideal : Machine} {history : History} (tracks : Tracks ideal history)
    (unlimited : ideal.output.room = none) (operation : Operation) :
    ((∀ kind, (operation.apply history.machine).failure ≠ some (.output kind)) →
      ∃ values : List Int64, ofOutcome (operation.apply history.machine) = values.map whole) ∧
    (∀ kind, (operation.apply history.machine).failure = some (.output kind) →
      ∃ line value, Interrupted (operation.apply history.machine) line value) := by
  cases entered : ideal.start.failure with
  | some error =>
      obtain ⟨_, nothing⟩ := tracks.apply_of_start_failure entered operation
      rw [nothing]
      exact ⟨fun _ => ⟨[], rfl⟩, nofun⟩
  | none =>
      obtain ⟨_, _, _, _, _, performed⟩ := tracks.performed unlimited entered operation
      exact performed.interrupted

/--
However operations and changes of the limit follow each other, compare the
machine with one whose output never fails.  It stands where steps of that one
lead, the front of `main` counted in; what was printed is a beginning of what a
run of that one prints, and the bytes that were written are those of the
attempts to print, each of which was taken whole or refused behind a proper
beginning.  An operation that fails because of the output was refused its last
attempt, and whatever is done next begins with that attempt.  So with the limit
lifted, a run ends and prints as if nothing had been refused.
-/
theorem refusals_only_delay {program : Program} {endless : Sink} (unfailing : endless.Unfailing)
    (output : Sink) (orders : List Order) :
    let ideal := ofProgram program endless
    let history := History.ofOrders orders (ofProgram program output)
    ((ideal.start.failure = none ∧ ∃ left, history.machine = ideal.start.state.redirect left) ∨
      ∃ steps left, history.machine =
        (Operation.applyAll (List.replicate steps .stepInto) ideal).state.redirect left) ∧
    printed history.attempts <+: printed (ofOutcome ideal.run) ∧
    (history.journal.bytesTo .output = history.attempts.flatMap Attempt.taken ∧
      ∀ attempt ∈ history.attempts, attempt.Orderly) ∧
    (∀ operation : Operation,
      ((∀ kind, (operation.apply history.machine).failure ≠ some (.output kind)) →
        ∃ values : List Int64, ofOutcome (operation.apply history.machine) = values.map whole) ∧
      ∀ kind, (operation.apply history.machine).failure = some (.output kind) →
        ∃ line value, Interrupted (operation.apply history.machine) line value) ∧
    let resumed := (history.machine.redirect (history.machine.output.limited none)).run
    resumed.failure = ideal.run.failure ∧
      (∃ left, resumed.state = ideal.run.state.redirect left) ∧
      printed history.attempts ++ printed (ofOutcome resumed) = printed (ofOutcome ideal.run) := by
  intro ideal history
  have unlimited : ideal.output.room = none := Sink.unfailing_iff.mp unfailing
  have tracks : Tracks ideal history := tracks_ofOrders unlimited output orders
  have lifted := (tracks.limit none).run_eq unlimited rfl
  have attempts : (history.obey (.limit none)).attempts = history.attempts := List.append_nil _
  rw [attempts] at lifted
  refine ⟨tracks.exists_steps rfl, ?_, ⟨tracks.written, tracks.orderly⟩,
    tracks.interrupted unlimited, lifted⟩
  exact ⟨_, lifted.2.2⟩

/--
An output with room for four bytes refuses the line of -345 behind its sign, and
refuses it again behind its second digit when there is room for three bytes
more.  With the limit lifted, the whole line is printed, and then the rest.
-/
theorem refusals_delay_sample :
    let program : Program := ⟨#[
      ⟨"main", 1, #[⟨2, .print (.literal 12)⟩, ⟨3, .call "inner"⟩, ⟨4, .print (.literal 6)⟩]⟩,
      ⟨"inner", 5, #[⟨6, .print (.literal (-345))⟩]⟩]⟩
    let orders : List Order :=
      [.operate .stepInto, .operate .stepOver, .limit (some 3), .operate .run]
    let ideal := ofProgram program {}
    let history := History.ofOrders orders (ofProgram program { room := some 4 })
    let resumed := (history.machine.redirect (history.machine.output.limited none)).run
    Sink.Unfailing {} ∧
      history.attempts = [whole 12, ⟨-345, [45], true⟩, ⟨-345, [45, 51, 52], true⟩] ∧
      printed (ofOutcome ideal.run) = [12, -345, 6] ∧
      resumed.failure = none ∧ printed (ofOutcome resumed) = [-345, 6] := by
  intro program orders ideal history resumed
  have unfailing : Sink.Unfailing {} := Sink.unfailing_iff.mpr rfl
  have attempts : history.attempts =
      [whole 12, ⟨-345, [45], true⟩, ⟨-345, [45, 51, 52], true⟩] := by
    decide +kernel
  have prints : printed (ofOutcome ideal.run) = [12, -345, 6] := by decide +kernel
  have succeeds : ideal.run.failure = none := by decide +kernel
  obtain ⟨_, _, _, _, same, _, parts⟩ :=
    @refusals_only_delay program {} unfailing { room := some 4 } orders
  have joined : printed history.attempts ++ printed (ofOutcome resumed) = [12, -345, 6] :=
    parts.trans prints
  rw [attempts] at joined
  exact ⟨unfailing, attempts, prints, same.trans succeeds, (List.cons.inj joined).2⟩

end Machine

end Guu
