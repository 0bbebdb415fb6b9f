import Guu.Proofs.Machine.Backtrace
import Guu.Proofs.Program.CallGraph
import Mathlib.Data.List.Forall2

/-!
# Programs that share what is executed

Two programs may order their procedures differently, and each of them may have
procedures that are never called.  As long as they have the same bodies under
the names that can be called, machines that execute them stand at corresponding
places, and whatever one of them does, the other one does as well.  Only the
index of a called procedure, which is noted with the call, can tell them apart.
-/

namespace Guu

def Event.unindexed : Event → Event
  | .noted (.executing line (.call _)) => .noted (.executing line (.call 0))
  | event => event

def Journal.unindexed (journal : Journal) : List Event :=
  journal.toList.map Event.unindexed

@[simp]
theorem Journal.unindexed_append (earlier later : Journal) :
    (earlier ++ later : Journal).unindexed = earlier.unindexed ++ later.unindexed := by
  simp [unindexed]

namespace Machine

/-- Two programs have the same bodies under some names, and these bodies call no other names. -/
structure Shares (names : String → Prop) (program other : Program) : Prop where
  entry : names Program.entryPoint
  closed : ∀ {name callee : String} {index offset line : Nat}, names name →
    program.find? name = some index →
    program.statement? ⟨index, offset⟩ = some ⟨line, .call callee⟩ → names callee
  bodies : ∀ name, names name →
    Option.Rel
      (fun index place =>
        ∀ offset, program.statement? ⟨index, offset⟩ = other.statement? ⟨place, offset⟩)
      (program.find? name) (other.find? name)

/-- Places at the same offset of the procedures that a shared name stands for. -/
inductive Corresponds (names : String → Prop) (program other : Program) :
    Position → Position → Prop where
  | shared {name : String} {index place : Nat} (used : names name)
      (found : program.find? name = some index) (known : other.find? name = some place)
      (offset : Nat) : Corresponds names program other ⟨index, offset⟩ ⟨place, offset⟩

inductive ControlsAlike (names : String → Prop) (program other : Program) :
    Control → Control → Prop where
  | ready : ControlsAlike names program other .ready .ready
  | running {position place : Position} {callers others : List Position}
      (stands : Corresponds names program other position place)
      (waits : List.Forall₂ (Corresponds names program other) callers others) :
      ControlsAlike names program other (.running position callers) (.running place others)
  | finished : ControlsAlike names program other .finished .finished

/-- Machines that differ in the order of their procedures, and in procedures that are not called. -/
structure MachinesAlike (names : String → Prop) (program other : Program)
    (machine twin : Machine) : Prop where
  runs : machine.program = program
  twinRuns : twin.program = other
  control : ControlsAlike names program other machine.control twin.control
  store : machine.store = twin.store
  output : machine.output = twin.output

structure OutcomesAlike (names : String → Prop) (program other : Program)
    (outcome twin : MachineOutcome) : Prop where
  state : MachinesAlike names program other outcome.state twin.state
  events : outcome.journal.unindexed = twin.journal.unindexed
  failure : outcome.failure = twin.failure

variable {names : String → Prop} {program other : Program}

/-! ## Corresponding places -/

section Places

variable {position place : Position} {callers others : List Position}

theorem Corresponds.next (stands : Corresponds names program other position place) :
    Corresponds names program other position.next place.next := by
  cases stands with
  | shared used found known offset => exact .shared used found known (offset + 1)

/-- The same statement stands at corresponding places. -/
theorem Corresponds.statement?_eq (stands : Corresponds names program other position place)
    (shares : Shares names program other) :
    program.statement? position = other.statement? place := by
  cases stands with
  | @shared name index place used found known offset =>
      have bodies := shares.bodies name used
      rw [found, known] at bodies
      cases bodies with
      | some same => exact same offset

/-- A call at a place of a shared procedure names a shared procedure. -/
theorem Corresponds.callee (stands : Corresponds names program other position place)
    (shares : Shares names program other) {statement : Statement} {callee : String}
    (found : program.statement? position = some statement)
    (calls : statement.instruction = .call callee) : names callee := by
  obtain ⟨line, instruction⟩ := statement
  cases calls
  cases stands with
  | shared used known _ offset => exact shares.closed used known found

theorem Corresponds.nameAt_eq (stands : Corresponds names program other position place) :
    program.nameAt position = other.nameAt place := by
  cases stands with
  | shared used found known offset =>
      rw [Program.nameAt_of_find? found, Program.nameAt_of_find? known]

theorem Corresponds.procedure?_eq (stands : Corresponds names program other position place) :
    (program.procedure? position).map Procedure.name =
      (other.procedure? place).map Procedure.name := by
  cases stands with
  | shared used found known offset =>
      obtain ⟨procedure, owner, named⟩ := Program.exists_procedure_named found
      obtain ⟨counterpart, counterOwner, counterNamed⟩ := Program.exists_procedure_named known
      simp [Program.procedure?, owner, counterOwner, named, counterNamed]

/-- A shared name is unknown to both programs, or stands for corresponding procedures. -/
theorem Shares.find?_cases (shares : Shares names program other) {name : String}
    (used : names name) :
    (program.find? name = none ∧ other.find? name = none) ∨
      ∃ index place, program.find? name = some index ∧ other.find? name = some place ∧
        Corresponds names program other (.start index) (.start place) := by
  have bodies := shares.bodies name used
  cases found : program.find? name with
  | none =>
      rw [found] at bodies
      cases known : other.find? name with
      | none => exact .inl ⟨rfl, rfl⟩
      | some place => simp [known] at bodies
  | some index =>
      rw [found] at bodies
      cases known : other.find? name with
      | none => simp [known] at bodies
      | some place => exact .inr ⟨index, place, rfl, rfl, .shared used found known 0⟩

/-- Leaving procedures leads to corresponding places. -/
theorem settle_alike (shares : Shares names program other)
    (stands : Corresponds names program other position place)
    (waits : List.Forall₂ (Corresponds names program other) callers others) :
    ControlsAlike names program other (settle program position callers).control
        (settle other place others).control ∧
      (settle program position callers).notes = (settle other place others).notes := by
  have same := stands.statement?_eq shares
  induction waits generalizing position place with
  | nil =>
      unfold settle
      rw [same]
      split
      · exact ⟨.running stands .nil, rfl⟩
      · exact ⟨.finished, rfl⟩
  | @cons caller waiting callers others first rest ih =>
      unfold settle
      rw [same]
      split
      · exact ⟨.running stands (.cons first rest), rfl⟩
      · obtain ⟨control, notes⟩ := ih first.next (first.next.statement?_eq shares)
        exact ⟨control, by simp only [notes, first.nameAt_eq]⟩

end Places

/-! ## Steps -/

section Steps

variable {machine twin : Machine} {position place : Position} {callers others : List Position}

theorem OutcomesAlike.andThen {outcome counterpart : MachineOutcome}
    {next further : Machine → MachineOutcome}
    (alike : OutcomesAlike names program other outcome counterpart)
    (continued : ∀ machine twin, MachinesAlike names program other machine twin →
      OutcomesAlike names program other (next machine) (further twin)) :
    OutcomesAlike names program other (outcome.andThen next) (counterpart.andThen further) := by
  cases failed : counterpart.failure with
  | some error =>
      rw [Outcome.andThen_of_failure failed,
        Outcome.andThen_of_failure (alike.failure.trans failed)]
      exact alike
  | none =>
      rw [Outcome.andThen_of_success failed,
        Outcome.andThen_of_success (alike.failure.trans failed)]
      have behind := continued _ _ alike.state
      exact ⟨behind.state, by simp only [Journal.unindexed_append, alike.events, behind.events],
        behind.failure⟩

theorem MachinesAlike.done (alike : MachinesAlike names program other machine twin) :
    OutcomesAlike names program other (.done machine) (.done twin) :=
  ⟨alike, rfl, rfl⟩

theorem MachinesAlike.moveTo (alike : MachinesAlike names program other machine twin)
    (shares : Shares names program other)
    (stands : Corresponds names program other position place)
    (waits : List.Forall₂ (Corresponds names program other) callers others) :
    OutcomesAlike names program other (machine.moveTo position callers)
      (twin.moveTo place others) := by
  obtain ⟨control, notes⟩ := settle_alike shares stands waits
  rw [Machine.moveTo, Machine.moveTo, alike.runs, alike.twinRuns, notes]
  exact ⟨⟨rfl, rfl, control, alike.store, alike.output⟩, rfl, rfl⟩

theorem MachinesAlike.write (alike : MachinesAlike names program other machine twin)
    (pieces : List (List Char)) :
    OutcomesAlike names program other (machine.write pieces) (twin.write pieces) := by
  induction pieces generalizing machine twin with
  | nil => exact alike.done
  | cons piece rest ih =>
      have taken : MachinesAlike names program other
          { machine with output := (twin.output.write (Text.Utf8.encode piece)).sink }
          { twin with output := (twin.output.write (Text.Utf8.encode piece)).sink } :=
        ⟨alike.runs, alike.twinRuns, alike.control, alike.store, rfl⟩
      simp only [Machine.write, alike.output]
      split
      · exact OutcomesAlike.andThen ⟨taken, rfl, rfl⟩ fun _ _ => ih
      · exact ⟨taken, rfl, rfl⟩

inductive EffectsAlike (names : String → Prop) (program other : Program) :
    Effect → Effect → Prop where
  | print (value : Int64) : EffectsAlike names program other (.print value) (.print value)
  | set (name : String) (value : Int64) :
      EffectsAlike names program other (.set name value) (.set name value)
  | call {index place : Nat}
      (stands : Corresponds names program other (.start index) (.start place)) :
      EffectsAlike names program other (.call index) (.call place)

theorem MachinesAlike.value_eq (alike : MachinesAlike names program other machine twin)
    (line : Nat) (operand : Operand) : machine.value line operand = twin.value line operand := by
  cases operand <;> simp only [Machine.value, alike.store]

/-- A statement fails alike on both machines, or is about to do the same. -/
theorem MachinesAlike.effect (alike : MachinesAlike names program other machine twin)
    (shares : Shares names program other) {statement : Statement}
    (used : ∀ name, statement.instruction = .call name → names name) :
    (∃ error, machine.effect statement = .error error ∧ twin.effect statement = .error error) ∨
      ∃ effect counterpart, machine.effect statement = .ok effect ∧
        twin.effect statement = .ok counterpart ∧
        EffectsAlike names program other effect counterpart := by
  obtain ⟨line, instruction⟩ := statement
  cases instruction with
  | print operand =>
      simp only [Machine.effect, alike.value_eq]
      cases twin.value line operand with
      | error error => exact .inl ⟨error, rfl, rfl⟩
      | ok value => exact .inr ⟨_, _, rfl, rfl, .print value⟩
  | set name operand =>
      simp only [Machine.effect, alike.value_eq]
      cases twin.value line operand with
      | error error => exact .inl ⟨error, rfl, rfl⟩
      | ok value => exact .inr ⟨_, _, rfl, rfl, .set name value⟩
  | call name =>
      simp only [Machine.effect, alike.runs, alike.twinRuns]
      rcases shares.find?_cases (used name rfl) with
        ⟨unknown, unheard⟩ | ⟨index, place, found, known, stands⟩
      · rw [unknown, unheard]
        exact .inl ⟨_, rfl, rfl⟩
      · rw [found, known]
        exact .inr ⟨_, _, rfl, rfl, .call stands⟩

theorem MachinesAlike.perform (alike : MachinesAlike names program other machine twin)
    (shares : Shares names program other)
    (stands : Corresponds names program other position place)
    (waits : List.Forall₂ (Corresponds names program other) callers others)
    {effect counterpart : Effect}
    (effects : EffectsAlike names program other effect counterpart) (line : Nat) :
    OutcomesAlike names program other (machine.perform position callers line effect)
      (twin.perform place others line counterpart) := by
  cases effects with
  | print value =>
      exact (alike.write _).andThen fun _ _ written => written.moveTo shares stands.next waits
  | set name value =>
      have assigned : MachinesAlike names program other
          { machine with store := machine.store.set name value }
          { twin with store := twin.store.set name value } :=
        ⟨alike.runs, alike.twinRuns, alike.control, by rw [alike.store], alike.output⟩
      exact assigned.moveTo shares stands.next waits
  | call called =>
      simp only [Machine.perform, waits.length_eq]
      split
      · exact ⟨alike, rfl, rfl⟩
      · exact alike.moveTo shares called (.cons stands waits)

/-- Two machines that are alike are before `main`, behind it, or at corresponding places. -/
theorem MachinesAlike.control_cases (alike : MachinesAlike names program other machine twin) :
    (machine.control = .ready ∧ twin.control = .ready) ∨
    (machine.control = .finished ∧ twin.control = .finished) ∨
    ∃ position place callers others, machine.control = .running position callers ∧
      twin.control = .running place others ∧ Corresponds names program other position place ∧
      List.Forall₂ (Corresponds names program other) callers others := by
  have controls := alike.control
  generalize machine.control = control at controls
  generalize twin.control = twinControl at controls
  cases controls with
  | ready => exact .inl ⟨rfl, rfl⟩
  | finished => exact .inr (.inl ⟨rfl, rfl⟩)
  | running stands waits => exact .inr (.inr ⟨_, _, _, _, rfl, rfl, stands, waits⟩)

/-- Executing the statements at corresponding places leaves machines alike. -/
theorem MachinesAlike.execute (alike : MachinesAlike names program other machine twin)
    (shares : Shares names program other) :
    OutcomesAlike names program other machine.execute twin.execute := by
  rcases alike.control_cases with
    ⟨ready, twinReady⟩ | ⟨finished, twinFinished⟩ |
    ⟨position, place, callers, others, running, twinRunning, stands, waits⟩
  · simp only [Machine.execute, ready, twinReady]
    exact alike.done
  · simp only [Machine.execute, finished, twinFinished]
    exact alike.done
  · have same := stands.statement?_eq shares
    cases found : program.statement? position with
    | none =>
        simp only [Machine.execute, running, twinRunning, alike.runs, alike.twinRuns, ← same, found]
        exact ⟨alike, rfl, rfl⟩
    | some statement =>
        have stood : machine.program.statement? position = some statement := by
          rw [alike.runs, found]
        have twinStood : twin.program.statement? place = some statement := by
          rw [alike.twinRuns, ← same, found]
        rcases alike.effect shares fun _ => stands.callee shares found with
          ⟨error, failed, twinFailed⟩ | ⟨effect, counterpart, defined, twinDefined, effects⟩
        · rw [execute_of_error running stood failed,
            execute_of_error twinRunning twinStood twinFailed]
          exact ⟨alike, rfl, rfl⟩
        · have performed := alike.perform shares stands waits effects statement.line
          have announced : (announcement statement effect).unindexed =
              (announcement statement counterpart).unindexed := by
            cases effects <;> rfl
          rw [execute_of_effect running stood defined,
            execute_of_effect twinRunning twinStood twinDefined]
          exact ⟨performed.state,
            by simp only [Journal.unindexed_append, announced, performed.events], performed.failure⟩

/-- Entering `main` leaves machines alike. -/
theorem MachinesAlike.start (alike : MachinesAlike names program other machine twin)
    (shares : Shares names program other) :
    OutcomesAlike names program other machine.start twin.start := by
  rcases alike.control_cases with
    ⟨ready, twinReady⟩ | ⟨finished, twinFinished⟩ | ⟨_, _, _, _, running, twinRunning, _, _⟩
  · simp only [Machine.start, ready, twinReady, enter, alike.runs, alike.twinRuns]
    rcases shares.find?_cases shares.entry with
      ⟨unknown, unheard⟩ | ⟨index, place, found, known, stands⟩
    · rw [unknown, unheard]
      exact ⟨alike, rfl, rfl⟩
    · rw [found, known]
      exact OutcomesAlike.andThen ⟨alike, rfl, rfl⟩ fun _ _ entered =>
        entered.moveTo shares stands .nil
  · rw [start_of_not_ready (by simp [finished]), start_of_not_ready (by simp [twinFinished])]
    exact alike.done
  · rw [start_of_not_ready (by simp [running]), start_of_not_ready (by simp [twinRunning])]
    exact alike.done

/-- A step leaves machines alike. -/
theorem MachinesAlike.stepInto (alike : MachinesAlike names program other machine twin)
    (shares : Shares names program other) :
    OutcomesAlike names program other machine.stepInto twin.stepInto :=
  (alike.start shares).andThen fun _ _ started => started.execute shares

/-! ## Operations -/

theorem ControlsAlike.isFinished_eq {control twinControl : Control}
    (alike : ControlsAlike names program other control twinControl) :
    control.isFinished = twinControl.isFinished := by
  cases alike <;> rfl

theorem ControlsAlike.isRunning_eq {control twinControl : Control}
    (alike : ControlsAlike names program other control twinControl) :
    control.isRunning = twinControl.isRunning := by
  cases alike <;> rfl

theorem ControlsAlike.depth_eq {control twinControl : Control}
    (alike : ControlsAlike names program other control twinControl) :
    control.depth = twinControl.depth := by
  cases alike with
  | running stands waits => simp only [Control.depth, waits.length_eq]
  | _ => rfl

/-- A loop of steps leaves machines alike. -/
theorem MachinesAlike.stepWhile (alike : MachinesAlike names program other machine twin)
    (shares : Shares names program other) {continues goesOn : Machine → Bool}
    (agree : ∀ machine twin, MachinesAlike names program other machine twin →
      continues machine = goesOn twin)
    {journal twinJournal : Journal} (events : journal.unindexed = twinJournal.unindexed) :
    OutcomesAlike names program other (machine.stepWhile continues journal)
      (twin.stepWhile goesOn twinJournal) := by
  -- The weight of the machine, which every step makes smaller, carries the induction.
  induction weight : machine.weight using Nat.strongRecOn generalizing machine twin journal
    twinJournal with
  | _ _ ih =>
  subst weight
  have ends := alike.control.isFinished_eq
  have same := agree machine twin alike
  by_cases stops : twin.control.isFinished = true ∨ goesOn twin = false
  · rw [stepWhile_of_stops stops, stepWhile_of_stops (by rwa [ends, same])]
    exact ⟨alike, events, rfl⟩
  · simp only [not_or, Bool.not_eq_true, Bool.not_eq_false] at stops
    obtain ⟨unfinished, unstopped⟩ := stops
    have stepped := alike.stepInto shares
    have later : (journal ++ machine.stepInto.journal : Journal).unindexed =
        (twinJournal ++ twin.stepInto.journal : Journal).unindexed := by
      simp only [Journal.unindexed_append, events, stepped.events]
    cases failure : twin.stepInto.failure with
    | some error =>
        rw [stepWhile_of_failure unfinished unstopped failure,
          stepWhile_of_failure (ends.trans unfinished) (same.trans unstopped)
            (stepped.failure.trans failure)]
        exact ⟨stepped.state, later, rfl⟩
    | none =>
        have success := stepped.failure.trans failure
        rw [stepWhile_of_success unfinished unstopped failure,
          stepWhile_of_success (ends.trans unfinished) (same.trans unstopped) success]
        exact ih _ (weight_stepInto_lt (ends.trans unfinished) success) stepped.state later rfl

/-- Machines that are alike repeat the steps of an operation equally long. -/
theorem MachinesAlike.continues_eq (alike : MachinesAlike names program other machine twin)
    (shares : Shares names program other) (operation : Operation) {later twinLater : Machine}
    (behind : MachinesAlike names program other later twinLater) :
    operation.continues machine later = operation.continues twin twinLater := by
  cases operation with
  | run => rfl
  | stepInto => rfl
  | stepOver =>
      have outer : machine.start.state.depth = twin.start.state.depth :=
        (alike.start shares).state.control.depth_eq
      have inner : later.depth = twinLater.depth := behind.control.depth_eq
      simp only [Operation.continues, isInside, behind.control.isRunning_eq, outer, inner]

/-- An operation leaves machines alike. -/
theorem MachinesAlike.apply (alike : MachinesAlike names program other machine twin)
    (shares : Shares names program other) (operation : Operation) :
    OutcomesAlike names program other (operation.apply machine) (operation.apply twin) := by
  rw [apply_eq_stepInto_andThen, apply_eq_stepInto_andThen]
  exact (alike.stepInto shares).andThen fun _ _ stepped =>
    stepped.stepWhile shares (fun _ _ => alike.continues_eq shares operation) rfl

end Steps

/-! ## Reports -/

section Reports

variable {machine twin : Machine}

theorem MachinesAlike.currentLine?_eq (alike : MachinesAlike names program other machine twin)
    (shares : Shares names program other) : machine.currentLine? = twin.currentLine? := by
  rcases alike.control_cases with
    ⟨ready, twinReady⟩ | ⟨finished, twinFinished⟩ | ⟨_, _, _, _, running, twinRunning, stands, _⟩
  · simp only [currentLine?, ready, twinReady]
  · simp only [currentLine?, finished, twinFinished]
  · simp only [currentLine?, running, twinRunning, alike.runs, alike.twinRuns,
      stands.statement?_eq shares]

theorem MachinesAlike.currentProcedure?_eq
    (alike : MachinesAlike names program other machine twin) :
    machine.currentProcedure? = twin.currentProcedure? := by
  rcases alike.control_cases with
    ⟨ready, twinReady⟩ | ⟨finished, twinFinished⟩ | ⟨_, _, _, _, running, twinRunning, stands, _⟩
  · simp only [currentProcedure?, ready, twinReady]
  · simp only [currentProcedure?, finished, twinFinished]
  · simp only [currentProcedure?, running, twinRunning, alike.runs, alike.twinRuns,
      stands.procedure?_eq]

/-- The calls that wait in a linked row of frames are statements. -/
theorem Linked.exists_statement {above : Nat} {callers : List Position}
    (linked : Linked program above callers) {caller : Position} (waits : caller ∈ callers) :
    ∃ statement, program.statement? caller = some statement := by
  induction linked with
  | entered named => cases waits
  | called found named rest ih =>
      rcases List.mem_cons.mp waits with rfl | outer
      · exact ⟨_, found⟩
      · exact ih outer

/-- Where a statement stands, the line of its procedure is not reported. -/
theorem Corresponds.report_eq {position place : Position} {statement : Statement}
    (stands : Corresponds names program other position place)
    (shares : Shares names program other) (found : program.statement? position = some statement) :
    FrameReport.ofPlace program position = FrameReport.ofPlace other place := by
  have known : other.statement? place = some statement := by
    rw [← stands.statement?_eq shares, found]
  simp only [FrameReport.ofPlace, stands.nameAt_eq, Program.lineAt_of_statement found,
    Program.lineAt_of_statement known]

theorem reports_eq (shares : Shares names program other) {callers others : List Position}
    (waits : List.Forall₂ (Corresponds names program other) callers others)
    (found : ∀ caller ∈ callers, ∃ statement, program.statement? caller = some statement) :
    callers.map (FrameReport.ofPlace program) = others.map (FrameReport.ofPlace other) := by
  induction waits with
  | nil => rfl
  | @cons caller waiting callers others first rest ih =>
      obtain ⟨statement, stands⟩ := found caller (.head _)
      rw [List.map_cons, List.map_cons, first.report_eq shares stands,
        ih fun outer member => found outer (.tail _ member)]

/-- Sound machines that are alike have the same backtrace. -/
theorem MachinesAlike.backtrace_eq (alike : MachinesAlike names program other machine twin)
    (shares : Shares names program other) (sound : machine.Sound) :
    machine.backtrace = twin.backtrace := by
  rcases alike.control_cases with
    ⟨ready, twinReady⟩ | ⟨finished, twinFinished⟩ |
    ⟨position, place, callers, others, running, twinRunning, stands, waits⟩
  · simp only [backtrace, frames, ready, twinReady, List.mapIdx_nil]
  · simp only [backtrace, frames, finished, twinFinished, List.mapIdx_nil]
  · obtain ⟨statement, _, linked⟩ := sound position callers running
    rw [alike.runs] at statement linked
    have found : ∀ caller ∈ position :: callers,
        ∃ statement, program.statement? caller = some statement :=
      List.forall_mem_cons.mpr ⟨statement, fun _ => linked.exists_statement⟩
    rw [backtrace_eq_reports, backtrace_eq_reports, frames_of_running running,
      frames_of_running twinRunning, alike.runs, alike.twinRuns,
      reports_eq shares (.cons stands waits) found]

theorem MachinesAlike.redirect (alike : MachinesAlike names program other machine twin)
    (output : Sink) :
    MachinesAlike names program other { machine with output := output }
      { twin with output := output } :=
  ⟨alike.runs, alike.twinRuns, alike.control, alike.store, rfl⟩

end Reports

/-! ## Programs of trees -/

theorem shares_of_compiled {first second : Tree} (compiled : Program.ofTree first = .ok program)
    (compiledOther : Program.ofTree second = .ok other)
    (agree : ∀ name, first.Reaches name → first.body? name = second.body? name) :
    Shares first.Reaches program other where
  entry := ⟨1, .main⟩
  closed := by
    rintro name callee index offset line ⟨count, chain⟩ found stands
    obtain ⟨procedure, owner, _, body⟩ := Program.exists_procedure_of_find? compiled found
    have inside : procedure.body[offset]? = some ⟨line, .call callee⟩ := by
      simpa [Program.statement?, Program.procedure?, owner] using stands
    have member : ⟨line, .call callee⟩ ∈ procedure.body.toList :=
      Array.mem_toList_iff.mpr (Array.mem_of_getElem? inside)
    exact ⟨count + 1, chain.call ⟨_, line, body, member⟩⟩
  bodies := by
    intro name reached
    have same := agree name reached
    cases found : program.find? name with
    | none =>
        rw [Program.body?_eq_none compiled found] at same
        rw [Program.find?_eq_none_of_body? compiledOther same.symm]
        exact .none
    | some index =>
        obtain ⟨procedure, owner, _, body⟩ := Program.exists_procedure_of_find? compiled found
        rw [body] at same
        obtain ⟨place, counterpart, known, counterOwner, equal⟩ :=
          Program.exists_procedure_of_body? compiledOther same.symm
        rw [known]
        refine .some fun offset => ?_
        simp only [Program.statement?, Program.procedure?, owner, counterOwner, Option.bind_some,
          ← Array.getElem?_toList, equal]

theorem machinesAlike_ofProgram (names : String → Prop) (program other : Program) (output : Sink) :
    MachinesAlike names program other (ofProgram program output) (ofProgram other output) :=
  ⟨rfl, rfl, .ready, rfl, rfl⟩

end Machine

end Guu
