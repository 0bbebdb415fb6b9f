import Guu.Proofs.Machine.CallStack

/-!
# Stepping over a call comes back behind it

Stepping over a statement compares nothing but the depths of call stacks.  It
nevertheless stays above the frames that were there in front of the statement,
and ends behind that statement, however the callee calls the procedure that
called it, and however many frames are left at once.  As long as a call has not
returned, its place waits on the stack directly above those frames, and when it
is not there any more, execution has gone on behind it.
-/

namespace Guu

namespace Program

def assigning (program : Program) (position : Position) (instruction : Instruction) : Program :=
  ⟨program.procedures.modify position.procedure fun procedure =>
    { procedure with
      body := procedure.body.modify position.offset fun statement =>
        { statement with instruction := instruction } }⟩

/-- Only the statement at that place becomes another one. -/
theorem statement?_assigning (program : Program) (position place : Position)
    (instruction : Instruction) :
    (program.assigning position instruction).statement? place =
      if place = position then
        (program.statement? place).map fun statement =>
          { statement with instruction := instruction }
      else program.statement? place := by
  obtain ⟨procedure, offset⟩ := position
  obtain ⟨index, inner⟩ := place
  simp only [statement?, procedure?, assigning, Array.getElem?_modify, Position.mk.injEq]
  by_cases same : index = procedure
  · subst same
    cases found : program.procedures[index]? with
    | none => simp
    | some body =>
        by_cases equal : inner = offset
        · subst equal
          simp [Array.getElem?_modify]
        · simp [Array.getElem?_modify, equal, Ne.symm equal]
  · simp [same, Ne.symm same]

end Program

namespace Machine

/-! ## Where leaving procedures comes to rest -/

/--
Execution rests in front of the first statement that is pending behind one of
some places, in the frame of that place, or it is over if there is none.
-/
inductive Rests (program : Program) (places : List Position) : Control → Prop where
  | pending {left outer : List Position} {place : Position} {statement : Statement}
      (split : places = left ++ place :: outer)
      (ended : ∀ earlier ∈ left, program.statement? earlier.next = none)
      (found : program.statement? place.next = some statement) :
      Rests program places (.running place.next outer)
  | finished (ended : ∀ place ∈ places, program.statement? place.next = none) :
      Rests program places .finished

theorem Rests.first {program : Program} {place : Position} {statement : Statement}
    (found : program.statement? place.next = some statement) (places : List Position) :
    Rests program (place :: places) (.running place.next places) :=
  .pending (List.nil_append (place :: places)).symm nofun found

theorem Rests.outward {program : Program} {place : Position} {places : List Position}
    {control : Control} (ended : program.statement? place.next = none)
    (rests : Rests program places control) : Rests program (place :: places) control := by
  cases rests with
  | @pending left outer resting statement split earlier found =>
      have further : place :: places = (place :: left) ++ resting :: outer :=
        congrArg (place :: ·) split
      exact .pending further (List.forall_mem_cons.mpr ⟨ended, earlier⟩) found
  | finished all => exact .finished (List.forall_mem_cons.mpr ⟨ended, all⟩)

/-- Going on behind a place rests where the first statement of it and its callers is pending. -/
theorem rests_settle (program : Program) (position : Position) (callers : List Position) :
    Rests program (position :: callers) (settle program position.next callers).control := by
  induction callers generalizing position with
  | nil =>
      cases found : program.statement? position.next with
      | some statement =>
          rw [settle_of_statement found]
          exact .first found _
      | none =>
          rw [control_settle_of_end found]
          exact .finished (List.forall_mem_singleton.mpr found)
  | cons caller outer ih =>
      cases found : program.statement? position.next with
      | some statement =>
          rw [settle_of_statement found]
          exact .first found _
      | none =>
          rw [control_settle_of_end found]
          exact (ih caller).outward found

/-- Where execution rests depends on nothing but where there are statements. -/
theorem control_settle_congr {program other : Program}
    (same : ∀ place, (other.statement? place).isSome = (program.statement? place).isSome)
    (position : Position) (callers : List Position) :
    (settle other position callers).control = (settle program position callers).control := by
  induction callers generalizing position with
  | nil =>
      unfold settle
      rw [same position]
  | cons caller outer ih =>
      unfold settle
      rw [same position]
      split
      · rfl
      · exact ih caller.next

theorem depth_settle_le (program : Program) (position : Position) (callers : List Position) :
    (settle program position callers).control.depth ≤ callers.length + 1 := by
  have unwinds := unwinds_settle program position callers
  generalize (settle program position callers).control = control at unwinds
  induction unwinds with
  | stay found => exact Nat.le_refl _
  | left ended => exact Nat.zero_le _
  | leave ended rest ih => exact Nat.le_succ_of_le ih

/-! ## A call that waits, or has returned -/

/-- A statement waits directly above the frames that were there in front of it, or lies behind. -/
inductive WaitsOrPassed (program : Program) (position : Position) (callers : List Position) :
    Control → Prop where
  | waits (place : Position) (inner : List Position) :
      WaitsOrPassed program position callers (.running place (inner ++ position :: callers))
  | passed : WaitsOrPassed program position callers (settle program position.next callers).control

section WaitsOrPassed

variable {program : Program} {position : Position} {callers : List Position}

/-- Leaving procedures above a waiting call leaves the call itself last. -/
theorem waitsOrPassed_settle (program : Program) (position place : Position)
    (inner callers : List Position) :
    WaitsOrPassed program position callers
      (settle program place (inner ++ position :: callers)).control := by
  induction inner generalizing place with
  | nil =>
      cases found : program.statement? place with
      | some statement =>
          rw [settle_of_statement found]
          exact .waits place []
      | none =>
          rw [control_settle_of_end found]
          exact .passed
  | cons first rest ih =>
      cases found : program.statement? place with
      | some statement =>
          rw [settle_of_statement found]
          exact .waits place (first :: rest)
      | none =>
          rw [control_settle_of_end found]
          exact ih first.next

/-- A successful step goes on behind its statement, or at the start of the procedure it calls. -/
theorem Executed.control_of_success {machine : Machine} {outcome : MachineOutcome}
    (executed : Executed machine position callers outcome) (success : outcome.failure = none) :
    (∃ statement, machine.program.statement? position = some statement) ∧
      (outcome.state.control = (settle machine.program position.next callers).control ∨
        ∃ procedure, outcome.state.control =
          (settle machine.program (.start procedure) (position :: callers)).control) := by
  cases executed with
  | absent missing => cases success
  | undefined found refused => cases success
  | unprinted found defined refused => cases success
  | overflowed found defined full => cases success
  | @printed statement value found defined written =>
      rw [← program_write machine (printedPieces value)] at found ⊢
      exact ⟨⟨_, found⟩, .inl rfl⟩
  | assigned found defined => exact ⟨⟨_, found⟩, .inl rfl⟩
  | called found defined free => exact ⟨⟨_, found⟩, .inr ⟨_, rfl⟩⟩

/-- A statement that is executed above a waiting call keeps it waiting, or lets it return. -/
theorem Executed.waitsOrPassed {machine : Machine} {place : Position} {inner : List Position}
    {outcome : MachineOutcome}
    (executed : Executed machine place (inner ++ position :: callers) outcome)
    (success : outcome.failure = none) :
    WaitsOrPassed machine.program position callers outcome.state.control := by
  obtain ⟨_, behind | ⟨procedure, called⟩⟩ := executed.control_of_success success
  · rw [behind]
    exact waitsOrPassed_settle machine.program position place.next inner callers
  · rw [called]
    exact waitsOrPassed_settle machine.program position (.start procedure) (place :: inner) callers

/-- The first step leaves a call waiting, and everything else behind. -/
theorem Executed.waitsOrPassed_first {machine : Machine} {outcome : MachineOutcome}
    (executed : Executed machine position callers outcome) (success : outcome.failure = none) :
    WaitsOrPassed machine.program position callers outcome.state.control := by
  obtain ⟨_, behind | ⟨procedure, called⟩⟩ := executed.control_of_success success
  · rw [behind]
    exact .passed
  · rw [called]
    exact waitsOrPassed_settle machine.program position (.start procedure) [] callers

/-! ## The loop above a waiting call -/

variable {machine other : Machine}

/-- The loop goes on exactly as long as the call waits. -/
theorem WaitsOrPassed.isInside_iff (running : machine.control = .running position callers)
    (stands : WaitsOrPassed program position callers other.control) :
    machine.isInside other = true ↔
      ∃ place inner, other.control = .running place (inner ++ position :: callers) := by
  have depth : machine.control.depth = callers.length + 1 := by rw [running]; rfl
  unfold isInside Machine.depth
  rw [Bool.and_eq_true, decide_eq_true_eq, depth]
  generalize other.control = control at stands
  cases stands with
  | waits place inner =>
      have deeper : callers.length + 1 < (inner ++ position :: callers).length + 1 := by
        simp only [List.length_append, List.length_cons]
        omega
      exact iff_of_true ⟨rfl, deeper⟩ ⟨place, inner, rfl⟩
  | passed =>
      have bounded := depth_settle_le program position.next callers
      constructor
      · rintro ⟨_, deeper⟩
        omega
      · rintro ⟨place, inner, waiting⟩
        rw [waiting] at bounded
        simp only [Control.depth, List.length_append, List.length_cons] at bounded
        omega

/-- Where the loop stops, the call has returned. -/
theorem WaitsOrPassed.eq_of_stops (running : machine.control = .running position callers)
    (stands : WaitsOrPassed program position callers other.control)
    (stops : other.control.isFinished = true ∨ machine.isInside other = false) :
    other.control = (settle program position.next callers).control := by
  have left : ¬∃ place inner, other.control = .running place (inner ++ position :: callers) := by
    rintro ⟨place, inner, waiting⟩
    rcases stops with finished | outside
    · simp [waiting, Control.isFinished] at finished
    · have inside := (stands.isInside_iff running).mpr ⟨place, inner, waiting⟩
      simp [outside] at inside
  generalize other.control = control at stands left
  cases stands with
  | waits place inner => exact absurd ⟨place, inner, rfl⟩ left
  | passed => rfl

/-- While the call waits, its frame lies directly above those in front of it. -/
theorem suffix_frames {place : Position} {inner : List Position}
    (running : machine.control = .running position callers)
    (waiting : other.control = .running place (inner ++ position :: callers)) :
    .resume position.next :: machine.control.frames <:+ other.control.frames := by
  rw [running, waiting]
  refine ⟨inner.map fun caller => .resume caller.next, ?_⟩
  simp [Control.frames]

theorem waitsOrPassed_stepInto (running : machine.control = .running position callers)
    (same : other.program = machine.program)
    (stands : WaitsOrPassed machine.program position callers other.control)
    (inside : machine.isInside other = true) (success : other.stepInto.failure = none) :
    WaitsOrPassed machine.program position callers other.stepInto.state.control := by
  obtain ⟨place, inner, waiting⟩ := (stands.isInside_iff running).mp inside
  have stepped := (executed_stepInto waiting).waitsOrPassed success
  rwa [same] at stepped

/-- What every step of the loop keeps, the whole loop keeps. -/
theorem Execution.waitsOrPassed {count : Nat} {journal : Journal} {last : Machine}
    (execution : Execution machine.isInside count other journal last)
    (running : machine.control = .running position callers)
    (same : other.program = machine.program)
    (stands : WaitsOrPassed machine.program position callers other.control) :
    WaitsOrPassed machine.program position callers last.control := by
  induction execution with
  | refl => exact stands
  | next unfinished goesOn success rest ih =>
      have stepped := waitsOrPassed_stepInto running same stands goesOn success
      exact ih ((program_stepInto _).trans same) stepped

end WaitsOrPassed

/-! ## The same with an assignment in place of the call -/

def assigning (machine : Machine) (position : Position) (name : String) (value : Int64) :
    Machine :=
  { machine with program := machine.program.assigning position (.set name (.literal value)) }

/-- An assignment succeeds, and execution goes on behind it as it would behind a call. -/
theorem stepInto_assigning {machine : Machine} {position : Position} {callers : List Position}
    {statement : Statement} (running : machine.control = .running position callers)
    (found : machine.program.statement? position = some statement) (name : String)
    (value : Int64) :
    let step := (machine.assigning position name value).stepInto
    step.failure = none ∧
      step.state.control = (settle machine.program position.next callers).control := by
  have assigned : (machine.assigning position name value).program.statement? position =
      some { statement with instruction := .set name (.literal value) } := by
    rw [assigning, Program.statement?_assigning, if_pos rfl, found]
    rfl
  have still : (machine.assigning position name value).control = .running position callers :=
    running
  have defined : (machine.assigning position name value).effect
      { statement with instruction := .set name (.literal value) } = .ok (.set name value) :=
    rfl
  rw [stepInto_of_not_ready (by simp [still]), execute_of_effect still assigned defined]
  refine ⟨rfl, control_settle_congr (fun place => ?_) position.next callers⟩
  change ((machine.assigning position name value).program.statement? place).isSome = _
  rw [assigning, Program.statement?_assigning]
  split
  · exact Option.isSome_map
  · rfl

/-! ## Stepping over a statement -/

/-- How stepping over the statement at a place goes on and ends. -/
structure StepsOver (machine : Machine) (position : Position) (callers : List Position) : Prop where
  /-- Behind its first step it is a loop of steps, and nothing else. -/
  loops : machine.stepInto.failure = none → ∃ count journal last ending,
    Execution machine.isInside count machine.stepInto.state journal last ∧
      LoopEnd machine.isInside last ending ∧
      machine.stepOver =
        ⟨ending.state, machine.stepInto.journal ++ (journal ++ ending.journal), ending.failure⟩
  /-- Where the loop goes on, the frames that were there before lie at the bottom of the stack. -/
  between : machine.stepInto.failure = none → ∀ count journal middle,
    Execution machine.isInside count machine.stepInto.state journal middle →
      machine.isInside middle = true →
      .resume position.next :: machine.control.frames <:+ middle.control.frames
  /-- Where it fails, they do as well. -/
  failing : ∀ error, machine.stepOver.failure = some error →
    machine.control.frames <:+ machine.stepOver.state.control.frames
  /-- Where it succeeds, execution has gone on behind the statement. -/
  returns : machine.stepOver.failure = none →
    machine.stepOver.state.control = (settle machine.program position.next callers).control
  /-- That is in front of the first statement that is pending in the frame of the statement or
  in one further out, or behind `main`. -/
  rests : machine.stepOver.failure = none →
    Rests machine.program (position :: callers) machine.stepOver.state.control
  /-- It is also where an assignment in place of the statement leads to. -/
  assigns : machine.stepOver.failure = none → ∀ name value,
    (machine.assigning position name value).stepInto.failure = none ∧
      (machine.assigning position name value).stepInto.state.control =
        machine.stepOver.state.control

section StepsOver

variable {machine : Machine} {position : Position} {callers : List Position}

theorem stepOver_of_running (running : machine.control = .running position callers) :
    machine.stepOver =
      machine.stepInto.andThen fun stepped => stepped.stepWhile machine.isInside #[] :=
  stepOver_of_not_ready (by simp [running])

/-- Behind its first step, stepping over a statement is a loop. -/
theorem loop_of_stepOver (running : machine.control = .running position callers)
    (success : machine.stepInto.failure = none) :
    ∃ count journal last ending,
      Execution machine.isInside count machine.stepInto.state journal last ∧
        LoopEnd machine.isInside last ending ∧
        machine.stepOver =
          ⟨ending.state, machine.stepInto.journal ++ (journal ++ ending.journal),
            ending.failure⟩ := by
  obtain ⟨count, journal, last, ending, execution, ends, loop⟩ :=
    exists_execution_of_loop machine.isInside machine.stepInto.state
  refine ⟨count, journal, last, ending, execution, ends, ?_⟩
  rw [stepOver_of_running running, Outcome.andThen_of_success success, loop, Array.empty_append]

/-- Wherever the loop is, the call still waits or has returned. -/
theorem waitsOrPassed_of_execution (running : machine.control = .running position callers)
    (success : machine.stepInto.failure = none) {count : Nat} {journal : Journal}
    {middle : Machine}
    (execution : Execution machine.isInside count machine.stepInto.state journal middle) :
    WaitsOrPassed machine.program position callers middle.control :=
  execution.waitsOrPassed running (program_stepInto machine)
    ((executed_stepInto running).waitsOrPassed_first success)

theorem suffix_frames_of_execution (running : machine.control = .running position callers)
    (success : machine.stepInto.failure = none) {count : Nat} {journal : Journal}
    {middle : Machine}
    (execution : Execution machine.isInside count machine.stepInto.state journal middle)
    (inside : machine.isInside middle = true) :
    .resume position.next :: machine.control.frames <:+ middle.control.frames := by
  have stands := waitsOrPassed_of_execution running success execution
  obtain ⟨place, inner, waiting⟩ := (stands.isInside_iff running).mp inside
  exact suffix_frames running waiting

theorem suffix_frames_of_failure (running : machine.control = .running position callers)
    {error : RuntimeError} (failure : machine.stepOver.failure = some error) :
    machine.control.frames <:+ machine.stepOver.state.control.frames := by
  cases stepped : machine.stepInto.failure with
  | some other =>
      have unmoved : machine.stepOver.state.control = machine.control := by
        rw [stepOver_of_running running, Outcome.andThen_of_failure stepped,
          (executed_stepInto running).control_of_failure stepped]
      exact unmoved ▸ List.suffix_refl _
  | none =>
      obtain ⟨count, journal, last, ending, execution, ends, loop⟩ :=
        loop_of_stepOver running stepped
      rw [loop] at failure ⊢
      cases ends with
      | stopped stops => cases failure
      | failed unfinished inside failed =>
          have stands := waitsOrPassed_of_execution running stepped execution
          obtain ⟨place, inner, waiting⟩ := (stands.isInside_iff running).mp inside
          rw [(executed_stepInto waiting).control_of_failure failed]
          exact (List.suffix_cons _ _).trans (suffix_frames running waiting)

theorem stepInto_of_stepOver_success (running : machine.control = .running position callers)
    (success : machine.stepOver.failure = none) : machine.stepInto.failure = none := by
  rw [stepOver_of_running running] at success
  exact (Outcome.failure_andThen_eq_none.mp success).1

theorem control_stepOver_of_success (running : machine.control = .running position callers)
    (success : machine.stepOver.failure = none) :
    machine.stepOver.state.control = (settle machine.program position.next callers).control := by
  have stepped := stepInto_of_stepOver_success running success
  obtain ⟨count, journal, last, ending, execution, ends, loop⟩ :=
    loop_of_stepOver running stepped
  rw [loop] at success ⊢
  cases ends with
  | stopped stops =>
      have stands := waitsOrPassed_of_execution running stepped execution
      exact stands.eq_of_stops running stops
  | failed unfinished inside failed => simp [failed] at success

theorem stepsOver_of_running (running : machine.control = .running position callers) :
    StepsOver machine position callers where
  loops := loop_of_stepOver running
  between success _ _ _ := suffix_frames_of_execution running success
  failing _ := suffix_frames_of_failure running
  returns := control_stepOver_of_success running
  rests success := by
    rw [control_stepOver_of_success running success]
    exact rests_settle machine.program position callers
  assigns success name value := by
    rw [control_stepOver_of_success running success]
    have stepped := stepInto_of_stepOver_success running success
    obtain ⟨⟨statement, found⟩, _⟩ := (executed_stepInto running).control_of_success stepped
    exact stepInto_assigning running found name value

end StepsOver

/--
Whatever machine stands in front of a statement, and whatever the statement is,
stepping over it makes steps only while the frames that it started with lie at
the bottom of the stack, also where one of the steps fails.  If it succeeds,
control is where it would be behind an assignment in place of the statement: in
front of the first statement that is pending in that frame or in one further
out, or behind `main`.  In front of `main`, stepping over enters it first.
-/
theorem stepping_over_comes_back (machine : Machine) :
    (∀ position callers, machine.control = .running position callers →
      StepsOver machine position callers) ∧
    (machine.control = .ready →
      machine.stepOver = machine.enter.andThen stepOver ∧
      ∀ position callers, machine.enter.state.control = .running position callers →
        StepsOver machine.enter.state position callers) := by
  refine ⟨fun position callers => stepsOver_of_running, fun ready => ⟨?_, ?_⟩⟩
  · have entering : machine.start = machine.enter := by rw [start, ready]
    have entered := apply_eq_start_andThen .stepOver machine
    rwa [entering] at entered
  · exact fun position callers => stepsOver_of_running

/-- Stepping over a call whose callee leaves three procedures at once. -/
theorem stepping_over_trailing_calls :
    let program : Program := ⟨#[
      ⟨"main", 1, #[⟨2, .call "outer"⟩, ⟨3, .print (.variable "a")⟩]⟩,
      ⟨"outer", 4, #[⟨5, .call "inner"⟩]⟩,
      ⟨"inner", 6, #[⟨7, .set "a" (.literal 4)⟩, ⟨8, .call "empty"⟩]⟩,
      ⟨"empty", 9, #[]⟩]⟩
    let machine := (ofProgram program {}).enter.state
    machine.control = .running ⟨0, 0⟩ [] ∧
      machine.stepInto.state.control = .running ⟨1, 0⟩ [⟨0, 0⟩] ∧
      machine.stepInto.state.control.frames = [.resume ⟨0, 1⟩, .entry] ∧
      machine.stepOver.failure = none ∧
      machine.stepOver.state.control = .running ⟨0, 1⟩ [] ∧
      (machine.assigning ⟨0, 0⟩ "b" 1).stepInto.state.control = .running ⟨0, 1⟩ [] := by
  intro program machine
  have running : machine.control = .running ⟨0, 0⟩ [] := by decide +kernel
  have inside : machine.stepInto.state.control = .running ⟨1, 0⟩ [⟨0, 0⟩] := by decide +kernel
  have success : machine.stepOver.failure = none := by decide +kernel
  have overs := (stepping_over_comes_back machine).1 _ _ running
  have returned : machine.stepOver.state.control = .running ⟨0, 1⟩ [] := by
    rw [overs.returns success]
    decide +kernel
  refine ⟨running, inside, ?_, success, returned, ?_⟩
  · rw [inside]
    rfl
  · rw [(overs.assigns success "b" 1).2, returned]

end Machine

end Guu
