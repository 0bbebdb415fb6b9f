import Guu.Machine.Stack
import Guu.Proofs.Machine.Operation
import Guu.Proofs.Program.Compilation

/-!
# The call stack

The bottom of the call stack belongs to `main`, and every other frame is there
because of the call behind which it resumes: that call names the procedure that
runs directly above it.  The frames are read off the places of the waiting
calls, where the same is said more simply.
-/

namespace Guu

namespace Control

def frames : Control → List Frame
  | running _ callers => callers.map (fun caller => .resume caller.next) ++ [.entry]
  | _ => []

def phase : Control → Nat
  | ready => 0
  | running .. => 1
  | finished => 2

theorem length_frames (control : Control) : control.frames.length = control.depth := by
  cases control <;> simp [frames, depth]

theorem phase_pos {control : Control} (started : control ≠ .ready) : 1 ≤ control.phase := by
  cases control with
  | ready => exact absurd rfl started
  | running position callers => exact Nat.le_refl 1
  | finished => exact Nat.le_succ 1

end Control

namespace Machine

/--
Frames are justified below a running procedure: each resumes directly behind a
call of the procedure above it, and only the lowest one belongs to `main`.
-/
inductive Justified (program : Program) : Nat → List Frame → Prop where
  | entry {above : Nat} (named : program.find? Program.entryPoint = some above) :
      Justified program above [.entry]
  | resume {above line : Nat} {place : Position} {procedure : Procedure} {name : String}
      {below : List Frame} (owner : program.procedure? place = some procedure)
      (behind : 1 ≤ place.offset) (inside : place.offset ≤ procedure.body.size)
      (call : procedure.body[place.offset - 1]? = some ⟨line, .call name⟩)
      (named : program.find? name = some above)
      (rest : Justified program place.procedure below) :
      Justified program above (.resume place :: below)

/-- Calls wait below a running procedure: each of them names the procedure above it. -/
inductive Linked (program : Program) : Nat → List Position → Prop where
  | entered {above : Nat} (named : program.find? Program.entryPoint = some above) :
      Linked program above []
  | called {above line : Nat} {caller : Position} {name : String} {outer : List Position}
      (found : program.statement? caller = some ⟨line, .call name⟩)
      (named : program.find? name = some above) (rest : Linked program caller.procedure outer) :
      Linked program above (caller :: outer)

/-- The frames of linked calls are justified. -/
theorem Linked.justified {program : Program} {position : Position} {callers : List Position}
    (linked : Linked program position.procedure callers) :
    Justified program position.procedure (Control.running position callers).frames := by
  unfold Control.frames
  generalize position.procedure = above at linked
  induction linked with
  | entered named => exact .entry named
  | @called above line caller name outer found named rest ih =>
      obtain ⟨procedure, owner, inside⟩ := Option.bind_eq_some_iff.mp found
      have bound : caller.offset < procedure.body.size :=
        (Array.getElem?_eq_some_iff.mp inside).1
      have behind : 1 ≤ caller.next.offset := Nat.succ_pos caller.offset
      exact .resume owner behind bound inside named ih

/-- Where a machine can stand: a running one before a statement, above linked calls. -/
def Sound (machine : Machine) : Prop :=
  ∀ position callers, machine.control = .running position callers →
    (∃ statement, machine.program.statement? position = some statement) ∧
    callers.length < stackLimit ∧ Linked machine.program position.procedure callers

theorem sound_of_control {machine other : Machine} (program : other.program = machine.program)
    (control : other.control = machine.control) (sound : machine.Sound) : other.Sound := by
  unfold Sound
  rw [program, control]
  exact sound

/-! ## Every step keeps the frames justified -/

/-- Leaving procedures ends above the calls that still wait. -/
theorem sound_resume {machine : Machine} {position : Position} {callers : List Position}
    (bounded : callers.length < stackLimit)
    (linked : Linked machine.program position.procedure callers) :
    (machine.resume position callers).Sound := by
  intro place waiting running
  have unwinds := unwinds_settle machine.program position callers
  change (settle machine.program position callers).control = _ at running
  rw [running] at unwinds
  generalize stands : Control.running place waiting = control at unwinds
  induction unwinds with
  | @stay position callers statement found =>
      cases stands
      exact ⟨⟨statement, found⟩, bounded, linked⟩
  | left ended => cases stands
  | @leave position caller outer control ended rest ih =>
      cases linked with
      | called found named rest =>
          have fewer : outer.length < stackLimit := Nat.lt_of_succ_lt bounded
          rw [control_settle_of_end ended] at running
          exact ih fewer rest running stands

theorem find?_of_effect_call {machine : Machine} {statement : Statement} {procedure : Nat}
    (defined : machine.effect statement = .ok (.call procedure)) :
    ∃ line name, statement = ⟨line, .call name⟩ ∧ machine.program.find? name = some procedure := by
  rcases machine.effect_cases statement with
    ⟨_, other⟩ | ⟨_, _, other⟩ | ⟨name, index, instruction, found, same⟩ | ⟨_, other⟩ | ⟨_, other⟩
  · simp [other] at defined
  · simp [other] at defined
  · rw [same] at defined
    cases defined
    obtain ⟨line, _⟩ := statement
    cases instruction
    exact ⟨line, name, rfl, found⟩
  · simp [other] at defined
  · simp [other] at defined

theorem Executed.sound {machine : Machine} {position : Position} {callers : List Position}
    {outcome : MachineOutcome} (executed : Executed machine position callers outcome)
    (running : machine.control = .running position callers) (sound : machine.Sound) :
    outcome.state.Sound := by
  obtain ⟨_, bounded, linked⟩ := sound position callers running
  cases executed with
  | absent missing => exact sound
  | undefined found refused => exact sound
  | overflowed found defined full => exact sound
  | unprinted found defined refused =>
      exact sound_of_control (program_write _ _) (control_write _ _) sound
  | printed found defined written =>
      refine sound_resume bounded ?_
      rw [program_write]
      exact linked
  | assigned found defined => exact sound_resume bounded linked
  | called found defined free =>
      obtain ⟨line, name, rfl, named⟩ := find?_of_effect_call defined
      exact sound_resume free (.called found named linked)

theorem sound_start {machine : Machine} (sound : machine.Sound) : machine.start.state.Sound := by
  have entered := entered_start machine
  generalize machine.start = outcome at entered
  cases entered with
  | absent ready missing => exact sound
  | entered ready found => exact sound_resume (by decide) (.entered found)
  | already started => exact sound

theorem sound_stepInto (machine : Machine) (sound : machine.Sound) :
    machine.stepInto.state.Sound := by
  refine stepInto_preserves Sound (fun _ => sound_start) ?_ machine sound
  intro other position callers outcome running executed sound
  exact executed.sound running sound

/-- Every machine that can arise is sound. -/
theorem Reachable.sound {program : Program} {machine : Machine}
    (reachable : Reachable program machine) : machine.Sound := by
  refine reachable.holds Sound ?_ sound_stepInto ?_
  · intro output position callers running
    cases running
  · intro machine output sound
    exact sound

/-! ## How steps fail and where they lead -/

/-- A step from the front of a statement never finds an instruction invalid. -/
theorem stepInto_ne_invalidInstruction {machine : Machine} (sound : machine.Sound) (line : Nat) :
    machine.stepInto.failure ≠ some (.invalidInstruction line) := by
  intro failure
  rcases fails_stepInto failure with missing | ⟨position, callers, running, fails⟩
  · cases missing
  · obtain ⟨⟨statement, stands⟩, _, _⟩ := sound_start sound position callers running
    cases fails with
    | absent missing => exact nomatch stands.symm.trans missing

theorem apply_ne_invalidInstruction {machine : Machine} (sound : machine.Sound)
    (operation : Operation) (line : Nat) :
    (operation.apply machine).failure ≠ some (.invalidInstruction line) := by
  intro failure
  obtain ⟨count, journal, last, execution, ends⟩ := exists_ends_apply operation machine
  have atLast : last.Sound :=
    execution.preserves (fun machine sound _ => sound_stepInto machine sound) sound
  generalize operation.apply machine = outcome at ends failure
  cases ends with
  | succeeded => cases failure
  | failed failed =>
      cases failure
      exact stepInto_ne_invalidInstruction atLast line failed

theorem phase_stepInto_le (machine : Machine) :
    machine.control.phase ≤ machine.stepInto.state.control.phase := by
  cases control : machine.control with
  | ready => exact Nat.zero_le _
  | running position callers =>
      exact Control.phase_pos (control_stepInto_ne_ready (by simp [control]))
  | finished =>
      rw [stepInto_of_finished control]
      simp [Outcome.done, control]

theorem phase_apply_le (operation : Operation) (machine : Machine) :
    machine.control.phase ≤ (operation.apply machine).state.control.phase := by
  refine apply_preserves (fun other => machine.control.phase ≤ other.control.phase) ?_ operation
    (Nat.le_refl _)
  intro other later
  exact Nat.le_trans later (phase_stepInto_le other)

theorem control_apply_ne_ready {operation : Operation} {machine : Machine}
    (success : (operation.apply machine).failure = none) :
    (operation.apply machine).state.control ≠ .ready := by
  rw [apply_eq_stepInto_andThen] at success ⊢
  obtain ⟨stepped, _⟩ := Outcome.failure_andThen_eq_none.mp success
  rw [Outcome.andThen_of_success stepped]
  exact stepWhile_preserves (fun other => other.control ≠ .ready)
    (fun _ => control_stepInto_ne_ready) _ (control_stepInto_of_success stepped)

theorem apply_of_finished {machine : Machine} (finished : machine.control = .finished)
    (operation : Operation) : operation.apply machine = .done machine := by
  rw [apply_eq_stepInto_andThen, stepInto_of_finished finished, Outcome.andThen_of_success rfl]
  simp [Outcome.done, stepWhile_of_stops (.inl (Control.isFinished_eq_true.mpr finished))]

/--
However a compiled program has been driven so far, its call stack is empty
before and behind `main`, and justified call by call in between.  So no
operation finds an instruction invalid, none leads back, none succeeds without
entering `main`, and behind `main` none does anything.
-/
theorem call_stack_justified {tree : Tree} {program : Program} {machine : Machine}
    (compiled : Program.ofTree tree = .ok program) (reachable : Reachable program machine) :
    (machine.control = .ready ∨ machine.control = .finished → machine.control.frames = []) ∧
    (∀ position callers, machine.control = .running position callers →
      1 ≤ machine.control.frames.length ∧ machine.control.frames.length ≤ stackLimit ∧
      (∃ places : List Position, machine.control.frames = places.map .resume ++ [.entry]) ∧
      Justified program position.procedure machine.control.frames ∧
      ∃ node ∈ tree.statements, ∃ instruction, Instruction.ofTree? node = some instruction ∧
        program.statement? position = some ⟨node.line?.getD 0, instruction⟩) ∧
    ∀ operation : Operation,
      (∀ line, (operation.apply machine).failure ≠ some (.invalidInstruction line)) ∧
      machine.control.phase ≤ (operation.apply machine).state.control.phase ∧
      ((operation.apply machine).failure = none →
        (operation.apply machine).state.control ≠ .ready) ∧
      (machine.control = .finished → operation.apply machine = .done machine) := by
  have sound := reachable.sound
  refine ⟨?_, ?_, ?_⟩
  · rintro (ready | finished)
    · rw [ready]
      rfl
    · rw [finished]
      rfl
  · intro position callers running
    obtain ⟨⟨statement, stands⟩, bounded, linked⟩ := sound position callers running
    rw [reachable.program_eq] at stands linked
    rw [running, Control.length_frames]
    refine ⟨Nat.succ_pos _, bounded, ⟨callers.map Position.next, ?_⟩, linked.justified, ?_⟩
    · simp [Control.frames]
    · obtain ⟨node, member, denoted⟩ := Program.exists_tree_of_statement? compiled stands
      obtain ⟨instruction, accepted, rfl⟩ := Option.map_eq_some_iff.mp denoted
      exact ⟨node, member, instruction, accepted, stands⟩
  · intro operation
    exact ⟨apply_ne_invalidInstruction sound operation, phase_apply_le operation machine,
      control_apply_ne_ready, fun finished => apply_of_finished finished operation⟩

/-- In the first inner call of the sample, the frame of `main` resumes behind that call. -/
theorem call_stack_of_sample :
    let first := (Operation.stepInto.apply (ofProgram .sample {})).state
    let second := (Operation.stepInto.apply first).state
    Program.ofTree .sample = .ok .sample ∧ Reachable .sample second ∧
      second.control = .running ⟨1, 0⟩ [⟨0, 1⟩] ∧
      second.control.frames = [.resume ⟨0, 2⟩, .entry] ∧
      Justified .sample 1 second.control.frames := by
  intro first second
  have reachable : Reachable .sample second := .operated (.operated (.fresh {}) .stepInto) .stepInto
  have running : second.control = .running ⟨1, 0⟩ [⟨0, 1⟩] := by decide +kernel
  obtain ⟨_, _, _, justified, _⟩ :=
    (call_stack_justified Program.ofTree_sample reachable).2.1 _ _ running
  refine ⟨Program.ofTree_sample, reachable, running, ?_, justified⟩
  rw [running]
  rfl

end Machine

end Guu
