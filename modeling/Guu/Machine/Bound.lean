import Guu.Machine.Step

/-!
# A bound on execution

Every execution ends, however its procedures call each other, because the call
stack is bounded.  The weight of a machine counts the statements that are
pending in every frame, a statement of an outer frame as more than any frame
inside it can hold.  Each successful step of a machine that is not finished
makes the weight smaller.
-/

namespace Guu

namespace Program

def longestBody (program : Program) : Nat :=
  program.procedures.toList.foldr (fun procedure longest => max procedure.body.size longest) 0

/-- No body is longer than the longest one. -/
theorem size_le_longestBody {program : Program} {procedure : Procedure}
    (member : procedure ∈ program.procedures) : procedure.body.size ≤ program.longestBody := by
  unfold longestBody
  have inList := member.val
  generalize program.procedures.toList = procedures at inList
  induction procedures with
  | nil => cases inList
  | cons first rest ih =>
      cases inList with
      | head => exact Nat.le_max_left _ _
      | tail _ inRest => exact Nat.le_trans (ih inRest) (Nat.le_max_right _ _)

/-- No more statements are pending than the longest body has. -/
theorem pending_le_longestBody (program : Program) (position : Position) :
    program.pending position ≤ program.longestBody := by
  unfold pending procedure?
  cases found : program.procedures[position.procedure]? with
  | none => simp
  | some procedure =>
      have bounded := size_le_longestBody (Array.mem_of_getElem? found)
      simp only [Option.map_some, Option.getD_some]
      omega

/-- In front of a statement one more statement is pending than behind it. -/
theorem pending_eq_succ {program : Program} {position : Position} {statement : Statement}
    (found : program.statement? position = some statement) :
    program.pending position = program.pending position.next + 1 := by
  unfold statement? at found
  unfold pending Position.next procedure? at *
  cases inside : program.procedures[position.procedure]? with
  | none => simp [inside] at found
  | some procedure =>
      simp only [inside, Option.bind_some] at found
      obtain ⟨bound, _⟩ := Array.getElem?_eq_some_iff.mp found
      simp only [Option.map_some, Option.getD_some]
      omega

/-- What one statement weighs in a frame at a given depth: more than any frame inside it can. -/
def statementWeight (program : Program) (depth : Nat) : Nat :=
  Nat.pow (program.longestBody + 1) (Machine.stackLimit - depth)

/-- Every statement has a weight. -/
theorem statementWeight_pos (program : Program) (depth : Nat) :
    0 < program.statementWeight depth :=
  Nat.pow_pos (Nat.succ_pos _)

/-- A statement weighs as much as a longest body one frame further in, and one statement more. -/
theorem statementWeight_eq (program : Program) {depth : Nat} (room : depth < Machine.stackLimit) :
    program.statementWeight depth =
      program.longestBody * program.statementWeight (depth + 1) +
        program.statementWeight (depth + 1) := by
  unfold statementWeight
  rw [show Machine.stackLimit - depth = Machine.stackLimit - (depth + 1) + 1 by omega]
  rw [← Nat.succ_mul, Nat.mul_comm]
  rfl

def frameWeight (program : Program) (depth : Nat) (position : Position) : Nat :=
  program.pending position * program.statementWeight depth

/-- A frame weighs no more than a longest body does. -/
theorem frameWeight_le (program : Program) (depth : Nat) (position : Position) :
    program.frameWeight depth position ≤ program.longestBody * program.statementWeight depth :=
  Nat.mul_le_mul_right _ (program.pending_le_longestBody position)

/-- A frame in front of a statement weighs that statement more than behind it. -/
theorem frameWeight_eq {program : Program} {position : Position} {statement : Statement}
    (found : program.statement? position = some statement) (depth : Nat) :
    program.frameWeight depth position =
      program.frameWeight depth position.next + program.statementWeight depth := by
  unfold frameWeight
  rw [pending_eq_succ found, Nat.succ_mul]

/-- What the waiting calls weigh: each resumes behind its own place. -/
def waitingWeight (program : Program) : List Position → Nat
  | [] => 0
  | caller :: outer =>
      program.frameWeight (outer.length + 1) caller.next + program.waitingWeight outer

end Program

namespace Control

def weight (program : Program) : Control → Nat
  | ready => program.statementWeight 0
  | running position callers =>
      program.frameWeight (callers.length + 1) position + program.waitingWeight callers
  | finished => 0

end Control

namespace Machine

/-- A number that every successful step makes smaller. -/
def weight (machine : Machine) : Nat :=
  machine.control.weight machine.program

/-- Leaving procedures adds no weight. -/
theorem weight_settle_le (program : Program) (position : Position) (callers : List Position) :
    (settle program position callers).control.weight program ≤
      (Control.running position callers).weight program := by
  induction callers generalizing position with
  | nil =>
      unfold settle
      split <;> simp [Control.weight]
  | cons caller outer ih =>
      unfold settle
      split
      · exact Nat.le_refl _
      · refine Nat.le_trans (ih caller.next) ?_
        simp [Control.weight, Program.waitingWeight]

@[simp]
theorem failure_moveTo (machine : Machine) (position : Position) (callers : List Position) :
    (machine.moveTo position callers).failure = none :=
  rfl

@[simp]
theorem state_moveTo (machine : Machine) (position : Position) (callers : List Position) :
    (machine.moveTo position callers).state =
      { machine with control := (settle machine.program position callers).control } :=
  rfl

/-- Writing changes the output and nothing else. -/
theorem state_write (machine : Machine) (pieces : List (List Char)) :
    (machine.write pieces).state =
      { machine with output := (machine.write pieces).state.output } := by
  induction pieces generalizing machine with
  | nil => rfl
  | cons piece rest ih =>
      simp only [write]
      split
      · simp only [Outcome.andThen, Outcome.after]
        rw [ih]
      · rfl

/-- Behind its statement a frame weighs less. -/
theorem frameWeight_next_lt {program : Program} {position : Position} {statement : Statement}
    (found : program.statement? position = some statement) (depth : Nat) :
    program.frameWeight depth position.next < program.frameWeight depth position := by
  rw [Program.frameWeight_eq found]
  exact Nat.lt_add_of_pos_right (program.statementWeight_pos depth)

/-- The frame of a callee weighs less than the statement that calls it. -/
theorem frameWeight_call_lt {program : Program} {position : Position} {statement : Statement}
    (found : program.statement? position = some statement) {depth : Nat}
    (room : depth < stackLimit) (callee : Position) :
    program.frameWeight (depth + 1) callee + program.frameWeight depth position.next <
      program.frameWeight depth position := by
  have inner := program.frameWeight_le (depth + 1) callee
  have positive := program.statementWeight_pos (depth + 1)
  rw [Program.frameWeight_eq found, program.statementWeight_eq room]
  omega

/-- Carrying out the effect of a statement makes the weight smaller. -/
theorem weight_perform_lt {machine : Machine} {position : Position} {callers : List Position}
    {statement : Statement} (found : machine.program.statement? position = some statement)
    (line : Nat) {effect : Effect}
    (success : (machine.perform position callers line effect).failure = none) :
    (machine.perform position callers line effect).state.weight <
      (Control.running position callers).weight machine.program := by
  cases effect with
  | print value =>
      simp only [perform] at success ⊢
      obtain ⟨written, moved⟩ := Outcome.failure_andThen_eq_none.mp success
      rw [Outcome.andThen_of_success written, state_write]
      refine Nat.lt_of_le_of_lt (weight_settle_le machine.program position.next callers) ?_
      simpa [Control.weight] using frameWeight_next_lt found _
  | set name value =>
      refine Nat.lt_of_le_of_lt (weight_settle_le machine.program position.next callers) ?_
      simpa [Control.weight] using frameWeight_next_lt found _
  | call procedure =>
      simp only [perform] at success ⊢
      split
      · rename_i full
        simp [full, Outcome.failed] at success
      · rename_i free
        have room : callers.length + 1 < stackLimit := Nat.lt_of_not_le free
        refine Nat.lt_of_le_of_lt
          (weight_settle_le machine.program (.start procedure) (position :: callers)) ?_
        have lighter := frameWeight_call_lt found room (.start procedure)
        simp only [Control.weight, Program.waitingWeight, List.length_cons]
        omega

/-- Executing a statement makes the weight smaller. -/
theorem weight_execute_lt {machine : Machine} (running : machine.control.isRunning = true)
    (success : machine.execute.failure = none) : machine.execute.state.weight < machine.weight := by
  unfold execute at *
  split
  · rename_i position callers control
    simp only [control] at success
    split
    · rename_i absent
      simp [absent, Outcome.failed] at success
    · rename_i statement found
      simp only [found] at success
      split
      · rename_i error undefined
        simp [undefined, Outcome.failed] at success
      · rename_i effect defined
        simp only [defined] at success
        obtain ⟨_, performed⟩ := Outcome.failure_andThen_eq_none.mp success
        rw [Outcome.andThen_of_success rfl]
        simpa only [weight, control, Outcome.after] using
          weight_perform_lt found statement.line performed
  · rename_i idle
    cases machine with
    | mk program control store output => cases control <;> simp_all [Control.isRunning]

/-- Executing nothing adds no weight. -/
theorem weight_execute_le {machine : Machine} (success : machine.execute.failure = none) :
    machine.execute.state.weight ≤ machine.weight := by
  cases running : machine.control.isRunning with
  | true => exact Nat.le_of_lt (weight_execute_lt running success)
  | false =>
      unfold execute
      split
      · simp_all [Control.isRunning]
      · exact Nat.le_refl _

/-- Entering `main` makes the weight smaller. -/
theorem weight_enter_lt {machine : Machine} (ready : machine.control = .ready)
    (success : machine.enter.failure = none) : machine.enter.state.weight < machine.weight := by
  unfold enter at *
  split
  · rename_i absent
    simp [absent, Outcome.failed] at success
  · rename_i procedure found
    rw [Outcome.andThen_of_success rfl]
    refine Nat.lt_of_le_of_lt (weight_settle_le machine.program (.start procedure) []) ?_
    simp only [weight, ready, Control.weight, Program.waitingWeight, List.length_nil,
      Nat.zero_add, Nat.add_zero]
    have inner := machine.program.frameWeight_le 1 (.start procedure)
    have positive := machine.program.statementWeight_pos 1
    rw [machine.program.statementWeight_eq (show 0 < stackLimit by decide), Nat.zero_add]
    omega

/-- A successful step of a machine that is not finished makes its weight smaller. -/
theorem weight_stepInto_lt {machine : Machine} (unfinished : machine.control.isFinished = false)
    (success : machine.stepInto.failure = none) :
    machine.stepInto.state.weight < machine.weight := by
  unfold stepInto at *
  obtain ⟨started, executed⟩ := Outcome.failure_andThen_eq_none.mp success
  rw [Outcome.andThen_of_success started]
  unfold start at *
  split at started
  · rename_i ready
    simp only [ready] at executed ⊢
    exact Nat.lt_of_le_of_lt (weight_execute_le executed) (weight_enter_lt ready started)
  · rename_i notReady
    have running : machine.control.isRunning = true := by
      cases control : machine.control <;> simp_all [Control.isRunning, Control.isFinished]
    cases control : machine.control <;> simp_all [Outcome.done, Control.isRunning]
    exact weight_execute_lt (by simp [control, Control.isRunning]) executed

end Machine

end Guu
