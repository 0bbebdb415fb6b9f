import Guu.Proofs.Evaluation.Agreement
import Guu.Proofs.Program.CallGraph

/-!
# Calls that can be judged without running

Whether a run meets an unknown procedure or a full call stack can be read off
the call graph below `main`.  A run that succeeds has taken every edge of it.
And where all names in it are declared and no chain of calls is too long, a run
can fail for want of a variable only.
-/

namespace Guu

namespace Evaluation

theorem failure_andThen_eq_none {first : Evaluation} {second : Variables → Evaluation} :
    (first.andThen second).failure = none ↔
      first.failure = none ∧ (second first.values).failure = none := by
  unfold andThen
  split <;> simp_all

/-! ## A success takes every call -/

/-- Statements that are evaluated without a failure evaluate the body of every callee so. -/
theorem success_of_call {body? : String → Option (List Statement)} {depth line : Nat}
    {statements : List Statement} {values : Variables} {callee : String}
    (success : (ofStatements body? depth statements values).failure = none)
    (member : ⟨line, .call callee⟩ ∈ statements) :
    ∃ body between, body? callee = some body ∧ depth < Machine.stackLimit ∧
      (ofStatements body? (depth + 1) body between).failure = none := by
  fun_induction ofStatements body? depth statements values with
  | case1 depth values => cases member
  | case2 depth line operand rest values ih =>
      obtain ⟨_, continued⟩ := failure_andThen_eq_none.mp success
      cases member with
      | tail _ later => exact ih _ continued later
  | case3 depth line name operand rest values ih =>
      obtain ⟨_, continued⟩ := failure_andThen_eq_none.mp success
      cases member with
      | tail _ later => exact ih _ continued later
  | case4 depth line name rest values absent => cases success
  | case5 depth line name rest values body declared room ihBody ih =>
      obtain ⟨inside, continued⟩ := failure_andThen_eq_none.mp success
      cases member with
      | head => exact ⟨body, values, declared, room, inside⟩
      | tail _ later => exact ih _ continued later
  | case6 depth line name rest values body declared full => cases success

/-- The body of a procedure is evaluated at a depth without a failure, for some variables. -/
def Succeeds (tree : Tree) (depth : Nat) (name : String) : Prop :=
  depth ≤ Machine.stackLimit ∧ ∃ body values, tree.body? name = some body ∧
    (ofStatements tree.body? depth body values).failure = none

theorem Succeeds.call {tree : Tree} {depth : Nat} {caller callee : String}
    (succeeds : Succeeds tree depth caller) (calls : tree.Calls caller callee) :
    Succeeds tree (depth + 1) callee := by
  obtain ⟨_, body, values, declared, success⟩ := succeeds
  obtain ⟨same, line, owned, member⟩ := calls
  cases declared.symm.trans owned
  obtain ⟨inner, between, known, room, inside⟩ := success_of_call success member
  exact ⟨room, inner, between, known, inside⟩

theorem Succeeds.declares {tree : Tree} {depth : Nat} {name : String}
    (succeeds : Succeeds tree depth name) : tree.Declares name := by
  obtain ⟨_, body, _, declared, _⟩ := succeeds
  simp [Tree.Declares, declared]

/-- When the body of `main` is evaluated without a failure, so is every body below it. -/
theorem succeeds_of_chain {tree : Tree} (main : Succeeds tree 1 Program.entryPoint) {count : Nat}
    {name : String} (chain : tree.CallChain count name) : Succeeds tree count name := by
  induction chain with
  | main => exact main
  | call chain calls ih => exact ih.call calls

theorem wellNested_of_success {tree : Tree} (success : (ofTree tree).failure = none) :
    tree.WellNested := by
  have main : Succeeds tree 1 Program.entryPoint := by
    unfold ofTree at success
    cases declared : tree.body? Program.entryPoint with
    | none => simp [declared, failed] at success
    | some body =>
        simp only [declared] at success
        exact ⟨by decide, body, _, declared, success⟩
  have shallow : ∀ count name, tree.CallChain count name → count ≤ Machine.stackLimit :=
    fun count name chain => (succeeds_of_chain main chain).1
  refine ⟨main.declares, ?_, fun name => Tree.not_cycle_of_shallow shallow, shallow⟩
  rintro caller callee ⟨count, chain⟩ calls
  exact (succeeds_of_chain main (chain.call calls)).declares

/-! ## Well-nested calls never fail -/

/-- Nothing went wrong, unless a variable had no value. -/
def Harmless (failure : Option RuntimeError) : Prop :=
  failure = none ∨ ∃ name line, failure = some (.undefinedVariable name line)

theorem Harmless.andThen {first : Evaluation} {second : Variables → Evaluation}
    (harmless : Harmless first.failure) (continued : ∀ values, Harmless (second values).failure) :
    Harmless (first.andThen second).failure := by
  unfold Evaluation.andThen
  split
  · exact harmless
  · exact continued first.values

theorem harmless_print (values : Variables) (line : Nat) (operand : Operand) :
    Harmless (print values line operand).failure := by
  unfold print Variables.value
  grind [Harmless, failed]

theorem harmless_set (values : Variables) (line : Nat) (name : String) (operand : Operand) :
    Harmless (set values line name operand).failure := by
  unfold set Variables.value
  grind [Harmless, failed, done]

/-- Statements whose calls continue chains from `main` find every callee, and room for it. -/
theorem harmless_ofStatements {tree : Tree} (nested : tree.WellNested) {depth : Nat}
    {statements : List Statement} {values : Variables}
    (chained : ∀ line callee, ⟨line, .call callee⟩ ∈ statements →
      tree.CallChain (depth + 1) callee) :
    Harmless (ofStatements tree.body? depth statements values).failure := by
  fun_induction ofStatements tree.body? depth statements values with
  | case1 depth values => exact .inl rfl
  | case2 depth line operand rest values ih =>
      refine (harmless_print values line operand).andThen fun between => ?_
      exact ih between fun line callee later => chained line callee (.tail _ later)
  | case3 depth line name operand rest values ih =>
      refine (harmless_set values line name operand).andThen fun between => ?_
      exact ih between fun line callee later => chained line callee (.tail _ later)
  | case4 depth line name rest values absent =>
      have declared := nested.declares (chained line name (.head _))
      simp [Tree.Declares, absent] at declared
  | case5 depth line name rest values body declared room ihBody ih =>
      have chain := chained line name (.head _)
      refine Harmless.andThen (ihBody ?_) fun between => ?_
      · exact fun line callee inside => chain.call ⟨body, line, declared, inside⟩
      · exact ih between fun line callee later => chained line callee (.tail _ later)
  | case6 depth line name rest values body declared full =>
      exact absurd (nested.shallow _ _ (chained line name (.head _))) full

theorem harmless_of_wellNested {tree : Tree} (nested : tree.WellNested) :
    Harmless (ofTree tree).failure := by
  have declared := nested.entry
  unfold ofTree
  cases main : tree.body? Program.entryPoint with
  | none => simp [Tree.Declares, main] at declared
  | some body =>
      refine harmless_ofStatements nested fun line callee member => ?_
      exact Tree.CallChain.main.call ⟨body, line, main, member⟩

end Evaluation

namespace Machine

/--
A run that succeeds shows that `main` is declared, that every call below it names
a declared procedure, that no procedure there calls itself in a roundabout way,
and that no chain of calls has more procedures than the stack has frames.  When
all of this is so, a run can fail for want of a variable only.
-/
theorem control_errors_are_static {tree : Tree} {program : Program}
    (compiled : Program.ofTree tree = .ok program) {output : Sink}
    (unfailing : output.Unfailing) :
    let failure := (ofProgram program output).run.failure
    (failure = none → tree.WellNested) ∧
      (tree.WellNested →
        failure = none ∨ ∃ name line, failure = some (.undefinedVariable name line)) := by
  intro failure
  have same : failure = (Evaluation.ofTree tree).failure :=
    (shows_run_ofProgram compiled unfailing).failure
  rw [same]
  exact ⟨Evaluation.wellNested_of_success, Evaluation.harmless_of_wellNested⟩

/-- Two procedures that call the same third one are well nested. -/
theorem shared_callee_is_wellNested :
    let tree : Tree := .root [
      .procedure "main" 1,
      .unary .call (.operand (.variable "left")) 2,
      .unary .call (.operand (.variable "right")) 3,
      .procedure "left" 4,
      .unary .call (.operand (.variable "leaf")) 5,
      .procedure "right" 6,
      .unary .call (.operand (.variable "leaf")) 7,
      .procedure "leaf" 8,
      .unary .print (.operand (.literal 1)) 9]
    let program : Program := ⟨#[
      ⟨"main", 1, #[⟨2, .call "left"⟩, ⟨3, .call "right"⟩]⟩,
      ⟨"left", 4, #[⟨5, .call "leaf"⟩]⟩,
      ⟨"right", 6, #[⟨7, .call "leaf"⟩]⟩,
      ⟨"leaf", 8, #[⟨9, .print (.literal 1)⟩]⟩]⟩
    Program.ofTree tree = .ok program ∧ Sink.Unfailing {} ∧
      (ofProgram program {}).run.failure = none ∧ tree.WellNested := by
  intro tree program
  have compiled : Program.ofTree tree = .ok program := by cbv
  have unfailing : Sink.Unfailing {} := Sink.unfailing_iff.mpr rfl
  have success : (ofProgram program {}).run.failure = none := by decide +kernel
  exact ⟨compiled, unfailing, success, (control_errors_are_static compiled unfailing).1 success⟩

end Machine

end Guu
