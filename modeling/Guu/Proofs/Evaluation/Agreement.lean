import Guu.Proofs.Evaluation.Basic
import Guu.Proofs.Machine.Failure

/-!
# Running agrees with evaluation

A machine keeps a stack of waiting calls where evaluation nests.  The two agree
nevertheless: from the front of the statements that are evaluated, with any
calls waiting, execution prints the same text and reaches the place behind the
innermost waiting call with the same variables, or fails with the same error.
-/

namespace Guu

namespace Program

def remaining (program : Program) (position : Position) : List Statement :=
  ((program.procedure? position).map fun procedure =>
    procedure.body.toList.drop position.offset).getD []

theorem statement?_of_remaining_nil {program : Program} {position : Position}
    (rest : program.remaining position = []) : program.statement? position = none := by
  unfold remaining at rest
  unfold statement?
  cases owner : program.procedure? position with
  | none => rfl
  | some procedure =>
      simp only [owner, Option.map_some, Option.getD_some, List.drop_eq_nil_iff,
        Array.length_toList] at rest
      simpa using rest

theorem statement?_of_remaining_cons {program : Program} {position : Position}
    {statement : Statement} {rest : List Statement}
    (remains : program.remaining position = statement :: rest) :
    program.statement? position = some statement ∧ program.remaining position.next = rest := by
  unfold remaining Position.next at *
  unfold statement?
  cases owner : program.procedure? position with
  | none => simp [owner] at remains
  | some procedure =>
      have sameOwner : program.procedure? ⟨position.procedure, position.offset + 1⟩ =
          some procedure := owner
      simp only [owner, Option.map_some, Option.getD_some] at remains
      constructor
      · have head := congrArg List.head? remains
        simpa using head
      · have tail := congrArg List.tail remains
        simpa [sameOwner, List.tail_drop] using tail

theorem remaining_start {program : Program} {index : Nat} {procedure : Procedure}
    (found : program.procedures[index]? = some procedure) :
    program.remaining (.start index) = procedure.body.toList := by
  simp [remaining, procedure?, Position.start, found]

end Program

namespace Machine

/-! ## Executions that print a text -/

/-- Successful steps lead from one machine to another, and a text is printed on the way. -/
def Prints (first : Machine) (text : String) (last : Machine) : Prop :=
  ∃ count journal, Execution always count first journal last ∧
    Journal.bytesTo .output journal = Text.Utf8.bytes text

namespace Prints

variable {first middle last : Machine}

theorem refl (machine : Machine) : Prints machine "" machine :=
  ⟨0, #[], .refl machine, rfl⟩

theorem trans {before behind : String} (left : Prints first before middle)
    (right : Prints middle behind last) : Prints first (before ++ behind) last := by
  obtain ⟨earlier, events, execution, bytes⟩ := left
  obtain ⟨later, further, continued, more⟩ := right
  refine ⟨_, _, execution.trans continued, ?_⟩
  rw [Journal.bytesTo_append, bytes, more, Text.Utf8.bytes_append]

/-- A successful step from the front of a statement prints what it writes. -/
theorem of_execute {position : Position} {callers : List Position} {journal : Journal}
    {text : String} (running : first.control = .running position callers)
    (executed : first.execute = ⟨last, journal, none⟩)
    (bytes : Journal.bytesTo .output journal = Text.Utf8.bytes text) :
    Prints first text last := by
  have step : first.stepInto = ⟨last, journal, none⟩ := by
    rw [stepInto_of_not_ready (by simp [running]), executed]
  have single : Execution always first.instructionsAhead first first.stepInto.journal
      first.stepInto.state :=
    .single (by simp [running, Control.isFinished]) rfl (by rw [step])
  rw [step] at single
  exact ⟨_, journal, single, bytes⟩

end Prints

/--
Execution from a machine follows an evaluation: it prints the text of the
evaluation and stops at a given point with its variables, or it comes to a step
that fails with its error.
-/
inductive Follows (first : Machine) (target : Control) : Evaluation → Prop where
  | returned {store : Store} {text : String}
      (prints : Prints first text { first with control := target, store := store }) :
      Follows first target ⟨store.get?, text, none⟩
  | failed {last : Machine} {text : String} {error : RuntimeError}
      (prints : Prints first text last) (failure : last.FailsWith error) :
      Follows first target ⟨last.store.get?, text, some error⟩

namespace Follows

variable {first : Machine} {between target : Control}

theorem of_silent {evaluation : Evaluation}
    (silent : Prints first "" { first with control := between })
    (follows : Follows { first with control := between } target evaluation) :
    Follows first target evaluation := by
  cases follows with
  | returned rest => exact .returned (by simpa using silent.trans rest)
  | failed rest failure => exact .failed (by simpa using silent.trans rest) failure

theorem andThen {evaluation : Evaluation} {second : Variables → Evaluation}
    (follows : Follows first between evaluation)
    (continued : ∀ store : Store,
      Follows { first with control := between, store := store } target (second store.get?)) :
    Follows first target (evaluation.andThen second) := by
  cases follows with
  | failed prints failure => exact .failed prints failure
  | @returned store text prints =>
      have rest := continued store
      simp only [Evaluation.andThen]
      generalize second store.get? = last at rest
      cases rest with
      | returned more => exact .returned (prints.trans more)
      | failed more failure => exact .failed (prints.trans more) failure

end Follows

/-! ## Single statements -/

section Statements

variable {machine : Machine} {position : Position} {callers : List Position} {line : Nat}

theorem value_eq (machine : Machine) (line : Nat) (operand : Operand) :
    machine.value line operand = Variables.value machine.store.get? line operand := by
  cases operand <;> rfl

/-- A statement that is refused fails as its evaluation does. -/
theorem follows_of_error {target : Control} {statement : Statement} {error : RuntimeError}
    (running : machine.control = .running position callers)
    (found : machine.program.statement? position = some statement)
    (refused : machine.effect statement = .error error) :
    Follows machine target (.failed machine.store.get? error) := by
  have executed := execute_of_error running found refused
  refine .failed (.refl machine) ⟨#[], ?_, rfl⟩
  rw [stepInto_of_not_ready (by simp [running]), executed]

theorem follows_print {operand : Operand} (unlimited : machine.output.room = none)
    (running : machine.control = .running position callers)
    (found : machine.program.statement? position = some ⟨line, .print operand⟩) :
    Follows machine (returning machine.program (position :: callers))
      (.print machine.store.get? line operand) := by
  have defined : machine.effect ⟨line, .print operand⟩ =
      (Variables.value machine.store.get? line operand).map .print := by
    rw [← value_eq]
    rfl
  rw [Evaluation.print]
  cases resolved : Variables.value machine.store.get? line operand with
  | error error =>
      rw [resolved] at defined
      exact follows_of_error running found defined
  | ok value =>
      rw [resolved] at defined
      have executed := execute_of_effect running found defined
      simp only [perform] at executed
      rw [write_of_unlimited unlimited, Outcome.andThen_of_success rfl] at executed
      refine .returned (.of_execute running executed ?_)
      simp only [moveTo_eq_resume, Journal.bytesTo_append, bytesTo_announcement,
        bytesTo_departures, bytesTo_of_pieces, List.nil_append, List.append_nil]
      simp [printedPieces, Text.Utf8.bytes, Text.Decimal.render]

theorem follows_set {name : String} {operand : Operand}
    (running : machine.control = .running position callers)
    (found : machine.program.statement? position = some ⟨line, .set name operand⟩) :
    Follows machine (returning machine.program (position :: callers))
      (.set machine.store.get? line name operand) := by
  have defined : machine.effect ⟨line, .set name operand⟩ =
      (Variables.value machine.store.get? line operand).map (.set name) := by
    rw [← value_eq]
    rfl
  rw [Evaluation.set]
  cases resolved : Variables.value machine.store.get? line operand with
  | error error =>
      rw [resolved] at defined
      exact follows_of_error running found defined
  | ok value =>
      rw [resolved] at defined
      have executed := execute_of_effect running found defined
      have same : (machine.store.set name value).get? =
          Variables.set machine.store.get? name value := by
        funext other
        simp [Variables.set]
      show Follows machine _ ⟨Variables.set machine.store.get? name value, "", none⟩
      rw [← same]
      refine .returned (.of_execute running executed ?_)
      simp [perform, moveTo_eq_resume]

theorem effect_call {name : String} {index : Nat}
    (known : machine.program.find? name = some index) :
    machine.effect ⟨line, .call name⟩ = .ok (.call index) := by
  simp [effect, known]

/-- A call that has room leads to its callee, and prints nothing. -/
theorem prints_call {name : String} {index : Nat}
    (running : machine.control = .running position callers)
    (found : machine.program.statement? position = some ⟨line, .call name⟩)
    (known : machine.program.find? name = some index) (room : callers.length + 1 < stackLimit) :
    Prints machine "" (machine.resume (.start index) (position :: callers)) := by
  have executed := execute_of_effect running found (effect_call known)
  have free : ¬stackLimit ≤ callers.length + 1 := Nat.not_le_of_lt room
  simp only [perform, free, if_false] at executed
  refine .of_execute running executed ?_
  simp [moveTo_eq_resume]

theorem follows_overflow {target : Control} {name : String} {index : Nat}
    (running : machine.control = .running position callers)
    (found : machine.program.statement? position = some ⟨line, .call name⟩)
    (known : machine.program.find? name = some index)
    (full : callers.length + 1 = stackLimit) :
    Follows machine target (.failed machine.store.get? (.stackOverflow stackLimit line)) := by
  have executed := execute_of_effect running found (effect_call known)
  simp only [perform, full, Nat.le_refl, if_true] at executed
  refine .failed (.refl machine) ⟨announcement ⟨line, .call name⟩ (.call index), ?_, rfl⟩
  rw [stepInto_of_not_ready (by simp [running]), executed]
  rfl

end Statements

/-! ## Rows of statements -/

/--
Execution from a place follows the evaluation of the statements that remain
there, whatever calls are waiting.
-/
theorem follows_ofStatements {tree : Tree} {depth : Nat} {statements : List Statement}
    {values : Variables} {machine : Machine} {position : Position} {callers : List Position}
    (compiled : Program.ofTree tree = .ok machine.program)
    (unlimited : machine.output.room = none)
    (nested : callers.length + 1 = depth) (bounded : depth ≤ stackLimit)
    (remains : machine.program.remaining position = statements)
    (same : machine.store.get? = values) :
    Follows (machine.resume position callers) (returning machine.program callers)
      (.ofStatements tree.body? depth statements values) := by
  fun_induction Evaluation.ofStatements tree.body? depth statements values
    generalizing machine position callers with
  | case1 depth values =>
      subst same
      have ended := Program.statement?_of_remaining_nil remains
      rw [resume, control_settle_of_end ended]
      exact .returned (.refl _)
  | case2 depth line operand rest values ih =>
      subst same
      obtain ⟨found, remainsNext⟩ := Program.statement?_of_remaining_cons remains
      rw [resume, settle_of_statement found]
      refine Follows.andThen (follows_print unlimited rfl found) fun store => ?_
      have continued : Follows ({ machine with store := store }.resume position.next callers)
          (returning machine.program callers) _ :=
        ih store.get? compiled unlimited nested bounded remainsNext rfl
      exact continued
  | case3 depth line name operand rest values ih =>
      subst same
      obtain ⟨found, remainsNext⟩ := Program.statement?_of_remaining_cons remains
      rw [resume, settle_of_statement found]
      refine Follows.andThen (follows_set rfl found) fun store => ?_
      have continued : Follows ({ machine with store := store }.resume position.next callers)
          (returning machine.program callers) _ :=
        ih store.get? compiled unlimited nested bounded remainsNext rfl
      exact continued
  | case4 depth line name rest values absent =>
      subst same
      obtain ⟨found, _⟩ := Program.statement?_of_remaining_cons remains
      have undeclared := Program.find?_eq_none_of_body? compiled absent
      rw [resume, settle_of_statement found]
      exact follows_of_error rfl found (by simp [effect, undeclared])
  | case5 depth line name rest values body declared room ihBody ih =>
      subst same
      obtain ⟨found, remainsNext⟩ := Program.statement?_of_remaining_cons remains
      obtain ⟨index, procedure, known, owner, rfl⟩ :=
        Program.exists_procedure_of_body? compiled declared
      rw [resume, settle_of_statement found]
      refine Follows.of_silent (prints_call rfl found known (nested ▸ room)) ?_
      have called : Follows (machine.resume (.start index) (position :: callers))
          (returning machine.program (position :: callers)) _ :=
        ihBody compiled unlimited (by simp [nested]) room (Program.remaining_start owner) rfl
      refine Follows.andThen called fun store => ?_
      have continued : Follows ({ machine with store := store }.resume position.next callers)
          (returning machine.program callers) _ :=
        ih store.get? compiled unlimited nested bounded remainsNext rfl
      exact continued
  | case6 depth line name rest values body declared full =>
      subst same
      obtain ⟨found, remainsNext⟩ := Program.statement?_of_remaining_cons remains
      obtain ⟨index, procedure, known, owner, rfl⟩ :=
        Program.exists_procedure_of_body? compiled declared
      rw [resume, settle_of_statement found]
      have exact_depth : callers.length + 1 = stackLimit := by omega
      exact follows_overflow rfl found known exact_depth

/-! ## Whole programs -/

theorem run_of_finished {machine : Machine} (finished : machine.control = .finished) :
    machine.run = .done machine :=
  stepWhile_of_stops (.inl (by simp [finished, Control.isFinished])) #[]

theorem run_of_failsWith {machine : Machine} {error : RuntimeError}
    (fails : machine.FailsWith error) :
    ∃ journal, machine.run = ⟨machine, journal, some error⟩ ∧
      Journal.bytesTo .output journal = [] :=
  apply_of_failsWith fails .run

structure Shows (outcome : MachineOutcome) (evaluation : Evaluation) : Prop where
  failure : outcome.failure = evaluation.failure
  output : Journal.bytesTo .output outcome.journal = Text.Utf8.bytes evaluation.output
  values : outcome.state.store.get? = evaluation.values
  finished : evaluation.failure = none → outcome.state.control = .finished

theorem shows_run_of_follows {first : Machine} {evaluation : Evaluation}
    (follows : Follows first .finished evaluation) : Shows first.run evaluation := by
  cases follows with
  | @returned store text prints =>
      obtain ⟨count, journal, execution, bytes⟩ := prints
      rw [run_of_execution execution, Outcome.andThen_of_success rfl, run_of_finished rfl]
      exact ⟨rfl, by simpa [Outcome.done] using bytes, rfl, fun _ => rfl⟩
  | @failed last text error prints failure =>
      obtain ⟨count, journal, execution, bytes⟩ := prints
      obtain ⟨more, run, silent⟩ := run_of_failsWith failure
      rw [run_of_execution execution, Outcome.andThen_of_success rfl, run]
      exact ⟨rfl, by simp [bytes, silent], rfl, by simp⟩

theorem shows_run_ofProgram {tree : Tree} {program : Program}
    (compiled : Program.ofTree tree = .ok program) {output : Sink}
    (unfailing : output.Unfailing) :
    Shows (Machine.ofProgram program output).run (.ofTree tree) := by
  rw [run_eq_start_andThen]
  unfold Evaluation.ofTree
  cases main : tree.body? Program.entryPoint with
  | none =>
      have absent := Program.find?_eq_none_of_body? compiled main
      rw [start_of_absent rfl absent, Outcome.andThen_of_failure rfl]
      exact ⟨rfl, rfl, rfl, by simp [Evaluation.failed]⟩
  | some body =>
      obtain ⟨index, procedure, known, owner, rfl⟩ :=
        Program.exists_procedure_of_body? compiled main
      rw [start_of_ready rfl known, Outcome.andThen_of_success rfl]
      have follows : Follows ((Machine.ofProgram program output).resume (.start index) [])
          (returning program [])
          (.ofStatements tree.body? 1 procedure.body.toList Variables.unset) :=
        follows_ofStatements compiled (Sink.unfailing_iff.mp unfailing) rfl (by decide)
          (Program.remaining_start owner) rfl
      have shows := shows_run_of_follows follows
      exact ⟨shows.failure, by simpa using shows.output, shows.values, shows.finished⟩

/--
Running a compiled program from its beginning agrees with evaluating its tree:
the failure, the printed text and the variables are the same, and a machine
that did not fail is finished, with nothing on its call stack.
-/
theorem run_agrees_with_evaluation {tree : Tree} {program : Program}
    (compiled : Program.ofTree tree = .ok program) {output : Sink}
    (unfailing : output.Unfailing) :
    let outcome := (Machine.ofProgram program output).run
    let evaluation := Evaluation.ofTree tree
    outcome.failure = evaluation.failure ∧
      Journal.bytesTo .output outcome.journal = Text.Utf8.bytes evaluation.output ∧
      outcome.state.store.get? = evaluation.values ∧
      (outcome.failure = none → outcome.state.control = .finished ∧ outcome.state.depth = 0) := by
  intro outcome evaluation
  have shows : Shows outcome evaluation := shows_run_ofProgram compiled unfailing
  refine ⟨shows.failure, shows.output, shows.values, fun success => ?_⟩
  have finished := shows.finished (shows.failure ▸ success)
  exact ⟨finished, by simp [depth, finished, Control.depth]⟩

theorem evaluation_of_sample :
    Evaluation.ofTree .sample =
      ⟨(Variables.unset.set "a" 3).set "a" (-7), "-7\n-7\n",
        some (.undefinedProcedure "nowhere" 5)⟩ := by
  have rendered : Text.Decimal.render (-7) = "-7" := by decide
  simp [Evaluation.ofTree, Tree.body?, Tree.sample, Tree.statements, Tree.procedures,
    Tree.leading, Tree.isDeclaration, Tree.statement?, Tree.line?, Instruction.ofTree?,
    Program.entryPoint, Evaluation.ofStatements, Evaluation.andThen, Evaluation.set,
    Evaluation.print, Evaluation.done, Evaluation.failed, Variables.value, Variables.set,
    stackLimit, rendered]

/-- The sample prints from two depths, and then it calls a procedure that does not exist. -/
theorem run_of_sample :
    Program.ofTree .sample = .ok .sample ∧ Sink.Unfailing {} ∧
      (Machine.ofProgram .sample {}).run.failure = some (.undefinedProcedure "nowhere" 5) ∧
      Journal.bytesTo .output (Machine.ofProgram .sample {}).run.journal =
        Text.Utf8.bytes "-7\n-7\n" ∧
      (Machine.ofProgram .sample {}).run.state.store.get? "a" = some (-7) := by
  have unfailing : Sink.Unfailing {} := Sink.unfailing_iff.mpr rfl
  obtain ⟨failure, output, values, _⟩ :=
    run_agrees_with_evaluation Program.ofTree_sample unfailing
  rw [evaluation_of_sample] at failure output values
  refine ⟨Program.ofTree_sample, unfailing, failure, output, ?_⟩
  rw [values]
  rfl

end Machine

end Guu
