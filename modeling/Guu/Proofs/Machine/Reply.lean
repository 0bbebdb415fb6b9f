import Guu.Proofs.Machine.Correspondence
import Guu.Proofs.Machine.Resumption
import Guu.Proofs.Program.Block

/-!
# What can be seen of a machine

From outside a machine is seen by what it replies to requests: how operations
end and what they do, the variables, the backtrace, and where it stands.  None
of this depends on code that is not reached from `main`, nor on the order in
which procedures are declared.
-/

namespace Guu

inductive Request where
  | order (order : Order)
  | value (name : String)
  /-- Write the variables to a console. -/
  | variableReport (console : Sink)
  /-- Write the backtrace to a console. -/
  | backtrace (console : Sink)
deriving DecidableEq, Repr

/-- What a machine answers, apart from the indices of procedures. -/
inductive Answer where
  | obeyed (events : List Event) (failure : Option RuntimeError)
  | value (value : Option Int64)
  | wrote (written : Sink.Written)
deriving DecidableEq, Repr

/-- What can be seen of the place where a machine stands. -/
structure Snapshot where
  isRunning : Bool
  isFinished : Bool
  depth : Nat
  line? : Option Nat
  procedure? : Option String
deriving DecidableEq, Repr

structure Reply where
  answer : Answer
  snapshot : Snapshot
deriving DecidableEq, Repr

namespace Machine

def snapshot (machine : Machine) : Snapshot :=
  ⟨machine.control.isRunning, machine.control.isFinished, machine.depth, machine.currentLine?,
    machine.currentProcedure?⟩

def answer (machine : Machine) : Request → Answer
  | .order order =>
      let outcome := order.obey machine
      .obeyed outcome.journal.unindexed outcome.failure
  | .value name => .value (machine.store.get? name)
  | .variableReport console => .wrote (console.write (Text.Utf8.bytes machine.variableReport))
  | .backtrace console => .wrote (console.write (Text.Utf8.bytes machine.backtrace))

def after (machine : Machine) : Request → Machine
  | .order order => (order.obey machine).state
  | _ => machine

def replies : List Request → Machine → List Reply
  | [], _ => []
  | request :: rest, machine =>
      ⟨machine.answer request, (machine.after request).snapshot⟩ ::
        replies rest (machine.after request)

/-! ## Machines that are alike -/

section Alike

variable {names : String → Prop} {program other : Program} {machine twin : Machine}

theorem sound_after (sound : machine.Sound) (request : Request) :
    (machine.after request).Sound := by
  cases request with
  | order order =>
      cases order with
      | operate operation => exact apply_preserves Sound sound_stepInto operation sound
      | limit room => exact sound_of_control rfl rfl sound
  | _ => exact sound

theorem MachinesAlike.obey (alike : MachinesAlike names program other machine twin)
    (shares : Shares names program other) (order : Order) :
    OutcomesAlike names program other (order.obey machine) (order.obey twin) := by
  cases order with
  | operate operation => exact alike.apply shares operation
  | limit room =>
      simp only [Order.obey, alike.output]
      exact (alike.redirect _).done

theorem MachinesAlike.after (alike : MachinesAlike names program other machine twin)
    (shares : Shares names program other) (request : Request) :
    MachinesAlike names program other (machine.after request) (twin.after request) := by
  cases request with
  | order order => exact (alike.obey shares order).state
  | _ => exact alike

theorem MachinesAlike.answer_eq (alike : MachinesAlike names program other machine twin)
    (shares : Shares names program other) (sound : machine.Sound) (request : Request) :
    machine.answer request = twin.answer request := by
  cases request with
  | order order =>
      have obeyed := alike.obey shares order
      simp only [answer, obeyed.events, obeyed.failure]
  | value name => simp only [answer, alike.store]
  | variableReport console => simp only [answer, variableReport, alike.store]
  | backtrace console => simp only [answer, alike.backtrace_eq shares sound]

theorem MachinesAlike.snapshot_eq (alike : MachinesAlike names program other machine twin)
    (shares : Shares names program other) : machine.snapshot = twin.snapshot := by
  simp only [snapshot, Machine.depth, alike.control.isRunning_eq, alike.control.isFinished_eq,
    alike.control.depth_eq, alike.currentLine?_eq shares, alike.currentProcedure?_eq]

/-- Sound machines that are alike cannot be told apart by requests. -/
theorem MachinesAlike.replies_eq (alike : MachinesAlike names program other machine twin)
    (shares : Shares names program other) (sound : machine.Sound) (requests : List Request) :
    replies requests machine = replies requests twin := by
  induction requests generalizing machine twin with
  | nil => rfl
  | cons request rest ih =>
      have after := alike.after shares request
      rw [replies, replies, alike.answer_eq shares sound request, after.snapshot_eq shares,
        ih after (sound_after sound request)]

end Alike

/--
Two compiled trees that declare the same bodies under the names that are reached
from `main` are the same from outside: whatever is requested in whatever order,
the replies of both machines agree.  This applies to trees that consist of the
same blocks in another order, except for blocks of names that are not reached.
-/
theorem only_reached_code_matters {first second : Tree} {program other : Program}
    (compiled : Program.ofTree first = .ok program)
    (compiledOther : Program.ofTree second = .ok other) :
    ((∀ name, first.Reaches name → first.body? name = second.body? name) →
      ∀ (output : Sink) (requests : List Request),
        replies requests (ofProgram program output) = replies requests (ofProgram other output)) ∧
    ∀ (blocks others : List Block) (kept : String → Bool),
      first = .ofBlocks blocks → second = .ofBlocks others →
      (∀ name, first.Reaches name → kept name = true) →
      (blocks.filter (kept ·.name)).Perm (others.filter (kept ·.name)) →
      ∀ (output : Sink) (requests : List Request),
        replies requests (ofProgram program output) =
          replies requests (ofProgram other output) := by
  have replied (agree : ∀ name, first.Reaches name → first.body? name = second.body? name)
      (output : Sink) (requests : List Request) :
      replies requests (ofProgram program output) = replies requests (ofProgram other output) := by
    have shares := shares_of_compiled compiled compiledOther agree
    have alike := machinesAlike_ofProgram first.Reaches program other output
    exact alike.replies_eq shares (Reachable.fresh output).sound requests
  refine ⟨replied, ?_⟩
  rintro blocks others kept rfl rfl keeps same
  have distinct := Program.nodup_names_of_compiled compiled
  exact replied fun name reached => Tree.body?_eq_of_perm distinct same (keeps name reached)

/-- The sample with its blocks in the opposite order, behind one that is never called. -/
theorem replies_of_reordered_sample :
    let blocks : List Block := [
      ⟨"main", 1, [
        .binary .set (.operand (.variable "a")) (.operand (.literal 3)) 2,
        .unary .call (.operand (.variable "shout")) 3,
        .unary .print (.operand (.variable "a")) 4,
        .unary .call (.operand (.variable "nowhere")) 5], by decide⟩,
      ⟨"shout", 6, [
        .binary .set (.operand (.variable "a")) (.operand (.literal (-7))) 7,
        .unary .print (.operand (.variable "a")) 8,
        .unary .call (.operand (.variable "rest")) 9], by decide⟩,
      ⟨"rest", 10, [], by decide⟩]
    let others : List Block :=
      ⟨"unused", 11, [.unary .call (.operand (.variable "main")) 12], by decide⟩ :: blocks.reverse
    let requests : List Request :=
      [.order (.operate .stepInto), .order (.operate .stepInto), .order (.limit (some 1)),
        .order (.operate .stepOver), .backtrace {}, .order (.limit none), .order (.operate .run),
        .value "a", .variableReport {}]
    let other : Program := ⟨#[
      ⟨"unused", 11, #[⟨12, .call "main"⟩]⟩,
      ⟨"rest", 10, #[]⟩,
      ⟨"shout", 6, #[
        ⟨7, .set "a" (.literal (-7))⟩, ⟨8, .print (.variable "a")⟩, ⟨9, .call "rest"⟩]⟩,
      ⟨"main", 1, #[
        ⟨2, .set "a" (.literal 3)⟩, ⟨3, .call "shout"⟩, ⟨4, .print (.variable "a")⟩,
        ⟨5, .call "nowhere"⟩]⟩]⟩
    Program.ofTree (.ofBlocks blocks) = .ok .sample ∧
      Program.ofTree (.ofBlocks others) = .ok other ∧
      (replies requests (ofProgram other {}))[4]?.map Reply.answer =
        some (.wrote
          ⟨Text.Utf8.bytes "#0 shout() at line 8\n#1 main() at line 3\n", {}, true⟩) ∧
      replies requests (ofProgram .sample {}) = replies requests (ofProgram other {}) := by
  intro blocks others requests other
  have compiled : Program.ofTree (.ofBlocks blocks) = .ok .sample := Program.ofTree_sample
  have compiledOther : Program.ofTree (.ofBlocks others) = .ok other := by cbv
  have traced : (replies requests (ofProgram other {}))[4]?.map Reply.answer =
      some (.wrote
        ⟨Text.Utf8.bytes "#0 shout() at line 8\n#1 main() at line 3\n", {}, true⟩) := by
    decide +kernel
  have uncalled : ∀ procedure ∈ Tree.procedures (Tree.ofBlocks blocks).statements,
      ∀ statement ∈ procedure.body.toList, statement.instruction ≠ .call "unused" := by
    decide +kernel
  have kept : ∀ name, (Tree.ofBlocks blocks).Reaches name → (name != "unused") = true := by
    rintro name ⟨count, chain⟩
    cases chain with
    | main => decide
    | call chain calls =>
        obtain ⟨body, line, declared, member⟩ := calls
        obtain ⟨procedure, found, rfl⟩ := Option.map_eq_some_iff.mp declared
        rw [bne_iff_ne]
        rintro rfl
        exact uncalled procedure (List.mem_of_find?_eq_some found) _ member rfl
  have same : (blocks.filter (·.name != "unused")).Perm (others.filter (·.name != "unused")) :=
    (List.reverse_perm blocks).symm
  exact ⟨compiled, compiledOther, traced,
    (only_reached_code_matters compiled compiledOther).2 blocks others (· != "unused") rfl rfl
      kept same {} requests⟩

end Machine

end Guu
