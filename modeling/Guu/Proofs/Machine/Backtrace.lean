import Guu.Debugger.Session
import Guu.Machine.Report
import Guu.Proofs.Machine.CallStack

/-!
# What a backtrace tells

A backtrace has a line for each frame of the call stack, the innermost first.
The first line tells what is executed next.  Every other line tells a call that
waits: the frame above it remembers the place behind that call, and runs the
procedure that the call names.  So every name and every line number in a
backtrace is that of a procedure and a statement of the program.
-/

namespace Guu

/-- What a line of a backtrace tells about a frame: a procedure, and the line of a statement. -/
structure FrameReport where
  name : String
  line : Nat
deriving DecidableEq, Repr

namespace FrameReport

def text (number : Nat) (report : FrameReport) : String :=
  s!"#{number} {report.name}() at line {report.line}\n"

def ofPlace (program : Program) (place : Position) : FrameReport :=
  ⟨program.nameAt place, program.lineAt place⟩

end FrameReport

namespace Program

variable {program : Program}

theorem exists_procedure_named {name : String} {index : Nat}
    (known : program.find? name = some index) :
    ∃ procedure, program.procedures[index]? = some procedure ∧ procedure.name = name := by
  obtain ⟨inside, named, _⟩ := Array.findIdx?_eq_some_iff_getElem.mp known
  exact ⟨program.procedures[index], Array.getElem?_eq_getElem inside, by simpa using named⟩

/-- A place in the procedure that a name stands for belongs to that name. -/
theorem nameAt_of_find? {name : String} {place : Position}
    (known : program.find? name = some place.procedure) : program.nameAt place = name := by
  obtain ⟨procedure, found, named⟩ := exists_procedure_named known
  simp [nameAt, procedure?, found, named]

theorem lineAt_of_statement {place : Position} {statement : Statement}
    (found : program.statement? place = some statement) :
    program.lineAt place = statement.line := by
  simp [lineAt, found]

theorem exists_procedure_of_statement? {place : Position} {statement : Statement}
    (found : program.statement? place = some statement) :
    ∃ procedure, program.procedure? place = some procedure ∧
      procedure.body[place.offset]? = some statement ∧ program.nameAt place = procedure.name := by
  obtain ⟨procedure, owner, inside⟩ := Option.bind_eq_some_iff.mp found
  exact ⟨procedure, owner, inside, by simp [nameAt, owner]⟩

end Program

namespace Machine

/--
A frame waits for the procedure of one report in a call that another report
tells: the call stands in a body of the second one's name, on its line, names
the first one, and the frame resumes directly behind it.
-/
def Awaits (program : Program) (frame : Frame) (inner outer : FrameReport) : Prop :=
  ∃ place procedure, frame = .resume place.next ∧ program.procedure? place = some procedure ∧
    procedure.name = outer.name ∧
    procedure.body[place.offset]? = some ⟨outer.line, .call inner.name⟩

/-- Of two frames, one above the other, the lower one waits in a call of the upper one. -/
theorem Linked.call_at {program : Program} {above : Nat} {callers : List Position}
    (linked : Linked program above callers) (position : Position)
    (stands : position.procedure = above) {number : Nat} {inner caller : Position}
    (upper : (position :: callers)[number]? = some inner)
    (lower : callers[number]? = some caller) :
    ∃ line name, program.statement? caller = some ⟨line, .call name⟩ ∧
      program.find? name = some inner.procedure := by
  induction linked generalizing number position with
  | entered named => simp at lower
  | @called above line first name outer found named rest ih =>
      cases number with
      | zero =>
          simp only [List.getElem?_cons_zero, Option.some.injEq] at upper lower
          subst upper lower
          exact ⟨line, name, found, stands ▸ named⟩
      | succ number =>
          simp only [List.getElem?_cons_succ] at upper lower
          exact ih first rfl upper lower

/-- The lowest frame belongs to `main`. -/
theorem Linked.lowest {program : Program} {above : Nat} {callers : List Position}
    (linked : Linked program above callers) (position : Position)
    (stands : position.procedure = above) :
    ∃ lowest, (position :: callers).getLast? = some lowest ∧
      program.find? Program.entryPoint = some lowest.procedure := by
  induction linked generalizing position with
  | entered named => exact ⟨position, rfl, stands ▸ named⟩
  | @called above line first name outer found named rest ih =>
      obtain ⟨lowest, last, main⟩ := ih first rfl
      exact ⟨lowest, by simpa using last, main⟩

theorem frames_of_running {machine : Machine} {position : Position} {callers : List Position}
    (running : machine.control = .running position callers) :
    machine.frames = position :: callers := by
  simp [frames, running]

/-- A backtrace lists the reports about the places of all frames. -/
theorem backtrace_eq_reports (machine : Machine) :
    machine.backtrace =
      String.join ((machine.frames.map (FrameReport.ofPlace machine.program)).mapIdx
        FrameReport.text) := by
  have lines : machine.frames.mapIdx (frameLine machine.program) =
      (machine.frames.map (FrameReport.ofPlace machine.program)).mapIdx FrameReport.text := by
    apply List.ext_getElem?
    intro number
    simp only [List.getElem?_mapIdx, List.getElem?_map, Option.map_map]
    rfl
  rw [backtrace, lines]

theorem status_of_running {machine : Machine} {position : Position} {callers : List Position}
    (running : machine.control = .running position callers) :
    Debugger.Session.status machine =
      s!"{machine.program.nameAt position}() at line {machine.program.lineAt position}, " ++
        s!"depth {machine.depth}\n" := by
  simp only [Debugger.Session.status, running]

/-- The report about a waiting call tells that call. -/
theorem awaits_of_linked {program : Program} {position : Position} {callers : List Position}
    (linked : Linked program position.procedure callers) {number : Nat} {inner outer : FrameReport}
    (upper : ((position :: callers).map (FrameReport.ofPlace program))[number]? = some inner)
    (lower : ((position :: callers).map (FrameReport.ofPlace program))[number + 1]? = some outer) :
    ∃ frame, (Control.running position callers).frames[number]? = some frame ∧
      Awaits program frame inner outer := by
  simp only [List.getElem?_map, List.getElem?_cons_succ, Option.map_eq_some_iff] at upper lower
  obtain ⟨place, above, rfl⟩ := upper
  obtain ⟨caller, below, rfl⟩ := lower
  obtain ⟨line, name, found, known⟩ := linked.call_at position rfl above below
  obtain ⟨procedure, owner, inside, named⟩ := Program.exists_procedure_of_statement? found
  refine ⟨.resume caller.next, ?_, caller, procedure, rfl, owner, named.symm, ?_⟩
  · have bound : number < (callers.map fun caller => Frame.resume caller.next).length := by
      simpa using (List.getElem?_eq_some_iff.mp below).1
    rw [Control.frames, List.getElem?_append_left bound, List.getElem?_map, below, Option.map_some]
  · simp only [FrameReport.ofPlace, Program.nameAt_of_find? known,
      Program.lineAt_of_statement found, inside]

/--
However a machine has been driven so far, the backtrace of a running one has a
line for each frame, numbered from the innermost.  The first line and the status
line of the debugger tell the current procedure and the current line, every
other line tells the call in which the frame above it waits, and the last one
belongs to `main`.  There is no backtrace before and behind `main`.
-/
theorem backtrace_tells_waiting_calls {program : Program} {machine : Machine}
    (reachable : Reachable program machine) :
    (machine.control.isRunning = false → machine.backtrace = "") ∧
    (machine.control.isRunning = true → ∃ innermost others,
      let reports : List FrameReport := innermost :: others
      machine.backtrace = String.join (reports.mapIdx FrameReport.text) ∧
      reports.length = machine.depth ∧
      machine.currentProcedure? = some innermost.name ∧
      machine.currentLine? = some innermost.line ∧
      (∀ number inner outer, reports[number]? = some inner → reports[number + 1]? = some outer →
        ∃ frame, machine.control.frames[number]? = some frame ∧
          Awaits program frame inner outer) ∧
      reports.getLast?.map FrameReport.name = some Program.entryPoint ∧
      Debugger.Session.status machine =
        s!"{innermost.name}() at line {innermost.line}, " ++ s!"depth {reports.length}\n") := by
  constructor
  · intro idle
    cases control : machine.control with
    | running position callers => simp [control, Control.isRunning] at idle
    | _ => simp [backtrace, frames, control]
  · intro active
    cases running : machine.control with
    | ready => simp [running, Control.isRunning] at active
    | finished => simp [running, Control.isRunning] at active
    | running position callers =>
        obtain ⟨⟨statement, stands⟩, _, linked⟩ := reachable.sound position callers running
        rw [reachable.program_eq] at stands linked
        obtain ⟨procedure, owner, _, named⟩ := Program.exists_procedure_of_statement? stands
        obtain ⟨lowest, last, main⟩ := linked.lowest position rfl
        refine ⟨.ofPlace program position, callers.map (.ofPlace program),
          ?_, ?_, ?_, ?_, ?_, ?_, ?_⟩
        · rw [backtrace_eq_reports, frames_of_running running, reachable.program_eq]
          rfl
        · simp [depth, running, Control.depth]
        · simp [currentProcedure?, running, reachable.program_eq, owner, FrameReport.ofPlace, named]
        · simp [currentLine?, running, reachable.program_eq, stands, FrameReport.ofPlace,
            Program.lineAt_of_statement stands]
        · intro number inner outer upper lower
          exact awaits_of_linked linked upper lower
        · rw [← List.map_cons, List.getLast?_map, last]
          simp [FrameReport.ofPlace, Program.nameAt_of_find? main]
        · rw [status_of_running running, reachable.program_eq]
          simp [FrameReport.ofPlace, depth, running, Control.depth]

/-- Behind a failure two calls further in, both of them the last statements of their bodies. -/
theorem backtrace_of_inner_failure :
    let program : Program := ⟨#[
      ⟨"main", 1, #[⟨2, .print (.literal 4)⟩, ⟨3, .call "outer"⟩]⟩,
      ⟨"outer", 4, #[⟨5, .call "inner"⟩]⟩,
      ⟨"inner", 6, #[⟨7, .set "a" (.variable "b")⟩]⟩]⟩
    let machine := (Operation.run.apply (ofProgram program {})).state
    Reachable program machine ∧ machine.control.isRunning = true ∧
      machine.backtrace = "#0 inner() at line 7\n#1 outer() at line 5\n#2 main() at line 3\n" ∧
      ∃ innermost others,
        machine.backtrace = String.join ((innermost :: others).mapIdx FrameReport.text) ∧
        (innermost :: others).length = machine.depth ∧
        machine.currentLine? = some innermost.line ∧
        (innermost :: others).getLast?.map FrameReport.name = some "main" := by
  intro program machine
  have reachable : Reachable program machine := .operated (.fresh {}) .run
  have running : machine.control.isRunning = true := by decide +kernel
  have text : machine.backtrace =
      "#0 inner() at line 7\n#1 outer() at line 5\n#2 main() at line 3\n" := by decide +kernel
  obtain ⟨innermost, others, listed, length, _, line, _, main, _⟩ :=
    (backtrace_tells_waiting_calls reachable).2 running
  exact ⟨reachable, running, text, innermost, others, listed, length, line, main⟩

end Machine

end Guu
