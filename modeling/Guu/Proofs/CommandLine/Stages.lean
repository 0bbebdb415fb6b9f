import Guu.Proofs.CommandLine.Loading

/-!
# An invocation agrees with its stages

A source is parsed, compiled and run.  Without a log and without the debugger
the exit status and the message tell the first stage that fails, and standard
output is what the stages show, in their order.
-/

namespace Guu.CommandLine

/-- The message of the first stage of a source that fails, if one of them does. -/
def firstFailure? (options : Options) (source : String) : Option String :=
  match Tree.parse source with
  | .error error => some error.message
  | .ok tree =>
      match Program.ofTree tree with
      | .error error => some error.message
      | .ok program =>
          if options.checkOnly then none
          else (Machine.ofProgram program {}).run.failure.map RuntimeError.message

def layoutOf (source : String) : List UInt8 :=
  match Tree.parse source with
  | .error _ => []
  | .ok tree => Text.Utf8.bytes tree.render

/-- Everything that a source prints when it is run, also in front of a failure. -/
def printedBy (source : String) : List UInt8 :=
  match Tree.parse source with
  | .error _ => []
  | .ok tree =>
      match Program.ofTree tree with
      | .error _ => []
      | .ok program => (Machine.ofProgram program {}).run.journal.bytesTo .output

section Stages

variable {options : Options} {source : String}

/-- No stage fails if there is a program, and its run does not fail, or is not asked for. -/
theorem firstFailure?_eq_none :
    firstFailure? options source = none ↔
      ∃ tree program, Tree.parse source = .ok tree ∧ Program.ofTree tree = .ok program ∧
        (options.checkOnly = false → (Machine.ofProgram program {}).run.failure = none) := by
  unfold firstFailure?
  cases parsed : Tree.parse source with
  | error error => simp
  | ok tree =>
      cases compiled : Program.ofTree tree with
      | error error => simp [compiled]
      | ok program => cases options.checkOnly <;> simp [compiled]

/-- The course of an invocation fails as its stages do, and writes what they show. -/
theorem course_of_stages {content : Except ReadFailure (List UInt8)}
    (read : Loaded.source content = .ok source) (plain : options.debug = false)
    (input : List UInt8) :
    (Course.ofOptions options content input).failure = firstFailure? options source ∧
      (Course.ofOptions options content input).journal.written =
        (if options.showTree then layoutOf source else []) ++
          (if options.checkOnly then [] else printedBy source) := by
  have loads := loads_ofFile options content
  unfold Course.ofOptions
  generalize Loaded.ofFile options content = loaded at loads ⊢
  unfold firstFailure? layoutOf printedBy
  cases loads with
  | unread refused => cases refused.symm.trans read
  | unparsed found refused =>
      cases found.symm.trans read
      rw [refused]
      exact ⟨rfl, by simp [Course.ofLoaded, Journal.written]⟩
  | uncompiled found parsed refused shows =>
      cases found.symm.trans read
      rw [parsed]
      dsimp only
      rw [refused]
      exact ⟨rfl, by simp [Course.ofLoaded, shows.written_eq]⟩
  | @compiled _ tree program journal found parsed compiled shows =>
      cases found.symm.trans read
      have internal : (Executed.ofRun (.ofProgram program {})).journal.Internal :=
        Machine.internal_apply .run _
      have runs : Course.execution options (.ofProgram program {}) input =
          .ofRun (.ofProgram program {}) := by
        simp [Course.execution, plain]
      rw [Course.written_ofLoaded_of_compiled shows, Course.ofLoaded_of_compiled, runs,
        Journal.written_of_internal internal, parsed]
      dsimp only
      rw [compiled]
      refine ⟨?_, rfl⟩
      cases options.checkOnly <;> rfl

end Stages

namespace Report

/--
Behind whatever front end, an invocation without the log and without the debugger
agrees with the stages of its source.  It exits with no complaint exactly when the source parses and
compiles and, unless it is only to be checked, its run does not fail.  Otherwise
the message on standard error is that of the first stage that fails.  On standard
output stands the tree, if it is asked for and there is one, and behind it, unless
the source is only to be checked, everything that the run prints, also in front
of its failure.
-/
theorem invocation_agrees_with_stages {frontend : Frontend} {arguments : List String}
    {options : Options} (asked : frontend.request arguments = .run options)
    (plain : options.debug = false) (quiet : options.verbosity = 0) {directory : Directory}
    {source : String} (held : directory.read options.file = .ok (Text.Utf8.bytes source))
    (input : List UInt8) :
    let report := ofArguments frontend arguments directory input
    (report.status = 0 ∧ report.stderr = "" ↔
        ∃ tree program, Tree.parse source = .ok tree ∧ Program.ofTree tree = .ok program ∧
          (options.checkOnly = false → (Machine.ofProgram program {}).run.failure = none)) ∧
      (report.status = 0 ∧ report.stderr = "" ∨
        ∃ message, firstFailure? options source = some message ∧
          report.status = 1 ∧ report.stderr = s!"error: {message}\n") ∧
      report.stdout =
        (if options.showTree then layoutOf source else []) ++
          (if options.checkOnly then [] else printedBy source) := by
  intro report
  have read : Loaded.source (directory.read options.file) = .ok source := by
    rw [held, source_of_bytes]
  obtain ⟨failure, written⟩ := course_of_stages read plain input
  have same : report = ofOptions frontend.log options (directory.read options.file) input :=
    ofArguments_of_run asked directory input
  have status : report.status = if (firstFailure? options source).isSome then 1 else 0 := by
    rw [same, ofOptions_eq, status_ofJournal, failure]
  have stderr : report.stderr = (firstFailure? options source).elim "" failureText := by
    rw [same, stderr_of_quiet quiet, failure]
  refine ⟨?_, ?_, by rw [same, stdout_of_quiet quiet, written]⟩
  · rw [status, stderr, ← firstFailure?_eq_none]
    cases firstFailure? options source <;> simp
  · rw [status, stderr]
    cases firstFailure? options source <;> simp [failureText]

/-- The tree and the first line are on standard output although the run fails behind them. -/
theorem invocation_of_failing_source :
    let source := "sub main\nprint 1\nprint b\n"
    let directory : Directory := ⟨[("prog.guu", Text.Utf8.bytes source)]⟩
    let report := ofRequest (Request.ofArguments ["prog.guu", "-a"]) directory [] "now"
    report.status = 1 ∧ report.stderr = "error: unknown variable 'b' on line 3\n" ∧
      report.stdout = layoutOf source ++ Text.Utf8.bytes "1\n" := by
  intro source directory report
  have asked : (Frontend.standard "now").request ["prog.guu", "-a"] =
      .run ⟨"prog.guu", true, false, false, 0⟩ := by
    decide +kernel
  have held : directory.read "prog.guu" = .ok (Text.Utf8.bytes source) := by decide +kernel
  have printed : printedBy source = Text.Utf8.bytes "1\n" := by decide +kernel
  have first : firstFailure? ⟨"prog.guu", true, false, false, 0⟩ source =
      some "unknown variable 'b' on line 3" := by
    decide +kernel
  obtain ⟨agrees, ends, shows⟩ := invocation_agrees_with_stages asked rfl rfl held []
  have fails : ¬(report.status = 0 ∧ report.stderr = "") := fun success => by
    cases first.symm.trans (firstFailure?_eq_none.mpr (agrees.mp success))
  obtain ⟨message, told, status, stderr⟩ := ends.resolve_left fails
  cases first.symm.trans told
  refine ⟨status, stderr, shows.trans ?_⟩
  rw [printed]
  rfl

end Report

end Guu.CommandLine
