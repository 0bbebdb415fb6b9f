import Guu.Proofs.CommandLine.Loading
import Guu.Proofs.Program.Compilation

/-!
# Buffering is invisible in the debugger

What a program prints under the debugger goes through a buffer, and what the
session writes does not.  The output is flushed in time, and so what arrives is
what a session without any buffer writes, in the same order.
-/

namespace Guu.CommandLine

open Debugger (Command InputLine Session)

/-- The course of debugging a program writes what the session writes. -/
theorem written_of_debugging {options : Options} (debugs : options.debug = true)
    (hidden : options.showTree = false) {content : Except ReadFailure (List UInt8)}
    {source : String} (read : Loaded.source content = .ok source) {tree : Tree}
    (parsed : Tree.parse source = .ok tree) {program : Program}
    (compiled : Program.ofTree tree = .ok program) (input : List UInt8) :
    (Course.ofOptions options content input).journal.written =
      if options.checkOnly then []
      else
        ((Session.ofMachine (.ofProgram program {}) {}).hold
          (InputLine.lines input)).journal.written := by
  have loads := loads_ofFile options content
  unfold Course.ofOptions
  generalize Loaded.ofFile options content = loaded at loads ⊢
  cases loads with
  | unread refused => cases refused.symm.trans read
  | unparsed found refused =>
      cases found.symm.trans read
      cases refused.symm.trans parsed
  | uncompiled found denotes refused shows =>
      cases found.symm.trans read
      cases denotes.symm.trans parsed
      cases refused.symm.trans compiled
  | compiled found denotes yields shows =>
      cases found.symm.trans read
      cases denotes.symm.trans parsed
      cases yields.symm.trans compiled
      have holds : Course.execution options (.ofProgram program {}) input =
          .ofInput (.ofProgram program {}) input := by
        simp [Course.execution, debugs]
      rw [Course.written_ofLoaded_of_compiled shows, holds, hidden]
      rfl

namespace Report

/--
Over sinks that never fail, a session has flushed everything that its program
printed whenever it writes to the console, and when it ends.  It is the words of
all commands and one exchange after the other.  The words flush nothing, and an
exchange flushes the output once if its command executes statements, also if that
fails, and otherwise not at all.  Hence a program that is debugged without a log
and without a tree, behind whatever front end, leaves on standard output the
texts of the transcript of a session without any buffer, or nothing if it was
only to be checked.
-/
theorem buffering_is_invisible {program : Program} {output console : Sink}
    (outputSteady : output.Steady) (consoleSteady : console.Steady) (input : List UInt8) :
    let lines := InputLine.lines input
    let session := Session.ofMachine (.ofProgram program output) console
    let exchanges := session.exchanges lines
    let journal := (session.hold lines).journal
    journal.FlushesFirst ∧ journal.unflushed = [] ∧
      journal.toList = session.help.journal.toList ++
        exchanges.flatMap (fun exchange => exchange.journal.toList) ∧
      session.help.journal.outputFlushes = 0 ∧
      (∀ exchange ∈ exchanges, exchange.journal.outputFlushes =
        if exchange.command.any Command.executes then 1 else 0) ∧
      ∀ {frontend : Frontend} {arguments : List String} {options : Options}
        {directory : Directory} {source : String} {tree : Tree},
        frontend.request arguments = .run options → options.debug = true →
        options.verbosity = 0 → options.showTree = false →
        directory.read options.file = .ok (Text.Utf8.bytes source) →
        Tree.parse source = .ok tree → Program.ofTree tree = .ok program →
        (ofArguments frontend arguments directory input).stdout =
          if options.checkOnly then []
          else
            ((Session.ofMachine (.ofProgram program {}) {}).hold lines).journal.transcript.flatMap
              TranscriptEntry.text := by
  intro lines session exchanges journal
  have steady : session.Steady := ⟨consoleSteady, outputSteady⟩
  obtain ⟨inStep, parts⟩ := Session.inStep_hold steady lines
  refine ⟨inStep.flushesFirst, inStep.atEnd, parts, (Session.flushes_say steady _).count_eq,
    fun exchange member => (Session.flushes_exchanges steady lines exchange member).2, ?_⟩
  intro frontend arguments options directory source tree asked debugs quiet hidden held parsed
    compiled
  have read : Loaded.source (directory.read options.file) = .ok source := by
    rw [held, source_of_bytes]
  rw [ofArguments_of_run asked, stdout_of_quiet quiet,
    written_of_debugging debugs hidden read parsed compiled, Journal.flatMap_text_transcript]

/-- A line is printed between two prompts, and a failing step flushes as well. -/
theorem debugging_of_failing_source :
    let source := "sub main\nprint 1\nprint b\n"
    let program : Program :=
      ⟨#[⟨"main", 1, #[⟨2, .print (.literal 1)⟩, ⟨3, .print (.variable "b")⟩]⟩]⟩
    let input := Text.Utf8.bytes "s\nv\nn\nq\n"
    let directory : Directory := ⟨[("prog.guu", Text.Utf8.bytes source)]⟩
    let exchanges :=
      (Session.ofMachine (.ofProgram program {}) {}).exchanges (InputLine.lines input)
    Sink.Steady {} ∧
      exchanges.map (fun exchange => (exchange.command, exchange.journal.outputFlushes)) =
        [(some .step, 1), (some .inspect, 0), (some .next, 1)] ∧
      (ofRequest (Request.ofArguments ["-d", "prog.guu"]) directory input "now").stdout =
        Text.Utf8.bytes (Command.summary ++
          "\n(guu) 1\nmain() at line 3, depth 1\n(guu) (guu) ") := by
  intro source program input directory exchanges
  have asked : (Frontend.standard "now").request ["-d", "prog.guu"] =
      .run ⟨"prog.guu", false, false, true, 0⟩ := by
    decide +kernel
  have held : directory.read "prog.guu" = .ok (Text.Utf8.bytes source) := by decide +kernel
  have stages : (Tree.parse source).toOption.map Program.ofTree = some (.ok program) := by
    decide +kernel
  obtain ⟨tree, parsed, compiled⟩ : ∃ tree, Tree.parse source = .ok tree ∧
      Program.ofTree tree = .ok program := by
    cases parsed : Tree.parse source with
    | error error =>
        rw [parsed] at stages
        cases stages
    | ok tree =>
        rw [parsed] at stages
        exact ⟨tree, rfl, Option.some.inj stages⟩
  obtain ⟨-, -, -, -, -, shows⟩ := @buffering_is_invisible program {} {}
    steady_default steady_default input
  refine ⟨steady_default, by decide +kernel, ?_⟩
  rw [← ofArguments_standard, shows asked rfl rfl rfl held parsed compiled]
  decide +kernel

end Report

end Guu.CommandLine
