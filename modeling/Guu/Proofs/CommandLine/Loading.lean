import Guu.Proofs.CommandLine.Delivery
import Guu.Proofs.Debugger.Flushing
import Guu.Proofs.Debugger.Line

/-!
# The course of an invocation

Loading a file ends in one of four ways, which `Loads` lists once with all that
they leave.  What follows is the execution of a program, if there is one.  The
whole course of an invocation is in step, so that without a log everything that
was written arrives in its order.
-/

namespace Guu.CommandLine

open Debugger (InputLine Session)

/-! ## Loading -/

/-- The events of loading a tree: it is shown if that is asked for, and something is noted. -/
structure Shows (options : Options) (tree : Tree) (journal : Journal) : Prop where
  apart : journal.Apart
  written_eq : journal.written =
    if options.showTree then Text.Utf8.bytes tree.render else []
  fileParsed : Event.noted (.fileParsed options.file) ∈ journal.toList

inductive Loads (options : Options) (content : Except ReadFailure (List UInt8)) :
    Loaded → Prop where
  | unread {failure : ReadFailure} (refused : Loaded.source content = .error failure) :
      Loads options content
        ⟨.nothing, #[], some s!"failed to read '{options.file}': {failure.message}"⟩
  | unparsed {source : String} {error : SyntaxError} (read : Loaded.source content = .ok source)
      (refused : Tree.parse source = .error error) :
      Loads options content ⟨.nothing, #[], some error.message⟩
  | uncompiled {source : String} {tree : Tree} {error : CompileError} {journal : Journal}
      (read : Loaded.source content = .ok source) (parsed : Tree.parse source = .ok tree)
      (refused : Program.ofTree tree = .error error) (shows : Shows options tree journal) :
      Loads options content ⟨.nothing, journal, some error.message⟩
  | compiled {source : String} {tree : Tree} {program : Program} {journal : Journal}
      (read : Loaded.source content = .ok source) (parsed : Tree.parse source = .ok tree)
      (compiled : Program.ofTree tree = .ok program) (shows : Shows options tree journal) :
      Loads options content
        ⟨if options.checkOnly then .nothing else .execute (.ofProgram program {}), journal, none⟩

section Loading

variable {options : Options} {tree : Tree}

theorem shows_parsedEvents (options : Options) (parsed : Parsed) (notes : List Note) :
    Shows options parsed.tree
      ((Loaded.parsedEvents options parsed).toArray ++ (notes.map Event.noted).toArray) where
  apart := by
    refine Journal.Apart.append ?_ (Journal.apart_notes notes)
    unfold Loaded.parsedEvents
    cases options.showTree <;> simp [Journal.Apart, Event.isOutput]
  written_eq := by
    rw [Journal.written_append, Journal.written_notes, List.append_nil]
    unfold Loaded.parsedEvents
    cases options.showTree <;> simp [Journal.written, Event.written]
  fileParsed := by simp [Loaded.parsedEvents]

theorem ofTree_of_error {error : CompileError} (refused : Program.ofTree tree = .error error) :
    Loaded.ofTree options tree =
      ⟨.nothing, ((Compilation.ofTree tree).notes.map Event.noted).toArray,
        some error.message⟩ := by
  unfold Program.ofTree at refused
  rw [Loaded.ofTree, refused]
  rfl

theorem exists_ofTree_of_ok (options : Options) {program : Program}
    (compiled : Program.ofTree tree = .ok program) :
    ∃ notes : List Note, Loaded.ofTree options tree =
      ⟨if options.checkOnly then .nothing else .execute (.ofProgram program {}),
        (notes.map Event.noted).toArray, none⟩ := by
  unfold Program.ofTree at compiled
  rw [Loaded.ofTree, compiled]
  cases options.checkOnly with
  | false => exact ⟨(Compilation.ofTree tree).notes, rfl⟩
  | true =>
      exact ⟨(Compilation.ofTree tree).notes ++ [.fileCompiled options.file], by
        simp [Outcome.after]⟩

theorem loads_ofFile (options : Options) (content : Except ReadFailure (List UInt8)) :
    Loads options content (Loaded.ofFile options content) := by
  unfold Loaded.ofFile
  cases read : Loaded.source content with
  | error failure => exact .unread read
  | ok source =>
      dsimp only
      unfold Loaded.ofSource
      cases found : Parsed.ofSource source with
      | error error =>
          exact .unparsed read (by rw [Tree.parse, found]; rfl)
      | ok parsed =>
          have denotes : Tree.parse source = .ok parsed.tree := by
            rw [Tree.parse, found]
            rfl
          dsimp only
          rw [Outcome.andThen_of_success rfl]
          cases compiled : Program.ofTree parsed.tree with
          | error error =>
              rw [ofTree_of_error compiled]
              exact .uncompiled read denotes compiled (shows_parsedEvents options parsed _)
          | ok program =>
              obtain ⟨notes, same⟩ := exists_ofTree_of_ok options compiled
              rw [same]
              exact .compiled read denotes compiled (shows_parsedEvents options parsed notes)

theorem source_of_bytes (source : String) :
    Loaded.source (.ok (Text.Utf8.bytes source)) = .ok source := by
  rw [Loaded.source, Text.Utf8.decode?_eq_some_iff.mpr rfl]

end Loading

theorem Loads.apart {options : Options} {content : Except ReadFailure (List UInt8)}
    {loaded : Loaded} (loads : Loads options content loaded) : loaded.journal.Apart := by
  cases loads with
  | unread refused => exact fun _ member => nomatch member
  | unparsed read refused => exact fun _ member => nomatch member
  | uncompiled read parsed refused shows => exact shows.apart
  | compiled read parsed compiled shows => exact shows.apart

/-! ## Executing -/

theorem steady_default : Sink.Steady {} :=
  ⟨Sink.unfailing_iff.mpr rfl, rfl⟩

namespace Executed

theorem closing_eq (executed : Executed) :
    ∃ notes : List Note,
      executed.closing = (notes.map Event.noted).toArray ++ #[.flushed .output] := by
  unfold closing
  cases executed.failure with
  | none => exact ⟨[], rfl⟩
  | some message => exact ⟨[.failed executed.state.backtrace], rfl⟩

theorem written_events (executed : Executed) :
    executed.events.written = executed.journal.written := by
  obtain ⟨notes, same⟩ := executed.closing_eq
  rw [events, same, Journal.written_append, Journal.written_append,
    Journal.written_notes]
  simp [Journal.written, Event.written]

/-- The last flush makes a run be in step. -/
theorem inStep_ofRun (machine : Machine) : (ofRun machine).events.InStep := by
  obtain ⟨notes, same⟩ := (ofRun machine).closing_eq
  have internal : (ofRun machine).journal.Internal := Machine.internal_apply .run machine
  rw [events, same, ← Array.append_assoc]
  exact Journal.inStep_flush (internal.append (Journal.internal_notes notes))

/-- A session is in step before the last flush, and behind it. -/
theorem inStep_ofInput {machine : Machine} (steady : machine.output.Steady)
    (input : List UInt8) : (ofInput machine input).events.InStep := by
  obtain ⟨notes, same⟩ := (ofInput machine input).closing_eq
  have session : (Session.ofMachine machine {}).Steady := ⟨steady_default, steady⟩
  rw [events, same]
  exact (Session.inStep_hold session _).1.append
    (Journal.inStep_flush (Journal.internal_notes notes))

end Executed

/-! ## The whole course -/

/-- Everything that happens in an invocation, and the message of its failure, if it fails. -/
structure Course where
  journal : Journal
  failure : Option String
deriving DecidableEq, Repr

namespace Course

def execution (options : Options) (machine : Machine) (input : List UInt8) : Executed :=
  if options.debug then Executed.ofInput machine input else Executed.ofRun machine

def ofLoaded (options : Options) (loaded : Loaded) (input : List UInt8) : Course :=
  match loaded.failure, loaded.state with
  | none, .execute machine =>
      let executed := execution options machine input
      ⟨loaded.journal ++ executed.events, executed.failure⟩
  | failure, _ => ⟨loaded.journal, failure⟩

def ofOptions (options : Options) (content : Except ReadFailure (List UInt8))
    (input : List UInt8) : Course :=
  ofLoaded options (Loaded.ofFile options content) input

end Course

theorem Options.level_of_quiet (options : Options) (quiet : options.verbosity = 0) :
    options.level = .warn := by
  simp [level, quiet]

namespace Report

theorem ofOptions_eq (log : Log) (options : Options) (content : Except ReadFailure (List UInt8))
    (input : List UInt8) :
    ofOptions log options content input =
      ofJournal log options.level (Course.ofOptions options content input).journal
        (Course.ofOptions options content input).failure := by
  unfold ofOptions Course.ofOptions
  generalize Loaded.ofFile options content = loaded
  obtain ⟨state, journal, failure⟩ := loaded
  cases failure with
  | some message => rfl
  | none => cases state <;> rfl

end Report

namespace Course

variable {options : Options} {program : Program}

theorem inStep_execution (options : Options) (program : Program) (input : List UInt8) :
    (execution options (.ofProgram program {}) input).events.InStep := by
  unfold execution
  split
  · exact Executed.inStep_ofInput steady_default input
  · exact Executed.inStep_ofRun _

/-- Behind loading, a program is executed unless it is only checked. -/
theorem ofLoaded_of_compiled (journal : Journal) (input : List UInt8) :
    ofLoaded options
        ⟨if options.checkOnly then .nothing else .execute (.ofProgram program {}), journal, none⟩
        input =
      if options.checkOnly then ⟨journal, none⟩
      else
        let executed := execution options (.ofProgram program {}) input
        ⟨journal ++ executed.events, executed.failure⟩ := by
  unfold ofLoaded
  cases options.checkOnly <;> rfl

theorem written_ofLoaded_of_compiled {tree : Tree} {journal : Journal}
    (shows : Shows options tree journal) (input : List UInt8) :
    (ofLoaded options
        ⟨if options.checkOnly then .nothing else .execute (.ofProgram program {}), journal, none⟩
        input).journal.written =
      (if options.showTree then Text.Utf8.bytes tree.render else []) ++
        if options.checkOnly then []
        else (execution options (.ofProgram program {}) input).journal.written := by
  rw [ofLoaded_of_compiled, ← shows.written_eq]
  cases options.checkOnly with
  | true => exact (List.append_nil _).symm
  | false =>
      exact (Journal.written_append _ _).trans
        (congrArg (journal.written ++ ·) (Executed.written_events _))

/-- Whatever happens in an invocation, the output is flushed in time. -/
theorem inStep_ofOptions (options : Options) (content : Except ReadFailure (List UInt8))
    (input : List UInt8) : (ofOptions options content input).journal.InStep := by
  have loads := loads_ofFile options content
  unfold ofOptions
  generalize Loaded.ofFile options content = loaded at loads ⊢
  have loading := Journal.inStep_of_apart loads.apart
  cases loads with
  | unread refused => exact loading
  | unparsed read refused => exact loading
  | uncompiled read parsed refused shows => exact loading
  | compiled read parsed compiled shows =>
      rw [ofLoaded_of_compiled]
      split
      · exact loading
      · exact loading.append (inStep_execution options _ input)

end Course

namespace Report

section Fields

variable (log : Log) (level : Level) (journal : Journal) (failure : Option String)

@[simp]
theorem status_ofJournal :
    (ofJournal log level journal failure).status = if failure.isSome then 1 else 0 := by
  cases failure <;> rfl

@[simp]
theorem stderr_ofJournal :
    (ofJournal log level journal failure).stderr =
      log.stderr level journal ++ failure.elim "" failureText := by
  cases failure with
  | none => exact String.append_empty.symm
  | some message => rfl

@[simp]
theorem stdout_ofJournal :
    (ofJournal log level journal failure).stdout =
      (StandardOutput.empty.emitAll log level journal).delivered.toList := by
  cases failure <;> rfl

end Fields

/-- What is left of an invocation whose arguments ask for a program to be run. -/
theorem ofArguments_of_run {frontend : Frontend} {arguments : List String} {options : Options}
    (asked : frontend.request arguments = .run options) (directory : Directory)
    (input : List UInt8) :
    ofArguments frontend arguments directory input =
      ofOptions frontend.log options (directory.read options.file) input := by
  rw [ofArguments, asked, answer]

theorem ofArguments_standard (time : String) (arguments : List String) (directory : Directory)
    (input : List UInt8) :
    ofArguments (.standard time) arguments directory input =
      ofRequest (Request.ofArguments arguments) directory input time :=
  rfl

/-- Without a log, standard output is everything that was written. -/
theorem stdout_of_quiet {options : Options} (quiet : options.verbosity = 0) (log : Log)
    (content : Except ReadFailure (List UInt8)) (input : List UInt8) :
    (ofOptions log options content input).stdout =
      (Course.ofOptions options content input).journal.written := by
  rw [ofOptions_eq, stdout_ofJournal, options.level_of_quiet quiet,
    StandardOutput.delivered_of_inStep (Course.inStep_ofOptions options content input)]

/-- Without a log, standard error tells the failure and nothing else. -/
theorem stderr_of_quiet {options : Options} (quiet : options.verbosity = 0) (log : Log)
    (content : Except ReadFailure (List UInt8)) (input : List UInt8) :
    (ofOptions log options content input).stderr =
      (Course.ofOptions options content input).failure.elim "" failureText := by
  rw [ofOptions_eq, stderr_ofJournal, options.level_of_quiet quiet, Log.stderr_warn,
    String.empty_append]

end Report

end Guu.CommandLine
