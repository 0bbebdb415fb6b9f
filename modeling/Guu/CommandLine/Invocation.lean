import Guu.CommandLine.Arguments
import Guu.CommandLine.Directory
import Guu.CommandLine.StandardOutput
import Guu.Debugger.Session
import Guu.Journal.Loading
import Guu.Tree.Layout

/-!
# Invocations

An invocation reads a file, parses and compiles it, and then runs the program
or debugs it.  Each stage has events, and the first stage that fails decides
the message and the exit status.
-/

namespace Guu.CommandLine

open Debugger (InputLine Session SessionEnd)

/-- What is left to do when a file has been loaded: nothing, or to execute a machine. -/
inductive Remaining where
  | nothing
  | execute (machine : Machine)
deriving DecidableEq, Repr

/-- What loading a file leaves.  Its failures are messages. -/
abbrev Loaded : Type :=
  Outcome Remaining String

namespace Loaded

def source (content : Except ReadFailure (List UInt8)) : Except ReadFailure String :=
  match content with
  | .error failure => .error failure
  | .ok bytes =>
      match Text.Utf8.decode? bytes with
      | some text => .ok text
      | none => .error .undecodable

def ofTree (options : Options) (tree : Tree) : Loaded :=
  let compilation := Compilation.ofTree tree
  let events := compilation.notes.map Event.noted
  match compilation.program with
  | .error error => .failed events .nothing error.message
  | .ok program =>
      if options.checkOnly then
        .after (events ++ [.noted (.fileCompiled options.file)]) .nothing
      else .after events (.execute (Machine.ofProgram program {}))

/-- The events of parsing: notes, and the layout of the tree if it is asked for. -/
def parsedEvents (options : Options) (parsed : Parsed) : List Event :=
  [.noted parsed.note, .noted (.fileParsed options.file)] ++
    if options.showTree then [.wrote .console (Text.Utf8.bytes parsed.tree.render)] else []

def ofSource (options : Options) (source : String) : Loaded :=
  match Parsed.ofSource source with
  | .error error => .failed [] .nothing error.message
  | .ok parsed =>
      (Outcome.after (parsedEvents options parsed) .nothing).andThen fun _ =>
        ofTree options parsed.tree

def ofFile (options : Options) (content : Except ReadFailure (List UInt8)) : Loaded :=
  match source content with
  | .error failure =>
      .failed [] .nothing s!"failed to read '{options.file}': {failure.message}"
  | .ok text => ofSource options text

end Loaded

abbrev Executed : Type :=
  Outcome Machine String

namespace Executed

def ofRun (machine : Machine) : Executed :=
  let ran := machine.run
  ⟨ran.state, ran.journal, ran.failure.map RuntimeError.message⟩

def ofSession (held : Debugger.SessionOutcome) : Executed :=
  ⟨held.state.machine, held.journal, held.failure.bind SessionEnd.message?⟩

def ofInput (machine : Machine) (input : List UInt8) : Executed :=
  ofSession ((Session.ofMachine machine {}).hold (InputLine.lines input))

/-- The events behind an execution: the frames at its failure, and the last flush. -/
def closing (executed : Executed) : Journal :=
  match executed.failure with
  | none => #[.flushed .output]
  | some _ => #[.noted (.failed executed.state.backtrace), .flushed .output]

def events (executed : Executed) : Journal :=
  executed.journal ++ executed.closing

end Executed

namespace Report

def ofJournal (log : Log) (level : Level) (journal : Journal) (failure : Option String) : Report :=
  let output := StandardOutput.empty.emitAll log level journal
  let logged := log.stderr level journal
  match failure with
  | none => ⟨0, output.delivered.toList, logged⟩
  | some message => ⟨1, output.delivered.toList, logged ++ failureText message⟩

def ofOptions (log : Log) (options : Options) (content : Except ReadFailure (List UInt8))
    (input : List UInt8) : Report :=
  let loaded := Loaded.ofFile options content
  match loaded.failure, loaded.state with
  | none, .execute machine =>
      let executed :=
        if options.debug then Executed.ofInput machine input else Executed.ofRun machine
      ofJournal log options.level (loaded.journal ++ executed.events) executed.failure
  | failure, _ => ofJournal log options.level loaded.journal failure

def answer (log : Log) (request : Request) (directory : Directory) (input : List UInt8) :
    Report :=
  match request with
  | .answered report => report
  | .run options => ofOptions log options (directory.read options.file) input

def ofArguments (frontend : Frontend) (arguments : List String) (directory : Directory)
    (input : List UInt8) : Report :=
  answer frontend.log (frontend.request arguments) directory input

/-- What the program leaves that has read its arguments, given the time to show in its log. -/
def ofRequest (request : Request) (directory : Directory) (input : List UInt8) (time : String) :
    Report :=
  answer (Frontend.standard time).log request directory input

end Report

end Guu.CommandLine
