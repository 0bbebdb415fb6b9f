import Guu.Debugger.Command
import Guu.Debugger.InputLine
import Guu.Machine.Report
import Guu.Machine.Run
import Guu.Text.Blank

/-!
# Debugger sessions

A session drives a machine by commands.  In front of every line of input it
writes a prompt to the console.  A blank line repeats the last command that was
recognised.  What the program printed is flushed behind every command that
executes statements, before the session writes to the console again, so that
the two streams are interleaved in the order in which things happened.
-/

namespace Guu.Debugger

/-- A machine under the debugger, the console, and the command that a blank line repeats. -/
structure Session where
  machine : Machine
  console : Sink
  last : Option Command
deriving DecidableEq, Repr

/-- What ends a session.  Closing it is an end like every other, but not an error. -/
inductive SessionEnd where
  | closed
  | execution (error : RuntimeError)
  | stream (error : StreamError)
deriving DecidableEq, Repr

namespace SessionEnd

def message? : SessionEnd → Option String
  | closed => none
  | execution error => some error.message
  | stream error => some error.message

end SessionEnd

abbrev SessionOutcome : Type :=
  Outcome Session SessionEnd

namespace Session

def ofMachine (machine : Machine) (console : Sink) : Session :=
  ⟨machine, console, none⟩

def say (text : String) (session : Session) : SessionOutcome :=
  let written := session.console.write (Text.Utf8.bytes text)
  let event := Event.wrote .console written.taken
  let session := { session with console := written.sink }
  if written.complete then .after [event] session
  else .failed [event] session (.stream (.write session.console.refusal))

def flushConsole (session : Session) : SessionOutcome :=
  let flushed := session.console.flush
  let session := { session with console := flushed.sink }
  match flushed.failure with
  | none => .after [.flushed .console] session
  | some kind => .failed [.flushed .console] session (.stream (.flush kind))

def flushOutput (session : Session) : SessionOutcome :=
  let flushed := session.machine.output.flush
  let session := { session with machine := { session.machine with output := flushed.sink } }
  match flushed.failure with
  | none => .after [.flushed .output] session
  | some kind => .failed [.flushed .output] session (.stream (.flush kind))

def help (session : Session) : SessionOutcome :=
  session.say (Command.summary ++ "\n")

def prompt (session : Session) : SessionOutcome :=
  (session.say "(guu) ").andThen flushConsole

def close (session : Session) : SessionOutcome :=
  .failed [.noted .sessionClosed] session .closed

def status (machine : Machine) : String :=
  match machine.control with
  | .ready => "not started\n"
  | .finished => "finished\n"
  | .running position _ =>
      s!"{machine.program.nameAt position}() at line {machine.program.lineAt position}, " ++
        s!"depth {machine.depth}\n"

/--
Execute statements, flush what they printed, and write where the machine
stands.  The output is flushed although execution failed, and when flushing
fails as well, that is what ends the session.
-/
def advance (move : Machine → MachineOutcome) (session : Session) : SessionOutcome :=
  let moved := move session.machine
  let session := { session with machine := moved.state }
  (Outcome.mk session moved.journal none).andThen fun session =>
    session.flushOutput.andThen fun session =>
      match moved.failure with
      | some error => .failed [] session (.execution error)
      | none => session.say (status session.machine)

def obey (command : Command) (session : Session) : SessionOutcome :=
  match command with
  | .step => session.advance Machine.stepInto
  | .next => session.advance Machine.stepOver
  | .continue => session.advance Machine.run
  | .inspect => session.say session.machine.variableReport
  | .backtrace => session.say session.machine.backtrace
  | .help => session.help
  | .quit => session.close

def accept (command : Command) (session : Session) : SessionOutcome :=
  { session with last := some command }.obey command

def answerText (text : String) (session : Session) : SessionOutcome :=
  let word := Text.Blank.trim text
  if word.isEmpty then
    match session.last with
    | none => .done session
    | some command => session.accept command
  else
    match Command.ofWord? word with
    | some command => session.accept command
    | none => session.say s!"unknown command '{word}', try 'h'\n"

def answer (line : InputLine) (session : Session) : SessionOutcome :=
  match line with
  | .text text => session.answerText text
  | .undecodable => .failed [] session (.stream .undecodable)

def greet (session : Session) : SessionOutcome :=
  session.help.andThen prompt

/-- Answer a line of input and ask for the next one.  Where there is no line, the session closes. -/
def reply (line : Option InputLine) (session : Session) : SessionOutcome :=
  match line with
  | some line => (session.answer line).andThen prompt
  | none => session.close

def hold (session : Session) (lines : List InputLine) : SessionOutcome :=
  (lines.foldl (fun earlier line => earlier.andThen (reply (some line))) session.greet).andThen
    (reply none)

end Session

end Guu.Debugger
