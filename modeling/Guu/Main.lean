import Guu.CommandLine.Invocation
import Std.Time.Format

/-!
# The program

The outermost layer: it reads the arguments, the file and the standard input,
and writes what the library says to the standard streams.  A debugger session
shows its events line by line, so that it can be held with a person.
-/

namespace Guu.CommandLine

open Debugger (InputLine Session SessionOutcome)

def currentTime : IO String := do
  let now ← Std.Time.Timestamp.now
  return (Std.Time.DateTime.ofTimestamp now .UTC).toISO8601String

def write (level : Level) (output : StandardOutput) (journal : Journal) : IO StandardOutput := do
  let log := (Frontend.standard (← currentTime)).log
  let shown := output.emitAll log level journal
  let stdout ← IO.getStdout
  stdout.write ⟨shown.delivered⟩
  stdout.flush
  IO.eprint (log.stderr level journal)
  return { shown with delivered := #[] }

/-- An error number, which some systems report as a negative word. -/
def errorNumber (code : UInt32) : Nat :=
  min code.toNat (UInt32.size - code.toNat)

def readFailure (error : IO.Error) : ReadFailure :=
  match error with
  | .noFileOrDirectory .. => .notFound
  | .inappropriateType _ code _ => if errorNumber code = 20 then .notDirectory else .isDirectory
  | .invalidArgument _ code _ =>
      if errorNumber code = 36 then .nameTooLong else .other error.toString
  | _ => .other error.toString

def readFile (file : String) : IO (Except ReadFailure (List UInt8)) := do
  try
    let content ← IO.FS.readBinFile file
    return .ok content.toList
  catch error =>
    return .error (readFailure error)

/-- The bytes of the next line of the input, together with the line feed at its end. -/
partial def readLine (input : IO.FS.Stream) (line : Array UInt8) : IO (List UInt8) := do
  let next ← input.read 1
  match next.toList with
  | [] => return line.toList
  | byte :: _ =>
      if byte = InputLine.lineFeed then return (line.push byte).toList
      else readLine input (line.push byte)

/-- Show what happened in a session, and reply to the next line unless it has ended. -/
partial def converse (level : Level) (output : StandardOutput) (outcome : SessionOutcome) :
    IO (StandardOutput × SessionOutcome) := do
  let output ← write level output outcome.journal
  let silent := { outcome with journal := #[] }
  if outcome.failure.isSome then return (output, silent)
  let line ← readLine (← IO.getStdin) #[]
  converse level output (outcome.state.reply (InputLine.lines line).head?)

def execute (options : Options) (output : StandardOutput) (machine : Machine) :
    IO (Option String) := do
  let level := options.level
  if options.debug then
    let (output, held) ← converse level output (Session.ofMachine machine {}).greet
    let executed := Executed.ofSession held
    let _ ← write level output executed.events
    return executed.failure
  else
    let executed := Executed.ofRun machine
    let _ ← write level output executed.events
    return executed.failure

def perform (options : Options) : IO UInt32 := do
  let loaded := Loaded.ofFile options (← readFile options.file)
  let output ← write options.level StandardOutput.empty loaded.journal
  let failure ← match loaded.failure, loaded.state with
    | none, .execute machine => execute options output machine
    | failure, _ => pure failure
  match failure with
  | none => return 0
  | some message =>
      IO.eprint (failureText message)
      return 1

end Guu.CommandLine

open Guu.CommandLine in
def main (arguments : List String) : IO UInt32 := do
  match Request.ofArguments arguments with
  | .answered report =>
      (← IO.getStdout).write ⟨report.stdout.toArray⟩
      IO.eprint report.stderr
      return report.status.toUInt32
  | .run options => perform options
