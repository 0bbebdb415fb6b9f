import Guu.CommandLine.Frontend
import Guu.Text.Utf8

/-!
# Standard output

The console, what the program prints and a log that is not sent elsewhere go to
one stream.  What the program prints is held back in a buffer until the buffer is
full or flushed, and everything else is delivered at once.
-/

namespace Guu.CommandLine

/-- The bytes delivered so far and the bytes held back. -/
structure StandardOutput where
  delivered : Array UInt8
  pending : Array UInt8
deriving DecidableEq, Repr

namespace StandardOutput

def capacity : Nat :=
  8192

def empty : StandardOutput :=
  ⟨#[], #[]⟩

def deliver (bytes : List UInt8) (output : StandardOutput) : StandardOutput :=
  { output with delivered := output.delivered ++ bytes }

def hold (bytes : List UInt8) (output : StandardOutput) : StandardOutput :=
  { output with pending := output.pending ++ bytes }

def flush (output : StandardOutput) : StandardOutput :=
  ⟨output.delivered ++ output.pending, #[]⟩

/--
Hold bytes back if there is room for them.  If there is not, the buffer is
flushed first, and bytes that could not fit even then are delivered.
-/
def buffer (bytes : List UInt8) (output : StandardOutput) : StandardOutput :=
  let room := capacity - output.pending.size
  let output := if room < bytes.length then output.flush else output
  if capacity ≤ bytes.length then output.deliver bytes else output.hold bytes

/-- Emit an event.  Notes are shown as far as the level of the log allows. -/
def emit (log : Log) (level : Level) (output : StandardOutput) (event : Event) : StandardOutput :=
  match event with
  | .wrote .output bytes => output.buffer bytes
  | .wrote .console bytes => output.deliver bytes
  | .flushed .output => output.flush
  | .flushed .console => output
  | .noted note =>
      match log.destination with
      | .stderr => output
      | .stdout =>
          if level.shows note.level then output.deliver (Text.Utf8.bytes (log.line note))
          else output

def emitAll (log : Log) (level : Level) (output : StandardOutput) (journal : Journal) :
    StandardOutput :=
  journal.foldl (emit log level) output

end StandardOutput

end Guu.CommandLine
