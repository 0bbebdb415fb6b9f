import Guu.CommandLine.Options
import Guu.Journal.Outcome

/-!
# The front end

The stages of an invocation do not read its arguments and do not write the log.
They are given a front end that does both.
-/

namespace Guu.CommandLine

inductive Destination where
  | stdout
  | stderr
deriving DecidableEq, Repr

structure Log where
  destination : Destination
  line : Note → String

namespace Log

def lines (log : Log) (level : Level) (journal : Journal) : List String :=
  (journal.notes.filter fun note => level.shows note.level).map log.line

def stderr (log : Log) (level : Level) (journal : Journal) : String :=
  match log.destination with
  | .stdout => ""
  | .stderr => String.join (log.lines level journal)

end Log

/-- What stands in front of the stages: a reader of arguments, and a log. -/
structure Frontend where
  request : List String → Request
  log : Log

end Guu.CommandLine
