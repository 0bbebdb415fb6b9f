import Guu.Program.Effect

/-!
# Notes

Notes tell what the stages of a run do.  A note belongs to a topic and a level;
a reader of the log chooses how detailed the notes may be.
-/

namespace Guu

inductive Level where
  | warn
  | info
  | debug
  | trace
deriving DecidableEq, Repr

namespace Level

def name : Level → String
  | warn => "WARN"
  | info => "INFO"
  | debug => "DEBUG"
  | trace => "TRACE"

def detail : Level → Nat
  | warn => 0
  | info => 1
  | debug => 2
  | trace => 3

/-- A level shows the notes that are not more detailed than itself. -/
def shows (threshold level : Level) : Bool :=
  level.detail ≤ threshold.detail

end Level

inductive Topic where
  | program
  | parser
  | exec
  | debugger
deriving DecidableEq, Repr

inductive Note where
  | parsed (statements lines : Nat)
  | declared (name : String) (line : Nat)
  | entered
  | executing (line : Nat) (effect : Effect)
  | returning (name : String)
  | mainReturned
  | sessionClosed
  | fileParsed (file : String)
  | fileCompiled (file : String)
  | failed (backtrace : String)
deriving DecidableEq, Repr

namespace Topic

def target : Topic → String
  | program => "RustGuu"
  | parser => "RustGuu::parser"
  | exec => "RustGuu::exec"
  | debugger => "RustGuu::debugger"

end Topic

namespace Note

def level : Note → Level
  | parsed .. => .debug
  | declared .. => .debug
  | entered => .trace
  | executing .. => .trace
  | returning _ => .trace
  | mainReturned => .trace
  | sessionClosed => .info
  | fileParsed _ => .info
  | fileCompiled _ => .info
  | failed _ => .debug

def topic : Note → Topic
  | parsed .. => .parser
  | declared .. => .exec
  | entered => .exec
  | executing .. => .exec
  | returning _ => .exec
  | mainReturned => .exec
  | sessionClosed => .debugger
  | fileParsed _ => .program
  | fileCompiled _ => .program
  | failed _ => .program

def message : Note → String
  | parsed statements lines => s!"parsed {statements} statements over {lines} lines"
  | declared name line => s!"registering sub {name} from line {line}"
  | entered => s!"entering {Program.entryPoint}"
  | executing line effect => s!"line {line}: {effect.describe}"
  | returning name => s!"returning to {name}"
  | mainReturned => s!"{Program.entryPoint} returned"
  | sessionClosed => "debug session closed"
  | fileParsed file => s!"parsed {file}"
  | fileCompiled file => s!"{file} compiled without errors"
  | failed backtrace => s!"backtrace at failure:\n{backtrace}"

end Note

end Guu
