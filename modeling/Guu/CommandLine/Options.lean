import Guu.Journal.Note

/-!
# Options

The arguments of an invocation ask for a program to be run in some way.  Whatever
else they ask for, or if they cannot be accepted, is answered without running
anything.
-/

namespace Guu.CommandLine

/-- What the arguments say about the program to run and how to run it. -/
structure Options where
  file : String
  showTree : Bool
  checkOnly : Bool
  debug : Bool
  verbosity : Nat
deriving DecidableEq, Repr

namespace Options

def level (options : Options) : Level :=
  match options.verbosity with
  | 0 => .warn
  | 1 => .info
  | 2 => .debug
  | _ => .trace

end Options

structure Report where
  status : Nat
  stdout : List UInt8
  stderr : String
deriving DecidableEq, Repr

def failureText (message : String) : String :=
  s!"error: {message}\n"

inductive Request where
  | answered (report : Report)
  | run (options : Options)
deriving DecidableEq, Repr

end Guu.CommandLine
