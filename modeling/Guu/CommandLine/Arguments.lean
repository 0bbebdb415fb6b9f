import Guu.CommandLine.Frontend
import Guu.Text.Utf8

/-!
# Command line arguments

Arguments are read from left to right, and the first of them that asks for help
or for the version, or that cannot be accepted, decides what happens.  This is one
reader of arguments: how it words its answers concerns nothing behind it.
-/

namespace Guu.CommandLine

def versionText : String :=
  "RustGuu 0.1.0\n"

def helpText : String :=
  "Runs a guu program: subs holding print, call and set statements, starting from `sub main`

Usage: RustGuu [OPTIONS] <FILE>

Arguments:
  <FILE>  Source file of the program

Options:
  -a, --ast         Print the syntax tree before running
  -c, --check       Stop after parsing and compiling
  -d, --debug       Step through the program interactively
  -v, --verbose...  Raise the log level; repeat for more detail
  -h, --help        Print help
  -V, --version     Print version
"

def usageText : String :=
  failureText "unusable arguments" ++ "\nFor more information, try '--help'.\n"

namespace Request

def help : Request :=
  .answered ⟨0, Text.Utf8.bytes helpText, ""⟩

def version : Request :=
  .answered ⟨0, Text.Utf8.bytes versionText, ""⟩

def usageError : Request :=
  .answered ⟨2, [], usageText⟩

end Request

inductive Flag where
  | tree
  | check
  | debug
  | verbose
  | help
  | version
deriving DecidableEq, Repr

namespace Flag

def ofLetter? : Char → Option Flag
  | 'a' => some tree
  | 'c' => some check
  | 'd' => some debug
  | 'v' => some verbose
  | 'h' => some help
  | 'V' => some version
  | _ => none

def ofName? : String → Option Flag
  | "ast" => some tree
  | "check" => some check
  | "debug" => some debug
  | "verbose" => some verbose
  | "help" => some help
  | "version" => some version
  | _ => none

end Flag

structure Draft where
  file : Option String := none
  showTree : Bool := false
  checkOnly : Bool := false
  debug : Bool := false
  verbosity : Nat := 0
deriving DecidableEq, Repr

namespace Draft

/-- Take a flag.  Only the flag for more detail may be given more than once. -/
def takeFlag (draft : Draft) : Flag → Except Request Draft
  | .tree => if draft.showTree then .error .usageError else .ok { draft with showTree := true }
  | .check => if draft.checkOnly then .error .usageError else .ok { draft with checkOnly := true }
  | .debug => if draft.debug then .error .usageError else .ok { draft with debug := true }
  | .verbose => .ok { draft with verbosity := draft.verbosity + 1 }
  | .help => .error .help
  | .version => .error .version

def takeLetters (draft : Draft) : List Char → Except Request Draft
  | [] => .ok draft
  | letter :: rest =>
      match Flag.ofLetter? letter with
      | none => .error .usageError
      | some flag => (draft.takeFlag flag).bind (takeLetters · rest)

def takeName (draft : Draft) (name : String) : Except Request Draft :=
  match Flag.ofName? name with
  | none => .error .usageError
  | some flag => draft.takeFlag flag

def takeFile (draft : Draft) (file : String) : Except Request Draft :=
  if file.isEmpty ∨ draft.file.isSome then .error .usageError
  else .ok { draft with file := some file }

def takeFiles (draft : Draft) : List String → Except Request Draft
  | [] => .ok draft
  | file :: rest => (draft.takeFile file).bind (takeFiles · rest)

/-- Take all arguments.  A single hyphen is the name of a file. -/
def takeAll (draft : Draft) : List String → Except Request Draft
  | [] => .ok draft
  | argument :: rest =>
      match argument.toList with
      | ['-', '-'] => draft.takeFiles rest
      | '-' :: '-' :: name => (draft.takeName (String.ofList name)).bind (takeAll · rest)
      | '-' :: letter :: letters => (draft.takeLetters (letter :: letters)).bind (takeAll · rest)
      | _ => (draft.takeFile argument).bind (takeAll · rest)

def request (draft : Draft) : Request :=
  match draft.file with
  | none => .usageError
  | some file =>
      .run ⟨file, draft.showTree, draft.checkOnly, draft.debug, draft.verbosity⟩

end Draft

namespace Request

def ofArguments (arguments : List String) : Request :=
  match ({} : Draft).takeAll arguments with
  | .ok draft => draft.request
  | .error request => request

end Request

def timedLine (time : String) (note : Note) : String :=
  let level := note.level.name
  let padding := String.ofList (List.replicate (5 - level.length) ' ')
  s!"{time} {level}{padding} [{note.topic.target}] {note.message}\n"

/-- The front end of the program, given the time to show in its log. -/
def Frontend.standard (time : String) : Frontend :=
  ⟨Request.ofArguments, ⟨.stdout, timedLine time⟩⟩

end Guu.CommandLine
