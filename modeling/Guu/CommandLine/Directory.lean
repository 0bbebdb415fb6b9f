import Guu.Text.Utf8

/-!
# Directories

A directory holds files and no further directories.  A path is followed from
component to component; what lies above the directory is a place in which no
name is known.
-/

namespace Guu.CommandLine

inductive ReadFailure where
  | notFound
  | notDirectory
  | isDirectory
  | nameTooLong
  | undecodable
  | other (reason : String)
deriving DecidableEq, Repr

namespace ReadFailure

def message : ReadFailure → String
  | notFound => "No such file or directory (os error 2)"
  | notDirectory => "Not a directory (os error 20)"
  | isDirectory => "Is a directory (os error 21)"
  | nameTooLong => "File name too long (os error 36)"
  | undecodable => "stream did not contain valid UTF-8"
  | other reason => reason

end ReadFailure

/-- The files of a directory with their contents. -/
structure Directory where
  files : List (String × List UInt8)
deriving DecidableEq, Repr

namespace Directory

inductive Place where
  | directory (files : List (String × List UInt8))
  | file (content : List UInt8)
deriving DecidableEq, Repr

def longestName : Nat :=
  255

def longestPath : Nat :=
  4095

def components : List Char → List (List Char)
  | [] => [[]]
  | character :: rest =>
      match components rest with
      | [] => [[character]]
      | first :: others =>
          if character = '/' then [] :: first :: others else (character :: first) :: others

def above : Place :=
  .directory []

def enter (component : String) : Place → Except ReadFailure Place
  | .file _ => .error .notDirectory
  | .directory files =>
      if component = "" ∨ component = "." then .ok (.directory files)
      else if component = ".." then .ok above
      else if longestName < component.utf8ByteSize then .error .nameTooLong
      else
        match files.lookup component with
        | some content => .ok (.file content)
        | none => .error .notFound

def walk (place : Place) : List String → Except ReadFailure Place
  | [] => .ok place
  | component :: rest => (enter component place).bind (walk · rest)

def resolve (directory : Directory) (path : String) : Except ReadFailure Place :=
  if longestPath < path.utf8ByteSize then .error .nameTooLong
  else
    let start := if path.toList.head? = some '/' then above else .directory directory.files
    walk start ((components path.toList).map String.ofList)

def read (directory : Directory) (path : String) : Except ReadFailure (List UInt8) :=
  match directory.resolve path with
  | .error failure => .error failure
  | .ok (.directory _) => .error .isDirectory
  | .ok (.file content) => .ok content

end Directory

end Guu.CommandLine
