import Guu.Text.Utf8

/-!
# Lines of input

The debugger reads its input line by line.  A line ends at a line feed, or at
the end of the input if there is something behind the last line feed.  One
carriage return in front of a line feed belongs to the line break.  A line
whose bytes encode no text cannot be read.
-/

namespace Guu.Debugger

inductive InputLine where
  | text (text : String)
  | undecodable
deriving DecidableEq, Repr

namespace InputLine

def ofBytes (bytes : List UInt8) : InputLine :=
  match Text.Utf8.decode? bytes with
  | some decoded => text decoded
  | none => undecodable

def lineFeed : UInt8 :=
  10

def carriageReturn : UInt8 :=
  13

/-- A line without the carriage return at its end, both lines reversed. -/
def withoutReturn : List UInt8 → List UInt8
  | [] => []
  | last :: earlier => if last = carriageReturn then earlier else last :: earlier

/-- The bytes of each line of some input, given the reversed beginning of the first line. -/
def splitBehind (reversed : List UInt8) : List UInt8 → List (List UInt8)
  | [] => if reversed = [] then [] else [reversed.reverse]
  | byte :: rest =>
      if byte = lineFeed then (withoutReturn reversed).reverse :: splitBehind [] rest
      else splitBehind (byte :: reversed) rest

def split (bytes : List UInt8) : List (List UInt8) :=
  splitBehind [] bytes

def lines (bytes : List UInt8) : List InputLine :=
  (split bytes).map ofBytes

end InputLine

end Guu.Debugger
