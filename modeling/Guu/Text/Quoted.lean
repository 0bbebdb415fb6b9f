import Guu.Text.Printable

/-!
# Quoted texts

Messages show characters and texts between quotation marks.  Every character
that does not print as itself is written as an escape, so that a quoted text
always stays on one line.
-/

namespace Guu.Text.Quoted

inductive Mark where
  | single
  | double
deriving DecidableEq, Repr

namespace Mark

def character : Mark → Char
  | single => '\''
  | double => '"'

end Mark

def codePointEscape (character : Char) : List Char :=
  "\\u\x7b".toList ++ Nat.toDigits 16 character.toNat ++ ['\x7d']

def escape (mark : Mark) (character : Char) : List Char :=
  if character = '\x00' then ['\\', '0']
  else if character = '\t' then ['\\', 't']
  else if character = '\r' then ['\\', 'r']
  else if character = '\n' then ['\\', 'n']
  else if character = '\\' ∨ character = mark.character then ['\\', character]
  else if Printable.isPrintable character then [character]
  else codePointEscape character

def quote (mark : Mark) (text : List Char) : String :=
  String.ofList (mark.character :: text.flatMap (escape mark) ++ [mark.character])

def text (text : String) : String :=
  quote .double text.toList

def character (character : Char) : String :=
  quote .single [character]

end Guu.Text.Quoted
