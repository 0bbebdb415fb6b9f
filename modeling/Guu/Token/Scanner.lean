import Guu.Text.Blank
import Guu.Text.Utf8
import Guu.Token.Basic

/-!
# Scanning tokens

A scanner stands somewhere in a program and yields the token that starts
there.  It is a value: scanning returns the scanner behind the token, and the
old one can still be used.  Its cursor alone is enough to stand at the same
place again.
-/

namespace Guu

structure ScanError where
  character : Char
  line : Nat
deriving DecidableEq, Repr

namespace ScanError

def message (error : ScanError) : String :=
  s!"unexpected character {Text.Quoted.character error.character} on line {error.line}"

end ScanError

/-- A place in a program: the number of bytes before it and the line it is on. -/
structure Cursor where
  offset : Nat
  line : Nat
deriving DecidableEq, Repr

namespace Cursor

def start : Cursor :=
  ⟨0, 1⟩

/-- The place behind a token that starts at a given place.  A line ends with a line break only. -/
def pass (cursor : Cursor) (kind : Token.Kind) (text : List Char) : Cursor :=
  ⟨cursor.offset + (Text.Utf8.encode text).length,
    if kind = .newline then cursor.line + 1 else cursor.line⟩

end Cursor

structure Scanner where
  rest : List Char
  cursor : Cursor
deriving DecidableEq, Repr

namespace Scanner

def ofSource (source : String) : Scanner :=
  ⟨source.toList, Cursor.start⟩

def dropBytes : Nat → List Char → List Char
  | 0, text => text
  | _ + 1, [] => []
  | count + 1, character :: text => dropBytes (count + 1 - character.utf8Size) text

/-- The scanner of a program that stands at a place which an earlier scanner had. -/
def resume (source : String) (cursor : Cursor) : Scanner :=
  ⟨dropBytes cursor.offset source.toList, cursor⟩

def line (scanner : Scanner) : Nat :=
  scanner.cursor.line

/--
The kind and the text of the token that starts with a character, given the
text behind that character.  Numbers and words extend as far as they can.
-/
def lexeme? (character : Char) (following : List Char) : Option (Token.Kind × List Char) :=
  if character = '\n' then some (.newline, [character])
  else if character = '+' then some (.plus, [character])
  else if character = '-' then some (.minus, [character])
  else if Text.Blank.isBlank character then some (.space, [character])
  else if character.isDigit then
    some (.number, character :: following.takeWhile Char.isDigit)
  else if character.isAlpha then
    let word := character :: following.takeWhile Char.isAlphanum
    some (Token.Kind.ofWord (String.ofList word), word)
  else none

/-- A token is never empty. -/
theorem length_lexeme_pos {character : Char} {following : List Char} {kind : Token.Kind}
    {text : List Char} (found : lexeme? character following = some (kind, text)) :
    0 < text.length := by
  unfold lexeme? at found
  grind

def pass (scanner : Scanner) (kind : Token.Kind) (text : List Char) : Scanner :=
  ⟨scanner.rest.drop text.length, scanner.cursor.pass kind text⟩

/--
The next token and the scanner behind it.  At the end of the program the
scanner yields the end of the input again and again.
-/
def next (scanner : Scanner) : Except ScanError (Token × Scanner) :=
  match scanner.rest with
  | [] => .ok (Token.endOfInput scanner.line, scanner)
  | character :: following =>
      match lexeme? character following with
      | some (kind, text) => .ok (⟨kind, String.ofList text, scanner.line⟩, scanner.pass kind text)
      | none => .error ⟨character, scanner.line⟩

/-- Scanning a token other than the end of the input leaves less text. -/
theorem next_shortens {scanner after : Scanner} {token : Token}
    (scanned : scanner.next = .ok (token, after)) (inside : token.kind ≠ .endOfInput) :
    after.rest.length < scanner.rest.length := by
  unfold next at scanned
  split at scanned
  · cases scanned
    simp [Token.endOfInput] at inside
  · rename_i character following nonempty
    split at scanned
    · rename_i kind text found
      cases scanned
      have positive := length_lexeme_pos found
      simp [pass, nonempty]
      omega
    · cases scanned

/-- Scanning never leaves more text. -/
theorem next_keeps {scanner after : Scanner} {token : Token}
    (scanned : scanner.next = .ok (token, after)) :
    after.rest.length ≤ scanner.rest.length := by
  unfold next at scanned
  split at scanned
  · cases scanned
    exact Nat.le_refl _
  · split at scanned
    · cases scanned
      simp [pass]
    · cases scanned

/-- What repeated scanning finds: tokens, and the scanner and error that it ended with. -/
structure Scan where
  tokens : List Token
  last : Scanner
  failure : Option ScanError
deriving DecidableEq, Repr

/-- All tokens up to the end of the input, which is included, or up to the first failure. -/
def scan (scanner : Scanner) : Scan :=
  match _scanned : scanner.next with
  | .error error => ⟨[], scanner, some error⟩
  | .ok (token, after) =>
      if _inside : token.kind = .endOfInput then ⟨[token], after, none⟩
      else
        let remaining := after.scan
        { remaining with tokens := token :: remaining.tokens }
termination_by scanner.rest.length
decreasing_by exact next_shortens (by assumption) (by assumption)

end Scanner

end Guu
