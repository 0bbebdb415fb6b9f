import Guu.Token.Scanner

/-!
# Reading tokens

A reader holds one token in advance of its scanner.  That token is scanned when
the token before it is taken.  Therefore a character that no token starts with
is found as soon as the token in front of it is taken, before anything else is
said about that token.
-/

namespace Guu

inductive SyntaxError where
  | unreadable (error : ScanError)
  | unexpectedToken (token : String) (line : Nat)
  | literalTooLarge (text : String) (line : Nat)
deriving DecidableEq, Repr

namespace SyntaxError

def unexpected (token : Token) : SyntaxError :=
  unexpectedToken token.describe token.line

def message : SyntaxError → String
  | unreadable error => error.message
  | unexpectedToken token line => s!"unexpected token {token} on line {line}"
  | literalTooLarge text line => s!"integer literal {text} on line {line} does not fit in 64 bits"

end SyntaxError

/-- A token together with the scanner behind it. -/
structure Reader where
  current : Token
  scanner : Scanner
deriving DecidableEq, Repr

namespace Reader

def ofScanner (scanner : Scanner) : Except SyntaxError Reader :=
  match scanner.next with
  | .error error => .error (.unreadable error)
  | .ok (token, after) => .ok ⟨token, after⟩

def ofSource (source : String) : Except SyntaxError Reader :=
  ofScanner (Scanner.ofSource source)

def AtEnd (reader : Reader) : Prop :=
  reader.current.kind = .endOfInput

instance (reader : Reader) : Decidable reader.AtEnd :=
  inferInstanceAs (Decidable (reader.current.kind = .endOfInput))

/-- A bound on the number of tokens in front of the end of the input. -/
def remaining (reader : Reader) : Nat :=
  reader.scanner.rest.length + if reader.AtEnd then 0 else 1

/-- Moving on from a token leaves less to read. -/
theorem ofScanner_remaining_lt {reader after : Reader} (inside : ¬reader.AtEnd)
    (moved : ofScanner reader.scanner = .ok after) : after.remaining < reader.remaining := by
  unfold ofScanner at moved
  split at moved
  · cases moved
  · rename_i token scanner scanned
    cases moved
    simp only [remaining, inside, if_false]
    split
    · exact Nat.lt_succ_of_le (Scanner.next_keeps scanned)
    · rename_i final
      exact Nat.succ_lt_succ (Scanner.next_shortens scanned final)

end Reader

end Guu
