import Guu.Text.Quoted

/-!
# Tokens

A token is a stretch of program text together with its kind and the line it
stands on.  The end of the input is a token as well: it has no text and the
last line of the program.
-/

namespace Guu

namespace Token

inductive Kind where
  | space
  | newline
  | plus
  | minus
  | number
  | identifier
  | sub
  | print
  | call
  | set
  | endOfInput
deriving DecidableEq, Repr

namespace Kind

def name : Kind → String
  | space => "Space"
  | newline => "Newline"
  | plus => "Plus"
  | minus => "Minus"
  | number => "Num"
  | identifier => "Id"
  | sub => "Sub"
  | print => "Print"
  | call => "Call"
  | set => "Set"
  | endOfInput => "End"

def keyword? : String → Option Kind
  | "sub" => some sub
  | "print" => some print
  | "call" => some call
  | "set" => some set
  | _ => none

/-- The kind of a word: a reserved word is a keyword, any other word an identifier. -/
def ofWord (word : String) : Kind :=
  (keyword? word).getD identifier

end Kind

end Token

structure Token where
  kind : Token.Kind
  text : String
  line : Nat
deriving DecidableEq, Repr

namespace Token

def endOfInput (line : Nat) : Token :=
  ⟨.endOfInput, "", line⟩

/--
The form of a token in messages.  Blanks are quoted, since most of them cannot
be told apart when they are printed as themselves.
-/
def describe (token : Token) : String :=
  match token.kind with
  | .space => token.kind.name ++ "(" ++ Text.Quoted.text token.text ++ ")"
  | .newline => token.kind.name ++ "(\\n)"
  | .endOfInput => token.kind.name
  | _ => token.kind.name ++ "(" ++ token.text ++ ")"

end Token

end Guu
