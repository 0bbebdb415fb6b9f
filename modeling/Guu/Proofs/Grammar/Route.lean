import Guu.Tree.Parser

/-!
# Routes

A parser that has one scanner and one token keeps a stop: the token, and the
cursor of the scanner behind it.  Taking a token scans the next one at the
cursor.  Going back puts an earlier cursor and an earlier token in their places,
one after the other.  A route is a part of such a parser, and it records every
stop that it comes to, once both are in their places.  Its loops end when they
have made a number of turns, so that it takes a proof to know that they end
before.
-/

namespace Guu

/-- What a parser keeps: the token that it holds, and the cursor of its scanner. -/
structure Stop where
  token : Token
  cursor : Cursor
deriving DecidableEq, Repr

inductive Halt where
  | failed (error : SyntaxError)
  | exhausted
deriving DecidableEq, Repr

/-- What following a route leads to: what is found, the last stop, and all stops on the way. -/
structure Tour (α : Type) where
  result : Except Halt (Option α)
  stop : Stop
  stops : List Stop

def Tour.behind {α : Type} (stops : List Stop) (tour : Tour α) : Tour α :=
  { tour with stops := stops ++ tour.stops }

/-- A route accepts with a value, rejects, or halts, and has left one stop for another. -/
def Route (α : Type) : Type :=
  Stop → Tour α

namespace Route

variable {α β : Type}

def accept (value : α) : Route α :=
  fun stop => ⟨.ok (some value), stop, []⟩

def reject : Route α :=
  fun stop => ⟨.ok none, stop, []⟩

def halt (halt : Halt) : Route α :=
  fun stop => ⟨.error halt, stop, []⟩

def unexpected : Route α :=
  fun stop => ⟨.error (.failed (.unexpected stop.token)), stop, []⟩

def either (first : Route α) (next : α → Route β) (other : Route β) : Route β :=
  fun stop =>
    let tour := first stop
    match tour.result with
    | .error halt => ⟨.error halt, tour.stop, tour.stops⟩
    | .ok none => (other tour.stop).behind tour.stops
    | .ok (some value) => (next value tour.stop).behind tour.stops

def andThen (first : Route α) (next : α → Route β) : Route β :=
  either first next reject

instance : Monad Route where
  pure := accept
  bind := andThen

/-- Follow a route, and if it rejects, put back the cursor and then the token. -/
def attempt (route : Route α) : Route α :=
  fun stop =>
    let tour := route stop
    match tour.result with
    | .ok none =>
        let rewound := { tour.stop with cursor := stop.cursor }
        let restored := { rewound with token := stop.token }
        ⟨.ok none, restored, tour.stops ++ [restored]⟩
    | _ => tour

/-- Attempt routes until one accepts.  If none does, the token that is held is unexpected. -/
def firstOf : List (Route α) → Route α
  | [] => unexpected
  | route :: others => either route.attempt accept (firstOf others)

section Source

variable (source : String)

/-- Take a token of a given kind: scan the next one at the cursor, and hold that one instead. -/
def eat (kind : Token.Kind) : Route Token :=
  fun stop =>
    if stop.token.kind = kind then
      match (Scanner.resume source stop.cursor).next with
      | .error error => ⟨.error (.failed (.unreadable error)), stop, []⟩
      | .ok (token, behind) =>
          let moved := ⟨token, behind.cursor⟩
          ⟨.ok (some stop.token), moved, [moved]⟩
    else ⟨.ok none, stop, []⟩

/-! ## Commands -/

def sign : Route Bool :=
  either (eat source .plus) (fun _ => accept false)
    (either (eat source .minus) (fun _ => accept true) (accept false))

def literalOf (negative : Bool) (digits : Token) : Route Operand :=
  match Text.Decimal.word? (Text.Decimal.signed negative digits.text.toList) with
  | some value => accept (.literal value)
  | none =>
      halt (.failed
        (.literalTooLarge ((if negative then "-" else "") ++ digits.text) digits.line))

def literal : Route Operand := do
  let negative ← sign source
  let digits ← eat source .number
  literalOf negative digits

def operand : Route Operand :=
  either (eat source .identifier) (fun name => accept (.variable name.text)) (literal source)

def print : Route Tree := do
  let keyword ← eat source .print
  let _ ← eat source .space
  let value ← operand source
  return .unary .print (.operand value) keyword.line

def call : Route Tree := do
  let keyword ← eat source .call
  let _ ← eat source .space
  let name ← eat source .identifier
  return .unary .call (.operand (.variable name.text)) keyword.line

def set : Route Tree := do
  let keyword ← eat source .set
  let _ ← eat source .space
  let name ← eat source .identifier
  let _ ← eat source .space
  let value ← operand source
  return .binary .set (.operand (.variable name.text)) (.operand value) keyword.line

def sub : Route Tree := do
  let keyword ← eat source .sub
  let _ ← eat source .space
  let name ← eat source .identifier
  return .procedure name.text keyword.line

def commands : List (Route Tree) :=
  [print source, call source, set source, sub source]

/-! ## Loops -/

/-- Take every token of a kind that is held, in some turns at most, and count them. -/
def skip (kind : Token.Kind) : Nat → Route Nat
  | 0 => halt .exhausted
  | turns + 1 =>
      either (eat source kind)
        (fun _ => do
          let count ← skip kind turns
          return count + 1)
        (accept 0)

def statement (turns : Nat) : Route Tree := do
  let _ ← skip source .space turns
  let tree ← firstOf (commands source)
  let _ ← skip source .space turns
  return tree

def lineEnd (breaks : Nat) : Route Unit :=
  fun stop =>
    if breaks = 0 ∧ stop.token.kind ≠ .endOfInput then unexpected stop else accept () stop

def line (turns : Nat) : Route Tree := do
  let tree ← statement source turns
  let breaks ← skip source .newline turns
  lineEnd breaks
  return tree

def statements (turns : Nat) : Nat → Route (List Tree)
  | 0 => halt .exhausted
  | left + 1 => fun stop =>
      if stop.token.kind = .endOfInput then accept [] stop
      else andThen (line source turns)
        (fun tree => do
          let rest ← statements turns left
          return tree :: rest)
        stop

def program (turns : Nat) : Route (List Tree) := do
  let _ ← skip source .newline turns
  statements source turns turns

end Source

end Route

/-- What reading a program from its front leads to, and all stops on the way. -/
structure Passage where
  result : Except Halt Parsed
  stops : List Stop

def Passage.ofTour (first : Stop) (tour : Tour (List Tree)) : Passage where
  result :=
    match tour.result with
    | .error halt => .error halt
    | .ok none => .error (.failed (.unexpected first.token))
    | .ok (some statements) => .ok ⟨statements, tour.stop.cursor.line⟩
  stops := first :: tour.stops

def Passage.ofSource (source : String) (turns : Nat) : Passage :=
  match (Scanner.ofSource source).next with
  | .error error => ⟨.error (.failed (.unreadable error)), []⟩
  | .ok (token, behind) =>
      let first : Stop := ⟨token, behind.cursor⟩
      ofTour first (Route.program source turns first)

end Guu
