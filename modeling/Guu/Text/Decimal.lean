/-!
# Decimal numbers

Integers are written canonically, a sign only in front of negative ones and no
leading zeros, and magnitudes are read from any run of ASCII digits.
-/

namespace Guu.Text.Decimal

def digits (magnitude : Nat) : List Char :=
  Nat.toDigits 10 magnitude

/-- The magnitude that a run of digits denotes, leading zeros allowed. -/
def magnitude (digits : List Char) : Nat :=
  Nat.ofDigitChars 10 digits 0

def sign (value : Int) : List Char :=
  if value < 0 then ['-'] else []

def render (value : Int) : String :=
  String.ofList (sign value ++ digits value.natAbs)

def signed (negative : Bool) (digits : List Char) : Int :=
  if negative then -(magnitude digits : Int) else magnitude digits

def word? (value : Int) : Option Int64 :=
  if Int64.minValue.toInt ≤ value ∧ value ≤ Int64.maxValue.toInt then some (Int64.ofInt value)
  else none

end Guu.Text.Decimal
