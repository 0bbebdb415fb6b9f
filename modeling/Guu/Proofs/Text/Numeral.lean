import Guu.Text.Decimal
import Mathlib.Data.Nat.Digits.Defs

/-!
# Numerals

What a row of digits denotes is the sum of its digits, each weighted by its place.
Leading zeros do not count, so many rows denote the same number, but only one of
them has none.  That row, behind a minus sign for negative integers, is the
canonical text of an integer, and it is the one that is written.
-/

namespace Guu.Text.Decimal

def IsNumeral (digits : List Char) : Prop :=
  digits ≠ [] ∧ ∀ digit ∈ digits, digit.isDigit = true

instance (digits : List Char) : Decidable (IsNumeral digits) :=
  decidable_of_iff (digits ≠ [] ∧ digits.all Char.isDigit) (by simp [IsNumeral])

/-- The number that digits denote: each of them counts by its place. -/
def positional : List Char → Nat
  | [] => 0
  | digit :: rest => (digit.toNat - '0'.toNat) * 10 ^ rest.length + positional rest

/-- A text with a minus sign for negative integers only, and no zero that could be left out. -/
def IsCanonical (value : Int) (text : List Char) : Prop :=
  ∃ digits, text = (if value < 0 then ['-'] else []) ++ digits ∧ IsNumeral digits ∧
    (digits.head? = some '0' → digits = ['0']) ∧ positional digits = value.natAbs

/-! ## What digits denote -/

theorem ofDigitChars_eq (digits : List Char) (front : Nat) :
    Nat.ofDigitChars 10 digits front = front * 10 ^ digits.length + positional digits := by
  induction digits generalizing front with
  | nil => simp [positional]
  | cons digit rest ih =>
      rw [Nat.ofDigitChars_cons, ih, positional, List.length_cons, Nat.pow_succ]
      ring

theorem magnitude_eq_positional (digits : List Char) : magnitude digits = positional digits := by
  rw [magnitude, ofDigitChars_eq, Nat.zero_mul, Nat.zero_add]

theorem positional_digits (value : Nat) : positional (digits value) = value := by
  rw [← magnitude_eq_positional]
  exact Nat.ofDigitChars_ten_toDigits

/-! ## Numbers as they are written -/

theorem isNumeral_digits (value : Nat) : IsNumeral (digits value) :=
  ⟨Nat.toDigits_ne_nil, fun _ member =>
    Nat.isDigit_of_mem_toDigits (by decide) (by decide) member⟩

theorem head?_digits_ne_zero {value : Nat} (positive : 0 < value) :
    (digits value).head? ≠ some '0' := by
  induction value using Nat.strongRecOn with
  | ind value ih =>
      rw [digits, Nat.toDigits_eq_if (by decide)]
      split
      · simpa using Nat.ne_of_gt positive
      · rename_i further
        have shorter := ih (value / 10) (Nat.div_lt_self positive (by decide)) (by omega)
        rw [digits] at shorter
        obtain ⟨first, rest, row⟩ :=
          List.exists_cons_of_ne_nil (@Nat.toDigits_ne_nil (value / 10) 10)
        rw [row] at shorter ⊢
        exact shorter

/-- The only numeral of a number that starts with a zero is that of zero. -/
theorem digits_of_head?_zero {value : Nat} (zero : (digits value).head? = some '0') :
    digits value = ['0'] := by
  cases value with
  | zero => exact Nat.toDigits_zero 10
  | succ value => exact absurd zero (head?_digits_ne_zero (Nat.succ_pos value))

theorem digitChar_of_isDigit {digit : Char} (decimal : digit.isDigit = true) :
    digit.toNat - '0'.toNat < 10 ∧ (digit.toNat - '0'.toNat).digitChar = digit := by
  have bounds : 48 ≤ digit.toNat ∧ digit.toNat ≤ 57 := by
    simpa [Char.isDigit, UInt32.le_iff_toNat_le] using decimal
  have zero : '0'.toNat = 48 := rfl
  have small : digit.toNat - '0'.toNat < 10 := by omega
  refine ⟨small, Char.toNat_inj.mp ?_⟩
  rw [Nat.toNat_digitChar_of_lt_ten small]
  omega

/-- Further digits are written behind those of a number that is not zero. -/
theorem digits_ofDigitChars {front : Nat} (positive : 0 < front) {rest : List Char}
    (decimal : ∀ digit ∈ rest, digit.isDigit = true) :
    digits (Nat.ofDigitChars 10 rest front) = digits front ++ rest := by
  induction rest generalizing front with
  | nil => simp
  | cons digit rest ih =>
      obtain ⟨first, others⟩ := List.forall_mem_cons.mp decimal
      obtain ⟨small, spelled⟩ := digitChar_of_isDigit first
      rw [Nat.ofDigitChars_cons, ih (by omega) others, digits,
        ← Nat.toDigits_append_toDigits (by decide) positive small,
        Nat.toDigits_of_lt_base small, spelled, List.append_assoc]
      rfl

/-- A numeral without leading zeros is how its number is written. -/
theorem digits_positional {numeral : List Char} (isNumeral : IsNumeral numeral)
    (minimal : numeral.head? = some '0' → numeral = ['0']) :
    digits (positional numeral) = numeral := by
  obtain ⟨nonempty, decimal⟩ := isNumeral
  obtain ⟨digit, rest, rfl⟩ := List.exists_cons_of_ne_nil nonempty
  obtain ⟨first, others⟩ := List.forall_mem_cons.mp decimal
  obtain ⟨small, spelled⟩ := digitChar_of_isDigit first
  by_cases zero : digit = '0'
  · rw [minimal (congrArg some zero)]
    exact Nat.toDigits_zero 10
  · have positive : 0 < digit.toNat - '0'.toNat := by
      rw [Nat.pos_iff_ne_zero]
      intro none
      rw [none] at spelled
      exact zero spelled.symm
    rw [← magnitude_eq_positional, magnitude, Nat.ofDigitChars_cons, Nat.mul_zero, Nat.zero_add,
      digits_ofDigitChars positive others, digits, Nat.toDigits_of_lt_base small, spelled]
    rfl

/-- Every integer has one canonical text, and that is how it is written. -/
theorem isCanonical_iff {value : Int} {text : List Char} :
    IsCanonical value text ↔ text = (render value).toList := by
  rw [render, String.toList_ofList, sign]
  constructor
  · rintro ⟨numeral, rfl, isNumeral, minimal, denoted⟩
    rw [← denoted, digits_positional isNumeral minimal]
  · rintro rfl
    exact ⟨_, rfl, isNumeral_digits _, digits_of_head?_zero, positional_digits _⟩

end Guu.Text.Decimal
