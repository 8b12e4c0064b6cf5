import FourFunction.Decimal.Basic
import FourFunction.Decimal.Numeral

/-!
# Scientific notation

A decimal with one digit before the point and, after an `e`, the power of ten that this digit
counts, as in `1.23455e-1`. A double tells its shortest decimal in this notation only: it is written
by `Decimal.scientific`, without a sign, and read back by `Decimal.ofScientific?`.
-/

namespace FourFunction

/-- The number that a text of digits writes; none for a text without digits or with any other
character. -/
def natural? (digits : Text) : Option Nat :=
  if digits ≠ [] ∧ digits.all Char.isDigit then some (Nat.ofDigitChars 10 digits 0) else none

/-- The whole number of digits that a sign may precede. -/
def integer? (text : Text) : Option Int :=
  match text with
  | '-' :: digits => (natural? digits).map Int.negOfNat
  | '+' :: digits => (natural? digits).map Int.ofNat
  | digits => (natural? digits).map Int.ofNat

/-- The whole number of a text, if it fits in 64 bits. -/
def int64? (text : Text) : Option Int :=
  (integer? text).filter fun n => Int64.minValue.toInt ≤ n ∧ n ≤ Int64.maxValue.toInt

namespace Decimal

/-- The exponent of the leading digit of a decimal. -/
def leadingPlace (d : Decimal) : Int :=
  d.exponent + ((Nat.toDigits 10 d.coefficient.natAbs).length - 1 : Nat)

/-- The size of a decimal in scientific notation, without zeros at the end of the digits after the
point. -/
def scientific (d : Decimal) : Text :=
  let digits := Nat.toDigits 10 d.coefficient.natAbs
  digits.take 1 ++ Numeral.pointed (trimEnd '0' (digits.drop 1)) ++
    'e' :: Numeral.fixed 0 d.leadingPlace

/-- Reads a decimal in scientific notation: what stands before and after the `e`, then before and
after the point, if there is one. Each digit after the point lowers the exponent by one. -/
def ofScientific? (text : Text) : Option Decimal := do
  let (mantissa, place) ← splitOnce? 'e' text
  let place ← int64? place
  let (whole, fraction) := (splitOnce? '.' mantissa).getD (mantissa, [])
  let coefficient ← integer? (whole ++ fraction)
  return ⟨coefficient, place - fraction.length⟩

end Decimal

end FourFunction
