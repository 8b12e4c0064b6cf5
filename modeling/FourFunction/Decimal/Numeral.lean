import FourFunction.Text

/-!
# Numerals

The canonical numeral of a decimal fraction: digits with no superfluous leading zero, and a point
only where a fraction follows, whose last digit is not zero. Zero is written `0`, without a sign.

A fraction is shown by writing all its places (`fixed`) and taking away the zeros at the end
(`trimZeros`). What is left is the canonical numeral, which `ofScaled` writes digit by digit.
-/

namespace FourFunction.Numeral

/-- The decimal fraction `scaled / 10 ^ places` with all its places, so that the fraction is padded
with zeros in front. Without places there is no point. -/
def fixed (places : Nat) (scaled : Int) : Text :=
  let size := scaled.natAbs
  let sign := if scaled < 0 then ['-'] else []
  let whole := Nat.toDigits 10 (size / Nat.pow 10 places)
  let fraction := List.leftpad places '0' (Nat.toDigits 10 (size % Nat.pow 10 places))
  sign ++ whole ++ if places = 0 then [] else '.' :: fraction

/-- A numeral without the zeros at the end of its fraction, and without the point if nothing is left
after it. -/
def trimZeros (numeral : Text) : Text :=
  if numeral.contains '.' then trimEnd '.' (trimEnd '0' numeral) else numeral

/-- The digits of the fraction `rest / 10 ^ places` after the point, without trailing zeros. -/
def fractionDigits : Nat → Nat → Text
  | 0, _ => []
  | places + 1, rest =>
    if rest = 0 then []
    else
      Nat.digitChar (rest / Nat.pow 10 places) ::
        fractionDigits places (rest % Nat.pow 10 places)

/-- A fraction as it follows the whole part: nothing, or a point and digits. -/
def pointed : Text → Text
  | [] => []
  | digits => '.' :: digits

/-- The canonical numeral of `scaled / 10 ^ places`. -/
def ofScaled (places : Nat) (scaled : Int) : Text :=
  let size := scaled.natAbs
  let sign := if scaled < 0 then ['-'] else []
  sign ++ Nat.toDigits 10 (size / Nat.pow 10 places) ++
    pointed (fractionDigits places (size % Nat.pow 10 places))

/-- Nothing is left to write of a fraction of zero. -/
@[simp]
theorem fractionDigits_zero (places : Nat) : fractionDigits places 0 = [] := by
  cases places <;> rfl

end FourFunction.Numeral
