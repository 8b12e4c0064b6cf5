/-!
# Decimals

A decimal is a whole number times a power of ten. Two decimals may have one value: `12` is also
`120` tenths. What counts here is the value, `Decimal.toRat`.
-/

namespace FourFunction

/-- The power of ten with the exponent `p`, which may be negative. -/
def tenPow : Int → Rat
  | .ofNat n => (Nat.pow 10 n : Nat)
  | .negSucc n => mkRat 1 (Nat.pow 10 (n + 1))

/-- The decimal `coefficient * 10 ^ exponent`. -/
structure Decimal where
  /-- The digits, with the sign. -/
  coefficient : Int
  /-- The power of ten that they count. -/
  exponent : Int
deriving DecidableEq, Repr

namespace Decimal

/-- The exact value of a decimal: a whole number if the exponent is not negative, else a fraction
over a power of ten. -/
def toRat (d : Decimal) : Rat :=
  if 0 ≤ d.exponent then (d.coefficient * (Nat.pow 10 d.exponent.toNat : Nat) : Int)
  else mkRat d.coefficient (Nat.pow 10 d.exponent.natAbs)

instance : Neg Decimal := ⟨fun d => ⟨-d.coefficient, d.exponent⟩⟩

@[simp]
theorem coefficient_neg (d : Decimal) : (-d).coefficient = -d.coefficient := rfl

@[simp]
theorem exponent_neg (d : Decimal) : (-d).exponent = d.exponent := rfl

/-- The value of the opposite decimal is the opposite value. -/
@[simp]
theorem toRat_neg (d : Decimal) : (-d).toRat = -d.toRat := by
  simp only [toRat, coefficient_neg, exponent_neg]
  split
  · rw [Int.neg_mul, Rat.intCast_neg]
  · rw [Rat.neg_mkRat]

end Decimal

end FourFunction
