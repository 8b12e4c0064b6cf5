import FourFunction.Proofs.Expression.Grammar
import FourFunction.Proofs.Expression.Numeral

/-!
# Signs through products and quotients

Rounding treats both signs alike, and so do products and quotients: reversing the sign of the first
operand reverses the sign of the result, also where that is infinite or zero. A sum with positive
zero leaves everything as it is but for negative zero, which loses its sign.

## Main results

* `Binary64.neg_mul`, `Binary64.neg_div`: the sign of the first operand is the sign of the result;
* `Product.applySteps_neg`: the same for any number of steps;
* `Binary64.zero_add_eq_dropZeroSign`: a sum with positive zero.
-/

namespace FourFunction

namespace Binary64

/-- The double itself, but positive zero in place of negative zero. -/
def dropZeroSign : Binary64 → Binary64
  | finite negative m => finite (negative && decide (m ≠ .zero)) m
  | infinity negative => infinity negative
  | nan => nan

/-- Dropping the sign of zero keeps what is finite. -/
@[simp]
theorem isFinite_dropZeroSign (x : Binary64) : x.dropZeroSign.isFinite = x.isFinite := by
  cases x <;> rfl

/-- A sum with positive zero. -/
theorem zero_add_eq_dropZeroSign (x : Binary64) : zero + x = x.dropZeroSign := by
  cases x with
  | finite negative m => exact zero_add_finite negative m
  | infinity negative => rfl
  | nan => rfl

/-- A number of the other sign is rounded to the double of the other sign. -/
theorem round_not (negative : Bool) (size : ℚ) : round (!negative) size = -round negative size := by
  show _ = neg (round negative size)
  rw [round, round]
  cases Magnitude.ofRat? size <;> rfl

/-- The sign of a product changes with that of its first factor. -/
protected theorem neg_mul (x y : Binary64) : -x * y = -(x * y) := by
  show mul (neg x) y = neg (mul x y)
  cases x with
  | finite n a =>
    cases y with
    | finite m b =>
      rw [neg, mul, mul, Bool.not_bne]
      exact round_not _ _
    | infinity m =>
      rw [neg, mul, mul, Bool.not_bne]
      split <;> rfl
    | nan => rfl
  | infinity n =>
    rw [neg]
    cases y with
    | finite m b =>
      rw [mul, mul, Bool.not_bne]
      split <;> rfl
    | infinity m =>
      rw [mul, mul, Bool.not_bne]
      rfl
    | nan => rfl
  | nan => rfl

/-- The sign of a quotient changes with that of the dividend. -/
protected theorem neg_div (x y : Binary64) : -x / y = -(x / y) := by
  show div (neg x) y = neg (div x y)
  cases x with
  | finite n a =>
    rw [neg]
    cases y with
    | finite m b =>
      rw [div, div, Bool.not_bne, round_not]
      split
      · split <;> rfl
      · rfl
    | infinity m =>
      rw [div, div, Bool.not_bne]
      rfl
    | nan => rfl
  | infinity n =>
    rw [neg]
    cases y with
    | finite m b =>
      rw [div, div, Bool.not_bne]
      rfl
    | infinity m => rfl
    | nan => rfl
  | nan => rfl

end Binary64

/-- A factor operator keeps the sign of its first double. -/
theorem FactorOp.eval_neg (o : FactorOp) (x y : Binary64) : o.eval (-x) y = -o.eval x y := by
  cases o
  · exact Binary64.neg_mul x y
  · exact Binary64.neg_div x y

/-- Steps that start from the opposite double come to the opposite result. -/
theorem Product.applySteps_neg (x : Binary64) (steps : List (FactorOp × Factor)) :
    applySteps (-x) steps = -applySteps x steps := by
  induction steps generalizing x with
  | nil => rfl
  | cons step steps ih =>
    show applySteps (step.1.eval (-x) step.2.double) steps = _
    rw [FactorOp.eval_neg, ih]
    rfl

end FourFunction
