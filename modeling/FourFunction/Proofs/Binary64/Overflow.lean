import FourFunction.Proofs.Binary64.Nearest
import FourFunction.Proofs.Expression.Grammar

/-!
# Overflow through the operations

An infinity or NaN never becomes finite again, whichever operand of a sum or of a product it is,
and whatever divides it. Only a finite double over an infinity is finite again, a zero. So overflow
of anything but a divisor can still be told from the last result.

Signs stay where they are put: products and quotients of doubles without a sign have none, and a sum
is negative zero only if both operands are.

## Main results

* `FactorOp.isFinite_eval_of_left`, `Sign.isFinite_eval_of_left`, `Sign.isFinite_eval_of_right`:
  what is not finite stays so;
* `FactorOp.nonNegative_eval`: products and quotients without signs;
* `Sign.eval_ne_negZero`: sums and differences that are not negative zero.
-/

namespace FourFunction

namespace Binary64

variable {x y : Binary64}

/-! ## Infinities and NaN -/

/-- Nothing that is added to an infinity or to NaN makes it finite. -/
theorem isFinite_add_of_left (h : x.isFinite = false) (y : Binary64) :
    (x + y).isFinite = false := by
  show (add x y).isFinite = false
  cases x with
  | finite n a => cases h
  | infinity n =>
    cases y with
    | finite m b => rfl
    | infinity m =>
      rw [add]
      split <;> rfl
    | nan => rfl
  | nan => cases y <;> rfl

/-- What is not finite stays so when it is added. -/
theorem isFinite_add_of_right (x : Binary64) (h : y.isFinite = false) :
    (x + y).isFinite = false := by
  show (add x y).isFinite = false
  cases x with
  | finite n a =>
    cases y with
    | finite m b => cases h
    | infinity m => rfl
    | nan => rfl
  | infinity n => exact isFinite_add_of_left rfl y
  | nan => exact isFinite_add_of_left rfl y

/-- Nothing that multiplies an infinity or NaN makes it finite. -/
theorem isFinite_mul_of_left (h : x.isFinite = false) (y : Binary64) :
    (x * y).isFinite = false := by
  show (mul x y).isFinite = false
  cases x with
  | finite n a => cases h
  | infinity n =>
    cases y with
    | finite m b =>
      rw [mul]
      split <;> rfl
    | infinity m => rfl
    | nan => rfl
  | nan => cases y <;> rfl

theorem isFinite_mul_of_right (x : Binary64) (h : y.isFinite = false) :
    (x * y).isFinite = false := by
  show (mul x y).isFinite = false
  cases x with
  | finite n a =>
    cases y with
    | finite m b => cases h
    | infinity m =>
      rw [mul]
      split <;> rfl
    | nan => rfl
  | infinity n => exact isFinite_mul_of_left rfl y
  | nan => exact isFinite_mul_of_left rfl y

/-- Nothing that divides an infinity or NaN makes it finite. -/
theorem isFinite_div_of_left (h : x.isFinite = false) (y : Binary64) :
    (x / y).isFinite = false := by
  show (div x y).isFinite = false
  cases x with
  | finite n a => cases h
  | infinity n => cases y <;> rfl
  | nan => cases y <;> rfl

/-! ## Products and quotients without signs -/

/-- The double has no sign, as NaN never has. -/
inductive NonNegative : Binary64 → Prop where
  | finite (m : Magnitude) : NonNegative (.finite false m)
  | infinity : NonNegative (.infinity false)
  | nan : NonNegative .nan

/-- What is rounded without a sign is not negative. -/
theorem nonNegative_round (size : ℚ) : (round false size).NonNegative := by
  rw [round]
  cases Magnitude.ofRat? size with
  | none => exact .infinity
  | some m => exact .finite m

/-- What is rounded to no finite double is rounded to an infinity. -/
theorem round_eq_infinity {negative : Bool} {size : ℚ}
    (h : (round negative size).isFinite = false) : round negative size = .infinity negative := by
  rw [round] at *
  cases hsize : Magnitude.ofRat? size with
  | none => rfl
  | some m =>
    rw [hsize] at h
    cases h

/-- A finite double that is not negative has no sign. -/
theorem NonNegative.exists_finite (h : x.NonNegative) (hx : x.isFinite = true) :
    ∃ m, x = .finite false m := by
  cases h with
  | finite m => exact ⟨m, rfl⟩
  | infinity => cases hx
  | nan => cases hx

/-- A product of doubles without signs has none. -/
theorem NonNegative.mul (hx : x.NonNegative) (hy : y.NonNegative) : (x * y).NonNegative := by
  show (Binary64.mul x y).NonNegative
  cases hx with
  | finite a =>
    cases hy with
    | finite b => exact nonNegative_round _
    | infinity =>
      rw [Binary64.mul]
      split
      · exact .nan
      · exact .infinity
    | nan => exact .nan
  | infinity =>
    cases hy with
    | finite b =>
      rw [Binary64.mul]
      split
      · exact .nan
      · exact .infinity
    | infinity => exact .infinity
    | nan => exact .nan
  | nan => exact .nan

/-- A quotient of doubles without signs has none. -/
theorem NonNegative.div (hx : x.NonNegative) (hy : y.NonNegative) : (x / y).NonNegative := by
  show (Binary64.div x y).NonNegative
  cases hx with
  | finite a =>
    cases hy with
    | finite b =>
      rw [Binary64.div]
      split
      · split
        · exact .nan
        · exact .infinity
      · exact nonNegative_round _
    | infinity => exact .finite .zero
    | nan => exact .nan
  | infinity =>
    cases hy with
    | finite b => exact .infinity
    | infinity => exact .nan
    | nan => exact .nan
  | nan => exact .nan

/-! ## Sums that are not negative zero -/

/-- The value of a finite double is a whole number of units. -/
theorem exists_signedRat_mul_unitsPerOne (negative : Bool) (m : Magnitude) :
    ∃ units : ℤ, signedRat negative m * Magnitude.unitsPerOne = units := by
  have hunits := m.toRat_mul_unitsPerOne
  rw [signedRat]
  split
  · exact ⟨-m.units, by rw [neg_mul, hunits]; push_cast; rfl⟩
  · exact ⟨m.units, by rw [hunits]; push_cast; rfl⟩

/-- A sum of finite doubles that is not zero is one unit or more. -/
theorem one_le_abs_add_mul_unitsPerOne {n m : Bool} {a b : Magnitude}
    (h : signedRat n a + signedRat m b ≠ 0) :
    1 ≤ |signedRat n a + signedRat m b| * Magnitude.unitsPerOne := by
  obtain ⟨i, hi⟩ := exists_signedRat_mul_unitsPerOne n a
  obtain ⟨j, hj⟩ := exists_signedRat_mul_unitsPerOne m b
  have hunits : (signedRat n a + signedRat m b) * Magnitude.unitsPerOne = (i + j : ℤ) := by
    rw [add_mul, hi, hj, Int.cast_add]
  have hne : i + j ≠ 0 := by
    intro hij
    rw [hij, Int.cast_zero, mul_eq_zero] at hunits
    exact h (hunits.resolve_right Magnitude.unitsPerOne_pos.ne')
  rw [← abs_of_pos Magnitude.unitsPerOne_pos, ← abs_mul, hunits]
  exact_mod_cast Int.one_le_abs hne

/-- A number of one unit or more is not rounded to zero. -/
theorem ofRat?_ne_zero {q : ℚ} (h : 1 ≤ q * Magnitude.unitsPerOne) :
    Magnitude.ofRat? q ≠ some .zero := by
  intro hread
  have hindex : Magnitude.nearestIndex q ≤ 0 := (Magnitude.ofRat?_eq_some_iff.1 hread).le
  have hq : 0 ≤ q := by
    by_contra hneg
    have := mul_neg_of_neg_of_pos (not_le.1 hneg) Magnitude.unitsPerOne_pos
    linarith
  have hhalf : Magnitude.midpoint 0 = 1 / 2 := by
    have hone : Magnitude.unitsAt 1 = 1 := by decide
    rw [Magnitude.midpoint, Magnitude.unitsAt_zero, Nat.zero_add, hone]
    norm_num
  have hmid := h.trans (Magnitude.le_midpoint_of_nearestIndex_le hq hindex)
  rw [hhalf] at hmid
  norm_num at hmid

/-- A finite result has the sign it was rounded with and the magnitude of the size. -/
theorem eq_of_round_eq_finite {negative negative' : Bool} {q : ℚ} {m : Magnitude}
    (h : round negative q = finite negative' m) :
    negative = negative' ∧ Magnitude.ofRat? q = some m := by
  rw [round] at h
  cases hq : Magnitude.ofRat? q with
  | none =>
    rw [hq] at h
    cases h
  | some k =>
    rw [hq] at h
    cases h
    exact ⟨rfl, rfl⟩

theorem rat_abs_eq (q : ℚ) : q.abs = |q| := by
  rcases le_total 0 q with h | h
  · rw [Rat.abs_of_nonneg h, abs_of_nonneg h]
  · rw [Rat.abs_of_nonpos h, abs_of_nonpos h]

/-- A sum is negative zero only if its first operand is. -/
theorem add_ne_negZero (hx : x ≠ finite true .zero) (y : Binary64) :
    x + y ≠ finite true .zero := by
  show add x y ≠ _
  cases x with
  | finite n a =>
    cases y with
    | finite m b =>
      rw [add]
      intro h
      obtain ⟨hsign, hread⟩ := eq_of_round_eq_finite h
      by_cases hsum : signedRat n a + signedRat m b = 0
      -- both operands are negative, and so they are zeros
      · rw [if_pos hsum, Bool.and_eq_true] at hsign
        obtain ⟨rfl, rfl⟩ := hsign
        have ha := a.toRat_nonneg
        have hb := b.toRat_nonneg
        simp only [signedRat, if_true] at hsum
        have hzero : a = .zero := Magnitude.toRat_eq_zero_iff.1 (by linarith)
        exact hx (by rw [hzero])
      -- a sum that is not zero is one unit or more
      · rw [rat_abs_eq] at hread
        exact ofRat?_ne_zero (one_le_abs_add_mul_unitsPerOne hsum) hread
    | infinity m => simp [add]
    | nan => simp [add]
  | infinity n =>
    cases y with
    | finite m b => simp [add]
    | infinity m =>
      rw [add]
      split <;> simp
    | nan => simp [add]
  | nan => cases y <;> simp [add]

end Binary64

/-! ## Signs and factor operators -/

/-- A total that is not finite stays so. -/
theorem Sign.isFinite_eval_of_left {x : Binary64} (h : x.isFinite = false) (sign : Sign)
    (y : Binary64) : (sign.eval x y).isFinite = false := by
  cases sign
  · exact Binary64.isFinite_add_of_left h y
  · exact Binary64.isFinite_add_of_left h (-y)

theorem Sign.isFinite_eval_of_right {y : Binary64} (sign : Sign) (x : Binary64)
    (h : y.isFinite = false) : (sign.eval x y).isFinite = false := by
  cases sign
  · exact Binary64.isFinite_add_of_right x h
  · exact Binary64.isFinite_add_of_right x ((Binary64.isFinite_neg y).trans h)

/-- A total that is not negative zero does not become it. -/
theorem Sign.eval_ne_negZero {x : Binary64} (hx : x ≠ .finite true .zero) (sign : Sign)
    (y : Binary64) : sign.eval x y ≠ .finite true .zero := by
  cases sign
  · exact Binary64.add_ne_negZero hx y
  · exact Binary64.add_ne_negZero hx (-y)

/-- A product that is not finite stays so, also when it is divided. -/
theorem FactorOp.isFinite_eval_of_left {x : Binary64} (h : x.isFinite = false) (o : FactorOp)
    (y : Binary64) : (o.eval x y).isFinite = false := by
  cases o
  · exact Binary64.isFinite_mul_of_left h y
  · exact Binary64.isFinite_div_of_left h y

/-- Multiplying and dividing keep doubles that are not negative. -/
theorem FactorOp.nonNegative_eval {x y : Binary64} (hx : x.NonNegative) (hy : y.NonNegative)
    (o : FactorOp) : (o.eval x y).NonNegative := by
  cases o
  · exact hx.mul hy
  · exact hx.div hy

end FourFunction
