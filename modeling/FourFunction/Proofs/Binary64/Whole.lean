import FourFunction.Binary64.Arithmetic
import FourFunction.Proofs.Decimal.Faithful
import Mathlib.Data.Int.Order.Basic

/-!
# Whole numbers in doubles

Every whole number up to `2 ^ 53` in size is the value of a double. A sum, a difference, a product
or a quotient of doubles that comes to such a number is therefore not rounded: the operation gives
its exact result.

## Main results

* `Magnitude.exists_toRat_eq_natCast`: whole numbers up to `2 ^ 53` are values of doubles;
* `Binary64.Holds.add`, `Binary64.Holds.sub`, `Binary64.Holds.mul`, `Binary64.Holds.div`: the four
  operations where they stay within those numbers.
-/

namespace FourFunction

/-- A whole number of at most `2 ^ 53` in size. -/
def InExactRange (z : ℤ) : Prop := |z| ≤ 2 ^ 53

instance : DecidablePred InExactRange := fun z => inferInstanceAs (Decidable (|z| ≤ 2 ^ 53))

/-- A whole number in the range is at most the largest that doubles hold without gaps. -/
theorem InExactRange.natAbs_le {z : ℤ} (h : InExactRange z) : z.natAbs ≤ 2 ^ 53 := by
  rw [InExactRange, Int.abs_eq_natAbs] at h
  exact_mod_cast h

namespace Magnitude

variable {n : ℕ}

/-- A significand of up to two binades with any exponent is on the endless list of magnitudes: while
it is less than one binade, doubling it takes one from the exponent. -/
theorem exists_unitsAt_eq (exponent : ℕ) (hn : n ≤ 2 * binade) :
    ∃ index, unitsAt index = n * 2 ^ exponent := by
  induction exponent generalizing n with
  | zero => exact ⟨0 * binade + n, unitsAt_add_mul_binade (Or.inl rfl) hn⟩
  | succ exponent ih =>
    rcases Nat.lt_or_ge n binade with hlt | hge
    · obtain ⟨index, hindex⟩ := ih (n := n * 2) (by omega)
      exact ⟨index, by rw [hindex, Nat.pow_succ, Nat.mul_comm (2 ^ exponent), Nat.mul_assoc]⟩
    · exact ⟨_, unitsAt_add_mul_binade (Or.inr hge) hn⟩

/-- Whole numbers up to `2 ^ 53` are values of doubles. -/
theorem exists_toRat_eq_natCast (hn : n ≤ 2 ^ 53) : ∃ m : Magnitude, m.toRat = n := by
  have hbinade : 2 * binade = 2 ^ 53 := by
    rw [binade_eq]
    norm_num
  obtain ⟨index, hindex⟩ := exists_unitsAt_eq 1074 (hn.trans hbinade.ge)
  have hvalue : (n : ℚ) * unitsPerOne = unitsAt index := by
    rw [hindex, unitsPerOne_cast, Nat.cast_mul, Nat.cast_pow, Nat.cast_ofNat]
  obtain ⟨m, hm, -⟩ := exists_reads_of_le (q := n) (k := 53) (Nat.cast_nonneg n)
    (by exact_mod_cast hn) (by norm_num)
  refine ⟨m, ?_⟩
  rw [nearestIndex_of_mul_eq hvalue] at hm
  rw [← mul_left_inj' unitsPerOne_pos.ne', toRat_mul_unitsPerOne, hvalue, hm]
  rfl

end Magnitude

namespace Binary64

variable {x y : Binary64} {negative : Bool} {q size : ℚ} {a b z : ℤ}

/-- The double is exactly the whole number, which is one of those that doubles do not leave out. -/
structure Holds (x : Binary64) (z : ℤ) : Prop where
  value : x.toRat? = some (z : ℚ)
  inExactRange : InExactRange z

/-- Only finite doubles have an exact value. -/
theorem toRat?_eq_some_iff :
    x.toRat? = some q ↔ ∃ negative m, x = finite negative m ∧ signedRat negative m = q := by
  cases x <;> simp [toRat?]

/-- Rounding gives whole numbers exactly, whatever their sign. -/
theorem holds_round (hsize : 0 ≤ size) (hz : InExactRange z)
    (h : (if negative then -size else size) = z) : (round negative size).Holds z := by
  have habs : size = (z.natAbs : ℚ) := by
    rw [Nat.cast_natAbs, Int.cast_abs, ← h]
    split
    · rw [abs_neg, abs_of_nonneg hsize]
    · rw [abs_of_nonneg hsize]
  obtain ⟨m, hm⟩ := Magnitude.exists_toRat_eq_natCast hz.natAbs_le
  rw [← habs] at hm
  rw [← hm] at h
  refine ⟨?_, hz⟩
  rw [← hm, round_toRat, ← h]
  rfl

namespace Holds

theorem exists_finite (h : x.Holds z) :
    ∃ negative m, x = finite negative m ∧ signedRat negative m = z :=
  toRat?_eq_some_iff.1 h.value

theorem isFinite (h : x.Holds z) : x.isFinite = true := by
  obtain ⟨negative, m, rfl, -⟩ := h.exists_finite
  rfl

/-- A number that is not zero is not held by a zero. -/
theorem isZero_eq_false (h : x.Holds z) (hz : z ≠ 0) : x.isZero = false := by
  obtain ⟨negative, m, rfl, hm⟩ := h.exists_finite
  have hne : m ≠ .zero := by
    rintro rfl
    rw [signedRat, Magnitude.toRat_eq_zero_iff.2 rfl, Rat.neg_zero, ite_self] at hm
    exact hz (by exact_mod_cast hm.symm)
  simpa [isZero] using hne

section Operations

variable (hx : x.Holds a) (hy : y.Holds b)
include hx hy

/-- A sum in the range is exact. -/
theorem add (h : InExactRange (a + b)) : (x + y).Holds (a + b) := by
  obtain ⟨n, k, rfl, hxa⟩ := hx.exists_finite
  obtain ⟨m, l, rfl, hyb⟩ := hy.exists_finite
  refine holds_round Rat.abs_nonneg h ?_
  rw [hxa, hyb, ← Int.cast_add]
  generalize ((a + b : ℤ) : ℚ) = sum
  -- the sign of the result is that of the sum, unless that is zero
  rcases lt_trichotomy sum 0 with hneg | rfl | hpos
  · rw [if_neg hneg.ne, if_pos (by simpa using hneg), Rat.abs_of_nonpos hneg.le, Rat.neg_neg]
  · simp
  · rw [if_neg hpos.ne', if_neg (by simpa using hpos.le), Rat.abs_of_nonneg hpos.le]

theorem sub (h : InExactRange (a - b)) : (x - y).Holds (a - b) := by
  have hneg : (-y).Holds (-b) := by
    obtain ⟨m, l, rfl, hyb⟩ := hy.exists_finite
    refine ⟨toRat?_eq_some_iff.2 ⟨!m, l, rfl, ?_⟩, ?_⟩
    · rw [Int.cast_neg, ← hyb]
      cases m <;> simp [signedRat]
    · rw [InExactRange, abs_neg]
      exact hy.inExactRange
  rw [Int.sub_eq_add_neg] at h ⊢
  rw [sub_eq_add_neg]
  exact hx.add hneg h

theorem mul (h : InExactRange (a * b)) : (x * y).Holds (a * b) := by
  obtain ⟨n, k, rfl, hxa⟩ := hx.exists_finite
  obtain ⟨m, l, rfl, hyb⟩ := hy.exists_finite
  refine holds_round (mul_nonneg k.toRat_nonneg l.toRat_nonneg) h ?_
  rw [Int.cast_mul, ← hxa, ← hyb]
  cases n <;> cases m <;> simp [signedRat]

/-- A quotient without remainder. -/
theorem div (hb : b ≠ 0) (hdvd : b ∣ a) (h : InExactRange (a / b)) : (x / y).Holds (a / b) := by
  have hnonzero := hy.isZero_eq_false hb
  obtain ⟨n, k, rfl, hxa⟩ := hx.exists_finite
  obtain ⟨m, l, rfl, hyb⟩ := hy.exists_finite
  have hl : l ≠ .zero := by simpa [isZero] using hnonzero
  have hdiv : finite n k / finite m l = round (n != m) (k.toRat / l.toRat) := by
    show Binary64.div (finite n k) (finite m l) = _
    rw [Binary64.div, if_neg hl]
  rw [hdiv]
  refine holds_round (div_nonneg k.toRat_nonneg l.toRat_nonneg) h ?_
  rw [Int.cast_div hdvd (by exact_mod_cast hb), ← hxa, ← hyb]
  cases n <;> cases m <;> simp [signedRat, neg_div, div_neg]

end Operations

end Holds

end Binary64

end FourFunction
