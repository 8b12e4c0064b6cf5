import FourFunction.Proofs.Binary64.Nearest
import FourFunction.Proofs.Decimal.Numeral
import FourFunction.Proofs.Expression.Value

/-!
# Reading a canonical numeral

A canonical numeral is an expression: one factor, with a minus sign in front or with none. Its value
is the double that its size is rounded to, added to positive zero or subtracted from it, so that
zero comes out without a sign.

## Main results

* `valueOf_signs_factor`: the value of a factor with signs in front;
* `valueOf_numeral`: the value of a numeral that does not overflow.
-/

namespace FourFunction

namespace Binary64

/-- Only zero has the value zero, whatever the sign. -/
theorem signedRat_eq_zero_iff {negative : Bool} {m : Magnitude} :
    signedRat negative m = 0 ↔ m = .zero := by
  rw [← Magnitude.toRat_eq_zero_iff, signedRat]
  split
  · exact neg_eq_zero
  · rfl

theorem abs_signedRat (negative : Bool) (m : Magnitude) : (signedRat negative m).abs = m.toRat := by
  rw [signedRat]
  split
  · rw [Rat.abs_neg, Rat.abs_of_nonneg m.toRat_nonneg]
  · exact Rat.abs_of_nonneg m.toRat_nonneg

/-- A number other than zero is negative if its sign is. -/
theorem signedRat_neg_iff {negative : Bool} {m : Magnitude} (hm : m ≠ .zero) :
    signedRat negative m < 0 ↔ negative = true := by
  have hpos := Magnitude.toRat_pos hm
  cases negative
  · simpa [signedRat] using hpos.le
  · simpa [signedRat] using hpos

/-- Added to positive zero, a finite double stays as it is, but for the sign of zero. -/
theorem zero_add_finite (negative : Bool) (m : Magnitude) :
    zero + finite negative m = finite (negative && decide (m ≠ .zero)) m := by
  have hzero : signedRat false .zero + signedRat negative m = signedRat negative m := by
    rw [signedRat_eq_zero_iff.2 rfl, zero_add]
  show add (finite false .zero) (finite negative m) = _
  rw [add, hzero, abs_signedRat, round_toRat]
  by_cases hm : m = .zero
  -- a sum of zeros is negative only if both are
  · rw [if_pos (signedRat_eq_zero_iff.2 hm)]
    simp [hm]
  · rw [if_neg (mt signedRat_eq_zero_iff.1 hm)]
    simp [signedRat_neg_iff hm, hm]

/-- Zero minus a finite double is that double with the other sign, and positive zero for both zeros.
-/
theorem zero_sub_finite (negative : Bool) (m : Magnitude) :
    zero - finite negative m = finite (!negative && decide (m ≠ .zero)) m := by
  have hneg : -finite negative m = finite (!negative) m := rfl
  rw [sub_eq_add_neg, hneg, zero_add_finite]

end Binary64

theorem Product.applySteps_nil (x : Binary64) : Product.applySteps x [] = x := rfl

/-- A factor alone, with signs in front, is added or subtracted as the last of them says. -/
theorem Sum.value_factor (lead : List Sign) (f : Factor) : (Sum.mk lead ⟨f, []⟩ [] []).value =
    (lead.getLast?.getD .plus).eval Binary64.zero f.double := by
  rw [Sum.value, List.foldl_nil, Product.value, Product.applySteps_nil]

/-- A factor with signs in front is read as the double that it is rounded to, with the last of the
signs unless that is zero. -/
theorem valueOf_signs_factor (lead : List Sign) (f : Factor) {m : Magnitude}
    (h : Magnitude.ofRat? f.value = some m) :
    valueOf (Sum.mk lead ⟨f, []⟩ [] []).text =
      .ok (.finite (decide (lead.getLast? = some .minus) && decide (m ≠ .zero)) m) := by
  have hdouble : f.double = .finite false m := Binary64.round_eq_finite_iff.2 h
  have hvalue : (Sum.mk lead ⟨f, []⟩ [] []).value =
      .finite (decide (lead.getLast? = some .minus) && decide (m ≠ .zero)) m := by
    rw [Sum.value_factor, hdouble]
    rcases lead.getLast? with _ | _ | _
    · exact Binary64.zero_add_finite false m
    · exact Binary64.zero_add_finite false m
    · exact Binary64.zero_sub_finite false m
  have hdivisors : (Sum.mk lead ⟨f, []⟩ [] []).NoZeroDivisor :=
    ⟨by simp [Product.NoZeroDivisor], by simp⟩
  rw [valueOf_sum _ hdivisors, hvalue]
  rfl

namespace CanonicalNumeral

/-- The numeral without its sign, as a factor. -/
def factor (c : CanonicalNumeral) : Factor where
  whole := c.whole
  fraction := if c.fraction = [] then none else some c.fraction
  allDigits_whole := c.wholeDigits.digits
  allDigits_fraction digits h := by
    split at h
    · cases h
    · cases h
      exact c.allDigits_fraction
  ne_nil := List.append_ne_nil_of_left_ne_nil c.wholeDigits.ne_nil _

/-- The numeral as an expression. -/
def sum (c : CanonicalNumeral) : Sum where
  lead := if c.negative then [.minus] else []
  first := ⟨c.factor, []⟩
  rest := []
  trailing := []

/-- A numeral stands behind a minus sign exactly if it is negative. -/
theorem getLast?_lead (c : CanonicalNumeral) :
    decide (c.sum.lead.getLast? = some .minus) = c.negative := by
  obtain ⟨negative⟩ := c
  cases negative <;> rfl

/-- The factor of a numeral is worth its size. -/
theorem value_factor (c : CanonicalNumeral) : c.factor.value = c.size := by
  have hfraction : c.factor.fraction.getD [] = c.fraction := by
    show (if c.fraction = [] then none else some c.fraction).getD [] = c.fraction
    split
    · next h => rw [h, Option.getD_none]
    · rfl
  rw [Factor.value, hfraction, size, digitsValue_append]
  push_cast
  rw [add_div, mul_div_cancel_right₀ _ (by positivity)]
  rfl

/-- A numeral is written as the sum of one factor with its sign in front. -/
theorem text_sum (c : CanonicalNumeral) : c.sum.text = c.text := by
  have hsigns : (if c.negative then [Sign.minus] else []).map Sign.symbol =
      if c.negative then ['-'] else [] := by
    split <;> rfl
  have hfraction : (if c.fraction = [] then none else some c.fraction).elim [] ('.' :: ·) =
      if c.fraction = [] then [] else '.' :: c.fraction := by
    split <;> rfl
  rw [text, ← hsigns, ← hfraction]
  simp [Sum.text, sum, Product.text, Factor.text, factor]

end CanonicalNumeral

/-- A canonical numeral is read as the double that its size is rounded to, with its sign if that is
not zero. -/
theorem valueOf_numeral {c : CanonicalNumeral} {m : Magnitude}
    (h : Magnitude.ofRat? c.size = some m) :
    valueOf c.text = .ok (.finite (c.negative && decide (m ≠ .zero)) m) := by
  have hvalue := valueOf_signs_factor c.sum.lead c.factor (c.value_factor ▸ h)
  rw [c.getLast?_lead] at hvalue
  rw [← c.text_sum]
  exact hvalue

end FourFunction
