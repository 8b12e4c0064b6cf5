import FourFunction.Proofs.Decimal.Faithful
import FourFunction.Proofs.Display
import FourFunction.Proofs.Expression.Numeral

/-!
# Reading a shown number back

What is shown of a finite double is an expression, and the double that it is read as is shown as the
same text. The two doubles may differ, since five decimals are shown at most.

Where the shortest decimal has five decimals or fewer, nothing was rounded, and the text is read as
the double itself. It always has so few from `2 ^ 36` onwards, because there every rounding interval
contains a whole number of hundred-thousandths. Below, the text is read as a double `y`, and shows
itself that `y` is read from five decimals. So the shortest decimal of `y` has no more, and no two
such numbers are near enough to be read as `y`.

## Main results

* `Magnitude.exists_shortest_eq_gridPoint`: from `2 ^ 36` onwards no decimal is lost;
* `Magnitude.gridPoint_unique_of_reads`: up to there no two numbers of five decimals are read alike;
* `Magnitude.displayScaled_shortest_of_reads`: up to there the number on the text is shown again;
* `Binary64.evaluate_display`: the double that a shown text is read as;
* `Binary64.exists_evaluate_display`: reading a shown double back and showing it changes nothing.
-/

namespace FourFunction

/-! ## Hundred-thousandths -/

section Grid

variable {q : ℚ}

theorem tenZpow_neg_five : (10 : ℚ) ^ (-5 : ℤ) = 1 / 10 ^ 5 := by norm_num

theorem displayScaled_eq (q : ℚ) : displayScaled q = nearestInt .awayFromZero (q * 10 ^ 5) := by
  have hcast : ((Nat.pow 10 displayPlaces : ℕ) : ℚ) = 10 ^ 5 := by norm_num [displayPlaces]
  rw [displayScaled, hcast]

/-- A number of hundred-thousandths is not rounded. -/
theorem displayScaled_gridPoint (k : ℕ) : displayScaled (k * 10 ^ (-5 : ℤ)) = k := by
  have hscaled : (k : ℚ) * 10 ^ (-5 : ℤ) * 10 ^ 5 = ((k : ℤ) : ℚ) := by
    rw [tenZpow_neg_five]
    push_cast
    ring
  rw [displayScaled_eq, hscaled, nearestInt_intCast]

/-- The bound of the displays that are read back is itself a number of hundred-thousandths. -/
theorem two_pow_eq_gridPoint : (2 : ℚ) ^ 36 = (2 ^ 36 * 10 ^ 5 : ℕ) * 10 ^ (-5 : ℤ) := by
  rw [tenZpow_neg_five]
  norm_num

theorem displayScaled_neg (q : ℚ) : displayScaled (-q) = -displayScaled q := by
  rw [displayScaled_eq, displayScaled_eq, neg_mul, nearestInt_awayFromZero_neg]

/-- A number that is not negative has no negative number of hundred-thousandths. -/
theorem exists_displayScaled_eq (hq : 0 ≤ q) : ∃ n : ℕ, displayScaled q = n := by
  have hnonneg : 0 ≤ displayScaled q := by
    rw [displayScaled_eq]
    exact nearestInt_nonneg _ (by positivity)
  exact ⟨(displayScaled q).toNat, (Int.toNat_of_nonneg hnonneg).symm⟩

end Grid

namespace Magnitude

variable {m : Magnitude} {j k n : ℕ}

/-! ## Nothing rounded -/

/-- From `2 ^ 36` onwards some whole number of hundred-thousandths is read as the magnitude. -/
theorem exists_gridPoint_of_le (hm : 2 ^ 36 ≤ m.toRat) :
    ∃ k : ℕ, nearestIndex (k * 10 ^ (-5 : ℤ)) = m.index := by
  rcases hm.lt_or_eq with hlt | heq
  -- above the power of two the number shown is itself near enough to be read as the magnitude
  · obtain ⟨k, hk⟩ := exists_displayScaled_eq (toRat_nonneg m)
    refine ⟨k, nearestIndex_eq_of_abs_sub_lt hlt (gridPoint_nonneg k _) ?_⟩
    -- it is half a hundred-thousandth away at most, which is less than half the spacing
    have hnear := abs_nearestInt_sub_le .awayFromZero (m.toRat * 10 ^ 5)
    rw [← displayScaled_eq, hk, abs_le] at hnear
    push_cast at hnear
    rw [tenZpow_neg_five, abs_lt]
    constructor <;> linarith
  -- the power of two is a whole number
  · refine ⟨2 ^ 36 * 10 ^ 5, ?_⟩
    rw [← two_pow_eq_gridPoint, heq, nearestIndex_toRat]

/-- From `2 ^ 36` onwards no decimal is lost. -/
theorem exists_shortest_eq_gridPoint (hm : 2 ^ 36 ≤ m.toRat) :
    ∃ j : ℕ, m.shortest.toRat = j * 10 ^ (-5 : ℤ) := by
  obtain ⟨k, hk⟩ := exists_gridPoint_of_le hm
  exact exists_shortest_eq_of_gridPoint (by norm_num) (by norm_num) hk

/-! ## Something rounded -/

/-- Up to `2 ^ 36` at most one whole number of hundred-thousandths is read as a magnitude. -/
theorem gridPoint_unique_of_reads (hm : m.toRat ≤ 2 ^ 36)
    (hj : nearestIndex (j * 10 ^ (-5 : ℤ)) = m.index)
    (hn : nearestIndex (n * 10 ^ (-5 : ℤ)) = m.index) : j = n := by
  have hone : ∀ i k : ℕ, |(i : ℚ) * 10 ^ (-5 : ℤ) - k * 10 ^ (-5 : ℤ)| ≤ 2 ^ 37 / 2 ^ 54 →
      i = k := by
    intro i k hik
    refine gridPoint_eq_of_abs_sub_lt (hik.trans_lt ?_)
    rw [tenZpow_neg_five]
    norm_num
  rcases hm.lt_or_eq with hlt | heq
  · have hnear := abs_sub_le_of_reads hlt (gridPoint_nonneg j _) (gridPoint_nonneg n _) hj hn
    refine hone j n (hnear.trans ?_)
    norm_num
  -- the spacing doubles at the power of two itself, which is a whole number
  · have hlt : m.toRat < 2 ^ 37 := by
      rw [heq]
      norm_num
    have hjv := abs_sub_toRat_le hlt (gridPoint_nonneg j _) hj
    have hnv := abs_sub_toRat_le hlt (gridPoint_nonneg n _) hn
    rw [heq, two_pow_eq_gridPoint] at hjv hnv
    rw [hone j _ hjv, hone n _ hnv]

/-- Up to `2 ^ 36`, the number of hundred-thousandths that a magnitude was read from is shown of
it. -/
theorem displayScaled_shortest_of_reads (hm : m.toRat ≤ 2 ^ 36)
    (hn : nearestIndex (n * 10 ^ (-5 : ℤ)) = m.index) :
    displayScaled m.shortest.toRat = n := by
  -- the shortest decimal is a whole number of hundred-thousandths, and there is no other
  obtain ⟨j, hj⟩ := exists_shortest_eq_of_gridPoint (by norm_num) (by norm_num) hn
  have hread := nearestIndex_shortest m
  rw [hj] at hread
  rw [hj, displayScaled_gridPoint, gridPoint_unique_of_reads hm hread hn]

/-- Below `2 ^ 36` the shortest decimal is below it too, and what is shown is no more than it. -/
theorem displayScaled_shortest_le (hm : m.toRat < 2 ^ 36)
    (hn : displayScaled m.shortest.toRat = n) : n ≤ 2 ^ 36 * 10 ^ 5 := by
  have hle : m.shortest.toRat ≤ 2 ^ 36 := by
    by_contra hlt
    have hmono := nearestIndex_mono (by positivity) (not_le.1 hlt).le
    rw [nearestIndex_shortest, nearestIndex_two_pow, ← two_pow_le_toRat_iff] at hmono
    exact hmono.not_gt hm
  have hmono : displayScaled m.shortest.toRat ≤ displayScaled (2 ^ 36) := by
    rw [displayScaled_eq, displayScaled_eq]
    exact nearestInt_mono _ (mul_le_mul_of_nonneg_right hle (by positivity))
  rw [hn, two_pow_eq_gridPoint, displayScaled_gridPoint] at hmono
  exact_mod_cast hmono

/-- The number of hundred-thousandths that is shown of a magnitude is read as one of which the same
number is shown. -/
theorem exists_reads_displayScaled (hn : displayScaled m.shortest.toRat = n) :
    ∃ m', ofRat? (n * 10 ^ (-5 : ℤ)) = some m' ∧ displayScaled m'.shortest.toRat = n := by
  by_cases hgrid : ∃ j : ℕ, m.shortest.toRat = j * 10 ^ (-5 : ℤ)
  · -- nothing was rounded, and the magnitude itself is read back
    obtain ⟨j, hj⟩ := hgrid
    have hjn : j = n := by
      rw [hj, displayScaled_gridPoint] at hn
      exact_mod_cast hn
    refine ⟨m, ?_, hn⟩
    rw [← hjn, ← hj]
    exact (isShortest_shortest m).reads
  · have hm : m.toRat < 2 ^ 36 := by
      by_contra hle
      exact hgrid (exists_shortest_eq_gridPoint (not_lt.1 hle))
    -- rounding to the shown places does not leave the range, so the text is read as a magnitude
    have hle := gridPoint_mono (displayScaled_shortest_le hm hn) (-5)
    rw [← two_pow_eq_gridPoint] at hle
    obtain ⟨m', hm', hmle⟩ := exists_reads_of_le (gridPoint_nonneg n _) hle (by norm_num)
    exact ⟨m', ofRat?_eq_some_iff.2 hm', displayScaled_shortest_of_reads hmle hm'⟩

end Magnitude

/-! ## The text -/

namespace Binary64

/-- The sign stays when the size is rounded. -/
theorem displayScaled_signedShortest (negative : Bool) {m : Magnitude} {n : ℕ}
    (hn : displayScaled m.shortest.toRat = n) :
    displayScaled (signedShortest negative m).toRat = if negative then -(n : ℤ) else n := by
  rw [toRat_signedShortest]
  split
  · rw [displayScaled_neg, hn]
  · exact hn

/-- The size of the numeral that is shown. -/
theorem size_ofScaled_signedShortest (negative : Bool) {m : Magnitude} {n : ℕ}
    (hn : displayScaled m.shortest.toRat = n) :
    (CanonicalNumeral.ofScaled displayPlaces
      (displayScaled (signedShortest negative m).toRat)).size = n * 10 ^ (-5 : ℤ) := by
  rw [CanonicalNumeral.size_ofScaled, displayScaled_signedShortest negative hn, tenZpow_neg_five]
  cases negative <;> simp [displayPlaces, div_eq_mul_inv]

section Reads

variable {m m' : Magnitude} {n : ℕ} (hn : displayScaled m.shortest.toRat = n)
  (hread : Magnitude.ofRat? (n * 10 ^ (-5 : ℤ)) = some m')
include hn hread

/-- Something is shown exactly if what is read back is not zero. -/
theorem ne_zero_iff_of_reads : m' ≠ .zero ↔ 0 < n := by
  obtain ⟨k, hk, hshown⟩ := Magnitude.exists_reads_displayScaled hn
  obtain rfl := Option.some.inj (hk.symm.trans hread)
  rw [Nat.pos_iff_ne_zero, not_iff_not]
  constructor
  · rintro rfl
    have hzero := displayScaled_gridPoint 0
    rw [Nat.cast_zero, zero_mul, ← Magnitude.toRat_shortest_zero, hshown] at hzero
    exact_mod_cast hzero
  · rintro rfl
    rw [Nat.cast_zero, zero_mul, Magnitude.ofRat?_eq_some_iff, Magnitude.nearestIndex_zero] at hk
    exact Magnitude.ext hk.symm

/-- A minus sign is shown unless zero is read back. -/
theorem negative_ofScaled_signedShortest (negative : Bool) :
    (CanonicalNumeral.ofScaled displayPlaces
      (displayScaled (signedShortest negative m).toRat)).negative =
      (negative && decide (m' ≠ .zero)) := by
  have hzero : decide (m' ≠ .zero) = decide (0 < n) :=
    decide_eq_decide.2 (ne_zero_iff_of_reads hn hread)
  show decide (displayScaled (signedShortest negative m).toRat < 0) = _
  rw [displayScaled_signedShortest negative hn, hzero]
  cases negative <;> simp

/-- What is shown of a finite double is read as the double that the shown number is rounded to, with
the sign of the first unless it is zero. -/
theorem evaluate_display (negative : Bool) :
    (evaluate (finite negative m).display).value =
      .ok (finite (negative && decide (m' ≠ .zero)) m') := by
  have hsize := size_ofScaled_signedShortest negative hn
  rw [value_evaluate, display_eq_text, valueOf_numeral (hsize ▸ hread),
    negative_ofScaled_signedShortest hn hread, Bool.and_assoc, Bool.and_self]

/-- The same is shown of what is read back. -/
theorem display_of_reads (negative : Bool) :
    (finite (negative && decide (m' ≠ .zero)) m').display = (finite negative m).display := by
  have hzero : decide (m' ≠ .zero) = decide (0 < n) :=
    decide_eq_decide.2 (ne_zero_iff_of_reads hn hread)
  obtain ⟨k, hk, hshown⟩ := Magnitude.exists_reads_displayScaled hn
  obtain rfl := Option.some.inj (hk.symm.trans hread)
  rw [display_eq_text, display_eq_text, displayScaled_signedShortest _ hn,
    displayScaled_signedShortest _ hshown, hzero]
  -- only zero is shown without its sign, and nothing is left of it
  rcases Nat.eq_zero_or_pos n with rfl | hpos
  · simp
  · simp [hpos]

end Reads

/-- What is shown of a finite double is read as a double of which the same is shown. -/
theorem exists_evaluate_display (negative : Bool) (m : Magnitude) :
    ∃ y, (evaluate (finite negative m).display).value = .ok y ∧
      y.display = (finite negative m).display := by
  obtain ⟨n, hn⟩ := exists_displayScaled_eq m.shortest_nonneg
  obtain ⟨m', hread, -⟩ := Magnitude.exists_reads_displayScaled hn
  exact ⟨_, evaluate_display hn hread negative, display_of_reads hn hread negative⟩

end Binary64

end FourFunction
