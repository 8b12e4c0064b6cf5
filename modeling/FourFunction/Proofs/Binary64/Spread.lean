import FourFunction.Proofs.Binary64.Nearest

/-!
# How far rounding moves a number

The spacing of the magnitudes doubles at every power of two. Between two powers of two it bounds
how far apart a magnitude and a number that is rounded to it can be, and how near a number has to
be to be rounded to it.

## Main results

* `two_pow_le_toRat_iff`: the index at which the magnitudes reach a power of two;
* `nearestIndex_eq_of_abs_sub_lt`: above `2 ^ k`, less than `2 ^ (k - 53)` away is near enough;
* `abs_sub_toRat_le`: below `2 ^ k`, no number farther than `2 ^ (k - 54)` is rounded to a
  magnitude.
-/

namespace FourFunction.Magnitude

variable {m : Magnitude} {q : ℚ} {k index : ℕ}

/-- The units at the start of a binade are a power of two. -/
theorem unitsAt_succ_mul_binade (e : ℕ) : unitsAt ((e + 1) * binade) = 2 ^ (e + 52) := by
  have hbinade : binade = 2 ^ 52 := rfl
  rw [Nat.succ_mul, unitsAt_add_mul_binade (.inr le_rfl) (by omega), pow_add, mul_comm, ← hbinade]

theorem unitsPerOne_cast : (unitsPerOne : ℚ) = 2 ^ 1074 := by
  delta unitsPerOne
  -- nothing hangs on the number, and as a numeral it would be evaluated
  generalize 1074 = N
  rw [Nat.pow_eq]
  push_cast
  rfl

/-- A power of two is on the list of magnitudes, at the beginning of a binade. -/
theorem two_pow_mul_unitsPerOne (k : ℕ) :
    (2 : ℚ) ^ k * unitsPerOne = unitsAt ((1023 + k) * binade) := by
  have hexp : 1023 + k = 1022 + k + 1 := by omega
  rw [hexp, unitsAt_succ_mul_binade, unitsPerOne_cast, ← pow_add]
  push_cast
  congr 1
  omega

/-- A magnitude is at least a power of two if it is not before the binade that the power starts. -/
theorem two_pow_le_toRat_iff : (2 : ℚ) ^ k ≤ m.toRat ↔ (1023 + k) * binade ≤ m.index := by
  rw [← mul_le_mul_iff_of_pos_right unitsPerOne_pos, toRat_mul_unitsPerOne,
    two_pow_mul_unitsPerOne, Nat.cast_le]
  exact unitsAt_strictMono.le_iff_le

/-- A magnitude is above a power of two if it is after the start of its binade. -/
theorem two_pow_lt_toRat_iff : (2 : ℚ) ^ k < m.toRat ↔ (1023 + k) * binade < m.index := by
  rw [← mul_lt_mul_iff_of_pos_right unitsPerOne_pos, toRat_mul_unitsPerOne,
    two_pow_mul_unitsPerOne, Nat.cast_lt]
  exact unitsAt_strictMono.lt_iff_lt

/-- From the start of a binade on the exponent is at least that of the binade. -/
theorem le_exponentAt (h : (1023 + k) * binade ≤ index) : 1022 + k ≤ exponentAt index := by
  simp only [exponentAt, binade_eq] at *
  omega

/-- Before the start of a binade the exponent is below that of the binade. -/
theorem exponentAt_le (h : index < (1023 + k) * binade) : exponentAt index ≤ 1021 + k := by
  simp only [exponentAt, binade_eq] at *
  omega

/-- The midpoint lies half a spacing above its entry. -/
theorem midpoint_eq_add (index : ℕ) :
    midpoint index = unitsAt index + 2 ^ exponentAt index / 2 := by
  rw [midpoint, unitsAt_succ]
  push_cast
  ring

/-- The midpoint lies half a spacing below the next entry. -/
theorem midpoint_eq_sub (index : ℕ) :
    midpoint index = unitsAt (index + 1) - 2 ^ exponentAt index / 2 := by
  rw [midpoint, unitsAt_succ]
  push_cast
  ring

/-- A part of a power of two, counted in units. -/
theorem two_pow_div_mul_unitsPerOne {j e : ℕ} (h : e + j = 1074 + k) :
    (2 : ℚ) ^ k / 2 ^ j * unitsPerOne = 2 ^ e := by
  rw [unitsPerOne_cast, div_mul_eq_mul_div, div_eq_iff (by positivity), ← pow_add, ← pow_add]
  congr 1
  omega

/-- The distance of a number from a magnitude, in units. -/
theorem abs_sub_toRat_mul_unitsPerOne (q : ℚ) (m : Magnitude) :
    |q * unitsPerOne - unitsAt m.index| = |q - m.toRat| * unitsPerOne := by
  have hunits : (unitsAt m.index : ℚ) = m.toRat * unitsPerOne := (toRat_mul_unitsPerOne m).symm
  rw [hunits, ← sub_mul, abs_mul, abs_of_pos unitsPerOne_pos]

/-- Above a power of two, a number less than half the spacing there away is rounded to the
magnitude. -/
theorem nearestIndex_eq_of_abs_sub_lt (hm : 2 ^ k < m.toRat) (hq : 0 ≤ q)
    (h : |q - m.toRat| < 2 ^ k / 2 ^ 53) : nearestIndex q = m.index := by
  rw [two_pow_lt_toRat_iff] at hm
  -- half the spacing in units, under a name since the power itself would be evaluated
  obtain ⟨e, he⟩ : ∃ e, e = 1021 + k := ⟨_, rfl⟩
  have hunits : |q * unitsPerOne - unitsAt m.index| < 2 ^ e := by
    rw [abs_sub_toRat_mul_unitsPerOne, ← two_pow_div_mul_unitsPerOne (j := 53) (k := k) (by omega)]
    exact mul_lt_mul_of_pos_right h unitsPerOne_pos
  -- the spacings below and above the magnitude are twice that bound or more
  have hhalf : ∀ i, (1023 + k) * binade ≤ i → (2 : ℚ) ^ e ≤ 2 ^ exponentAt i / 2 := by
    intro i hi
    have hexp := le_exponentAt hi
    rw [le_div_iff₀ two_pos, ← pow_succ]
    exact pow_le_pow_right₀ one_le_two (by omega)
  -- both midpoints lie farther away, so the number is between them
  obtain ⟨i, hi⟩ : ∃ i, m.index = i + 1 := ⟨m.index - 1, by omega⟩
  have hbelow := hhalf i (by omega)
  have habove := hhalf m.index hm.le
  rw [hi] at hunits habove ⊢
  rw [abs_lt] at hunits
  refine le_antisymm ((nearestIndex_le_iff hq).2 (Or.inl ?_)) ?_
  · rw [midpoint_eq_add]
    linarith
  · by_contra hle
    have hmid := le_midpoint_of_nearestIndex_le hq (Nat.lt_succ_iff.1 (not_le.1 hle))
    rw [midpoint_eq_sub] at hmid
    linarith

/-- Below a power of two, a number that is rounded to the magnitude is half the spacing there away
at most. -/
theorem abs_sub_toRat_le (hm : m.toRat < 2 ^ k) (hq : 0 ≤ q) (hread : nearestIndex q = m.index) :
    |q - m.toRat| ≤ 2 ^ k / 2 ^ 54 := by
  have hindex : m.index < (1023 + k) * binade :=
    not_le.1 fun hle => (two_pow_le_toRat_iff.2 hle).not_gt hm
  obtain ⟨e, he⟩ : ∃ e, e = 1020 + k := ⟨_, rfl⟩
  -- the spacings below and above the magnitude are twice that bound at most
  have hhalf : ∀ i ≤ m.index, (2 : ℚ) ^ exponentAt i / 2 ≤ 2 ^ e := by
    intro i hi
    have hexp := exponentAt_le (hi.trans_lt hindex)
    rw [div_le_iff₀ two_pos, ← pow_succ]
    exact pow_le_pow_right₀ one_le_two (by omega)
  refine le_of_mul_le_mul_right ?_ unitsPerOne_pos
  rw [← abs_sub_toRat_mul_unitsPerOne, two_pow_div_mul_unitsPerOne (e := e) (by omega), abs_le]
  constructor
  · rcases Nat.eq_zero_or_pos m.index with h0 | hpos
    · -- nothing lies below the zeros
      have hnonneg := mul_nonneg hq unitsPerOne_pos.le
      have hpow : (0 : ℚ) ≤ 2 ^ e := by positivity
      rw [h0, unitsAt_zero, Nat.cast_zero]
      linarith
    · obtain ⟨i, hi⟩ : ∃ i, m.index = i + 1 := ⟨m.index - 1, by omega⟩
      have hspacing := hhalf i (by omega)
      have hmid := midpoint_le_of_lt_nearestIndex hq (show i < nearestIndex q by omega)
      rw [midpoint_eq_sub] at hmid
      rw [hi]
      linarith
  · have hspacing := hhalf m.index le_rfl
    have hmid := le_midpoint_of_nearestIndex_le hq hread.le
    rw [midpoint_eq_add] at hmid
    linarith

end FourFunction.Magnitude
