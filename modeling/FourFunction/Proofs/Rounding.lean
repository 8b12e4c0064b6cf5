import FourFunction.Rounding
import Mathlib.Data.Rat.Floor
import Mathlib.Tactic.Linarith
import Mathlib.Tactic.NormNum
import Mathlib.Tactic.Ring

/-!
# The nearest integer

What `nearestInt` computes, said without its algorithm: an integer at most one half away from the
number, and so as near as any other, with the tie rule deciding between two equally near ones.

## Main results

* `abs_nearestInt_sub_le`, `nearestInt_of_abs_sub_lt`: within one half, and forced by less than
  one half;
* `nearestInt_mono`: rounding keeps the order;
* `nearestInt_awayFromZero_eq_iff`: rounding halves away from zero, as a property of its result.
-/

namespace FourFunction

variable {ties : Ties} {q : ℚ} {n : ℤ}

/-- The nearest integer is the floor or its successor, each within one half of the number. -/
theorem nearestInt_cases (ties : Ties) (q : ℚ) :
    (nearestInt ties q = ⌊q⌋ ∧ q - ⌊q⌋ ≤ 1 / 2) ∨
      (nearestInt ties q = ⌊q⌋ + 1 ∧ 1 / 2 ≤ q - ⌊q⌋) := by
  change (nearestInt ties q = q.floor ∧ q - q.floor ≤ 1 / 2) ∨
    (nearestInt ties q = q.floor + 1 ∧ 1 / 2 ≤ q - q.floor)
  unfold nearestInt
  cases ties <;> grind

/-- Rounding moves a number by one half at most. -/
theorem abs_nearestInt_sub_le (ties : Ties) (q : ℚ) : |q - nearestInt ties q| ≤ 1 / 2 := by
  have hlo := Int.floor_le q
  have hhi := Int.lt_floor_add_one q
  rcases nearestInt_cases ties q with ⟨hn, hq⟩ | ⟨hn, hq⟩ <;> rw [hn, abs_le]
  · constructor <;> linarith
  · push_cast
    constructor <;> linarith

/-- An integer less than one half away is the nearest one, whatever the tie rule. -/
theorem nearestInt_of_abs_sub_lt (ties : Ties) (h : |q - n| < 1 / 2) : nearestInt ties q = n := by
  have hn := abs_nearestInt_sub_le ties q
  rw [abs_le] at hn
  rw [abs_lt] at h
  -- the two integers are less than one apart
  have hlt : nearestInt ties q < n + 1 := by
    exact_mod_cast show (nearestInt ties q : ℚ) < n + 1 by linarith
  have hgt : n < nearestInt ties q + 1 := by
    exact_mod_cast show (n : ℚ) < nearestInt ties q + 1 by linarith
  omega

/-- Rounding keeps the order. -/
theorem nearestInt_mono (ties : Ties) {r : ℚ} (hqr : q ≤ r) :
    nearestInt ties q ≤ nearestInt ties r := by
  rcases (Int.floor_le_floor hqr).lt_or_eq with hlt | heq
  -- different floors: the smaller number rounds to the larger floor at most
  · rcases nearestInt_cases ties q with ⟨hq, -⟩ | ⟨hq, -⟩ <;>
      rcases nearestInt_cases ties r with ⟨hr, -⟩ | ⟨hr, -⟩ <;> omega
  -- the same floor: the excess over it decides, and at one half the tie rule does
  · change q.floor = r.floor at heq
    unfold nearestInt
    cases ties <;> grind

/-- A nonnegative number is rounded to a nonnegative integer. -/
theorem nearestInt_nonneg (ties : Ties) (hq : 0 ≤ q) : 0 ≤ nearestInt ties q := by
  have h := nearestInt_mono ties hq
  rwa [← Int.cast_zero, nearestInt_intCast] at h

/-- A tie goes to the even integer. -/
theorem nearestInt_toEven_of_tie (hn : n % 2 = 0) (h : |q - n| = 1 / 2) :
    nearestInt .toEven q = n := by
  -- the even integer is the floor or its successor
  rcases abs_eq (by norm_num : (0 : ℚ) ≤ 1 / 2) |>.1 h with hq | hq
  · have hfloor : ⌊q⌋ = n := Int.floor_eq_iff.2 ⟨by linarith, by linarith⟩
    change q.floor = n at hfloor
    simp only [nearestInt, hfloor]
    grind
  · have hfloor : ⌊q⌋ = n - 1 :=
      Int.floor_eq_iff.2 ⟨by push_cast; linarith, by push_cast; linarith⟩
    change q.floor = n - 1 at hfloor
    simp only [nearestInt, hfloor]
    grind

/-! ## Halves away from zero -/

/-- `n` is an integer nearest to `q`, and of two such integers the one farther from zero. -/
structure NearestAwayFromZero (q : ℚ) (n : ℤ) : Prop where
  /-- No integer is nearer. -/
  nearest : ∀ k : ℤ, |q - n| ≤ |q - k|
  /-- An integer equally near is no farther from zero. -/
  tie : ∀ k : ℤ, |q - k| = |q - n| → |k| ≤ |n|

/-- An integer within one half is as near as any other. -/
theorem abs_sub_le_of_le_half (h : |q - n| ≤ 1 / 2) (k : ℤ) : |q - n| ≤ |q - k| := by
  rcases eq_or_ne n k with rfl | hne
  · exact le_rfl
  · have hsep : (1 : ℚ) ≤ |(n : ℚ) - k| := by
      exact_mod_cast Int.one_le_abs (sub_ne_zero.2 hne)
    have htri := abs_sub_le (n : ℚ) q k
    rw [abs_sub_comm (n : ℚ) q] at htri
    linarith

/-- An integer within one half, with a tie only where it is the one farther from zero, is the
integer that rounding halves away from zero gives. -/
theorem nearestAwayFromZero_of_le_half (h : |q - n| ≤ 1 / 2) (htie : |q - n| = 1 / 2 → |q| < |n|) :
    NearestAwayFromZero q n where
  nearest := abs_sub_le_of_le_half h
  tie k hk := by
    -- an integer farther from zero is one or more farther, which the triangle inequality forbids
    by_contra hlt
    push Not at hlt
    have hltQ : |(n : ℚ)| + 1 ≤ |(k : ℚ)| := by exact_mod_cast hlt
    have hnk : |(k : ℚ)| ≤ |q - k| + |q| := by
      have := abs_sub_le (k : ℚ) q 0
      rwa [sub_zero, sub_zero, abs_sub_comm (k : ℚ)] at this
    have hqn : |q| ≤ |q - n| + |(n : ℚ)| := by
      have := abs_sub_le q n 0
      rwa [sub_zero, sub_zero] at this
    have hhalf : |q - n| = 1 / 2 := by linarith
    have := htie hhalf
    have : |q| < |(n : ℚ)| := by exact_mod_cast this
    linarith

/-- No two integers both are the one that rounding halves away from zero gives. -/
theorem NearestAwayFromZero.unique {m : ℤ} (hn : NearestAwayFromZero q n)
    (hm : NearestAwayFromZero q m) : n = m := by
  have heq : |q - n| = |q - m| := le_antisymm (hn.nearest m) (hm.nearest n)
  have habs : |n| = |m| := le_antisymm (hm.tie n heq) (hn.tie m heq.symm)
  rcases abs_eq_abs.1 habs with h | rfl
  · exact h
  -- the remaining pair `-m`, `m` is equally near only to zero, which is nearer still
  · have hq : q * m = 0 := by
      have := congrArg (· ^ 2) heq
      simp only [sq_abs] at this
      push_cast at this
      linarith
    rcases mul_eq_zero.1 hq with rfl | h0
    · have := hm.nearest 0
      simp only [zero_sub, abs_neg, Int.cast_zero, abs_zero] at this
      have : m = 0 := by exact_mod_cast abs_nonpos_iff.1 this
      omega
    · have : m = 0 := by exact_mod_cast h0
      omega

/-- A tie is resolved to the integer farther from zero. -/
theorem abs_lt_abs_nearestInt_of_tie (h : |q - nearestInt .awayFromZero q| = 1 / 2) :
    |q| < |(nearestInt .awayFromZero q : ℚ)| := by
  have hlo := Int.floor_le q
  have hhi := Int.lt_floor_add_one q
  have hexcess : q - ⌊q⌋ = 1 / 2 := by
    rcases nearestInt_cases .awayFromZero q with ⟨hn, hq⟩ | ⟨hn, hq⟩ <;> rw [hn] at h
    · rwa [abs_of_nonneg (by linarith)] at h
    · push_cast at h
      rw [abs_of_neg (by linarith)] at h
      linarith
  -- at a tie the sign decides
  have hn : nearestInt .awayFromZero q = if q < 0 then ⌊q⌋ else ⌊q⌋ + 1 := by
    change q - q.floor = 1 / 2 at hexcess
    change nearestInt .awayFromZero q = if q < 0 then q.floor else q.floor + 1
    simp [nearestInt, hexcess]
  by_cases hq : q < 0
  · rw [hn, if_pos hq, abs_of_neg hq, abs_of_neg (by linarith)]
    linarith
  · rw [hn, if_neg hq, abs_of_nonneg (by linarith), abs_of_nonneg (by push_cast; linarith)]
    push_cast
    linarith

/-- `nearestInt .awayFromZero` rounds halves away from zero. -/
theorem nearestAwayFromZero_nearestInt (q : ℚ) :
    NearestAwayFromZero q (nearestInt .awayFromZero q) := by
  refine nearestAwayFromZero_of_le_half (abs_nearestInt_sub_le _ _) fun htie => ?_
  exact_mod_cast abs_lt_abs_nearestInt_of_tie htie

/-- Rounding halves away from zero, as a property of its result. -/
theorem nearestInt_awayFromZero_eq_iff :
    nearestInt .awayFromZero q = n ↔ NearestAwayFromZero q n := by
  constructor
  · rintro rfl
    exact nearestAwayFromZero_nearestInt q
  · exact (nearestAwayFromZero_nearestInt q).unique

theorem NearestAwayFromZero.neg (h : NearestAwayFromZero q n) : NearestAwayFromZero (-q) (-n) := by
  have hdist : ∀ k : ℤ, |-q - k| = |q - (-k : ℤ)| := by
    intro k
    rw [← abs_neg]
    push_cast
    congr 1
    ring
  refine ⟨fun k => ?_, fun k hk => ?_⟩
  · rw [hdist, hdist, neg_neg]
    exact h.nearest (-k)
  · rw [hdist, hdist, neg_neg] at hk
    rw [abs_neg, ← abs_neg k]
    exact h.tie (-k) hk

/-- Rounding halves away from zero treats both signs alike. -/
theorem nearestInt_awayFromZero_neg (q : ℚ) :
    nearestInt .awayFromZero (-q) = -nearestInt .awayFromZero q :=
  nearestInt_awayFromZero_eq_iff.2 (nearestAwayFromZero_nearestInt q).neg

end FourFunction
