import FourFunction.Proofs.Binary64.Spread
import FourFunction.Proofs.Decimal.Shortest

/-!
# Decimals that a double keeps

A double stands for all the decimals that are read as it, and keeps one of them, its shortest
decimal. The two lie close together, so on a grid that is wide enough there is room for one of them
only: a decimal of fifteen digits is the shortest decimal of the double that it is read as, and so
is a whole number up to `2 ^ 53`, which the double holds exactly.

At `2 ^ 53` itself the spacing doubles, and the next whole number is read as the same double. There
it is the rule that of two decimals equally short the nearer one is taken which decides.

## Main results

* `Magnitude.exists_shortest_eq_of_gridPoint`: if some decimal of no more than fourteen places is
  read as a magnitude, its shortest decimal has no more places either;
* `Magnitude.shortest_eq_of_reads`: fifteen digits are kept;
* `Magnitude.shortest_eq_natCast`: whole numbers up to `2 ^ 53` are kept.
-/

namespace FourFunction

variable {i j k n : ℕ} {p : ℤ}

/-- Points of one grid that are less than a step apart are the same. -/
theorem gridPoint_eq_of_abs_sub_lt (h : |(j : ℚ) * 10 ^ p - k * 10 ^ p| < 10 ^ p) : j = k := by
  have hp := tenZpow_pos p
  rw [← sub_mul, abs_mul, abs_of_pos hp, mul_lt_iff_lt_one_left hp] at h
  have hint : |(j : ℤ) - k| < 1 := by exact_mod_cast h
  rw [Int.abs_lt_one_iff] at hint
  omega

namespace Magnitude

variable {m : Magnitude} {q r : ℚ}

theorem nearestIndex_two_pow (k : ℕ) : nearestIndex (2 ^ k) = (1023 + k) * binade :=
  nearestIndex_of_mul_eq (two_pow_mul_unitsPerOne k)

theorem shortest_nonneg (m : Magnitude) : 0 ≤ m.shortest.toRat := (isShortest_shortest m).nonneg

theorem nearestIndex_shortest (m : Magnitude) : nearestIndex m.shortest.toRat = m.index :=
  ofRat?_eq_some_iff.1 (isShortest_shortest m).reads

/-- Zero is its own shortest decimal. -/
theorem toRat_shortest_zero : zero.shortest.toRat = 0 :=
  ((isShortest_shortest zero).unique isShortest_zero)

/-- No other magnitude has zero for its shortest decimal. -/
theorem toRat_shortest_eq_zero_iff : m.shortest.toRat = 0 ↔ m = zero := by
  constructor
  · intro h
    have hread := m.nearestIndex_shortest
    rw [h, nearestIndex_zero] at hread
    exact Magnitude.ext hread.symm
  · rintro rfl
    exact toRat_shortest_zero

/-- Up to a power of two, every number is read as a magnitude up to it. -/
theorem exists_reads_of_le (hq : 0 ≤ q) (hle : q ≤ 2 ^ k) (hk : k ≤ 1023) :
    ∃ m : Magnitude, nearestIndex q = m.index ∧ m.toRat ≤ 2 ^ k := by
  have hindex : nearestIndex q ≤ (1023 + k) * binade := by
    rw [← nearestIndex_two_pow]
    exact nearestIndex_mono hq hle
  have hlt : nearestIndex q < limit := by
    rw [binade_eq] at hindex
    rw [limit_eq]
    omega
  refine ⟨⟨_, hlt⟩, rfl, ?_⟩
  by_contra hgt
  rw [not_le, two_pow_lt_toRat_iff] at hgt
  exact absurd hindex (not_le.2 hgt)

/-- Two numbers that are read as one magnitude are less than a spacing apart. -/
theorem abs_sub_le_of_reads (hm : m.toRat < 2 ^ k) (hq : 0 ≤ q) (hr : 0 ≤ r)
    (hqm : nearestIndex q = m.index) (hrm : nearestIndex r = m.index) :
    |q - r| ≤ 2 * (2 ^ k / 2 ^ 54) := by
  have hqd := abs_sub_toRat_le hm hq hqm
  have hrd := abs_sub_toRat_le hm hr hrm
  have htri := abs_sub_le q m.toRat r
  rw [abs_sub_comm m.toRat] at htri
  linarith

/-! ## Grids -/

/-- Below the first point of a grid, a magnitude that this point is read as has it for its shortest
decimal. -/
theorem shortest_eq_of_lt_gridPoint (hp : -14 ≤ p) (hp0 : p ≤ 0) (hm : m ≠ zero)
    (hlt : m.toRat < 10 ^ p) (hread : nearestIndex (10 ^ p) = m.index) :
    m.shortest.toRat = 10 ^ p := by
  have hpos := tenZpow_pos p
  -- one step of the next finer grid is more than two numbers read alike are apart
  have hstep : (2 : ℚ) * (2 ^ 0 / 2 ^ 54) < 10 ^ (p - 1) := by
    have hle : (10 : ℚ) ^ (-15 : ℤ) ≤ 10 ^ (p - 1) := tenZpow_le (by omega)
    refine lt_of_lt_of_le ?_ hle
    norm_num
  have hten : (10 : ℚ) ^ p = (10 : ℕ) * 10 ^ (p - 1) := by
    rw [show p = 1 + (p - 1) by ring, tenZpow_add]
    norm_num
  have hone : m.toRat < 2 ^ 0 := by
    have hle : (10 : ℚ) ^ p ≤ 10 ^ (0 : ℤ) := tenZpow_le (by omega)
    rw [pow_zero]
    rw [zpow_zero] at hle
    linarith
  -- so the magnitude is too near for its leading digit to lie below that grid
  have hlead : p - 1 ≤ leadingExponent m.toRat := by
    have hnear := abs_sub_le_of_reads hone hpos.le (toRat_nonneg m) hread (nearestIndex_toRat m)
    rw [hten] at hnear hlt
    rw [abs_of_pos (by linarith)] at hnear
    push_cast at hnear
    exact le_leadingExponent (by linarith)
  have hcoarsest := coarsestHit_shortest hm
  rw [← one_mul ((10 : ℚ) ^ p), ← Nat.cast_one] at hread
  have hexp := hcoarsest.min_le_exponent hread
  obtain ⟨c, hc⟩ := hcoarsest.exists_toRat_eq
  obtain ⟨i, hi⟩ :=
    exists_mul_tenZpow_of_le (show p - 1 ≤ m.shortest.exponent by omega) c
  -- both decimals lie on the next finer grid, less than a step apart
  rw [Nat.cast_one, one_mul, hten] at hread
  have hnear := abs_sub_le_of_reads hone (shortest_nonneg m) (gridPoint_nonneg 10 _)
    (nearestIndex_shortest m) hread
  rw [hc, hi] at hnear
  rw [hc, hi, hten, gridPoint_eq_of_abs_sub_lt (hnear.trans_lt hstep)]

/-- If some decimal of as many places is read as the magnitude, the shortest decimal has no more. -/
theorem exists_shortest_eq_of_gridPoint (hp : -14 ≤ p) (hp0 : p ≤ 0)
    (hk : nearestIndex (k * 10 ^ p) = m.index) :
    ∃ i : ℕ, m.shortest.toRat = i * 10 ^ p := by
  rcases eq_or_ne m zero with rfl | hm
  · exact ⟨0, by rw [toRat_shortest_zero, Nat.cast_zero, zero_mul]⟩
  rcases le_or_gt (10 ^ p) m.toRat with hle | hlt
  -- from the first point of the grid onwards the grid was searched, or a coarser one had a hit
  · have hcoarsest := coarsestHit_shortest hm
    have hlead := le_leadingExponent hle
    have hexp := hcoarsest.min_le_exponent hk
    obtain ⟨c, hc⟩ := hcoarsest.exists_toRat_eq
    rw [hc]
    exact exists_mul_tenZpow_of_le (by omega) c
  -- below it, the first point lies between the magnitude and the number read as it
  · have hkpos : 1 ≤ k := by
      by_contra hk0
      obtain rfl : k = 0 := by omega
      rw [Nat.cast_zero, zero_mul, nearestIndex_zero] at hk
      exact hm (Magnitude.ext hk.symm)
    have hfirst := gridPoint_mono hkpos p
    rw [Nat.cast_one, one_mul] at hfirst
    have hread :=
      nearestIndex_eq_of_between (toRat_nonneg m) hlt.le hfirst (nearestIndex_toRat m) hk
    exact ⟨1, by rw [shortest_eq_of_lt_gridPoint hp hp0 hm hlt hread, Nat.cast_one, one_mul]⟩

/-! ## Fifteen digits -/

/-- Decimals of fifteen digits are bounded by a power of two, below whose double the spacing is less
than a step between them. -/
theorem exists_two_pow_spacing_lt (hp : -14 ≤ p) (hp0 : p ≤ 0) :
    ∃ k ≤ 50, (10 : ℚ) ^ 15 * 10 ^ p ≤ 2 ^ k ∧ (2 : ℚ) * (2 ^ (k + 1) / 2 ^ 54) < 10 ^ p := by
  have hscale : (10 : ℚ) ^ 15 * 10 ^ p = (10 ^ (15 + p).toNat : ℕ) := by
    push_cast
    rw [← zpow_natCast, ← zpow_natCast, ← tenZpow_add]
    congr 1
    omega
  rw [hscale]
  -- the first power of two above them is at most twice as large
  have hlow : 2 ^ (10 ^ (15 + p).toNat).log2 ≤ 10 ^ (15 + p).toNat :=
    Nat.log2_self_le (by positivity)
  have hhigh : 10 ^ (15 + p).toNat < 2 ^ ((10 ^ (15 + p).toNat).log2 + 1) := Nat.lt_log2_self
  generalize (10 ^ (15 + p).toNat).log2 = k at hlow hhigh
  refine ⟨k + 1, ?_, by exact_mod_cast hhigh.le, ?_⟩
  · have hten : 10 ^ (15 + p).toNat ≤ 10 ^ 15 := Nat.pow_le_pow_right (by norm_num) (by omega)
    have hfifty : 10 ^ 15 < 2 ^ 50 := by norm_num
    exact (Nat.pow_lt_pow_iff_right (by norm_num)).1 ((hlow.trans hten).trans_lt hfifty)
  · have hlowQ : (2 : ℚ) ^ k ≤ 10 ^ 15 * 10 ^ p := by
      rw [hscale]
      exact_mod_cast hlow
    have hpos := tenZpow_pos p
    rw [pow_add, pow_add]
    linarith

/-- A decimal of fifteen digits is the shortest decimal of the magnitude that it is read as. -/
theorem shortest_eq_of_reads (hp : -14 ≤ p) (hp0 : p ≤ 0) (hn : n < 10 ^ 15)
    (hread : nearestIndex (n * 10 ^ p) = m.index) :
    m.shortest.toRat = n * 10 ^ p := by
  obtain ⟨i, hi⟩ := exists_shortest_eq_of_gridPoint hp hp0 hread
  obtain ⟨k, hk, hbound, hstep⟩ := exists_two_pow_spacing_lt hp hp0
  have hle : (n : ℚ) * 10 ^ p ≤ 2 ^ k := by
    have hnQ : (n : ℚ) ≤ 10 ^ 15 := by exact_mod_cast hn.le
    exact (mul_le_mul_of_nonneg_right hnQ (tenZpow_pos p).le).trans hbound
  obtain ⟨m', hm', hmle⟩ := exists_reads_of_le (gridPoint_nonneg n _) hle (by omega)
  obtain rfl : m' = m := Magnitude.ext (hm'.symm.trans hread)
  have hmlt : m'.toRat < 2 ^ (k + 1) :=
    hmle.trans_lt (pow_lt_pow_right₀ (by norm_num) (by omega))
  -- the two decimals are read alike, so they are less than a step of the grid apart
  have hnear := abs_sub_le_of_reads hmlt (gridPoint_nonneg i _) (gridPoint_nonneg n _)
    (hi ▸ nearestIndex_shortest m') hread
  rw [hi, gridPoint_eq_of_abs_sub_lt (hnear.trans_lt hstep)]

/-! ## Whole numbers -/

/-- At `2 ^ 53` the next whole number is read as the same magnitude, but the power of two is nearer,
and no multiple of ten is near enough. -/
theorem shortest_eq_two_pow (hm : m.toRat = (2 ^ 53 : ℕ)) : m.shortest.toRat = (2 ^ 53 : ℕ) := by
  have hne : m ≠ zero := by
    rintro rfl
    rw [toRat_eq_zero_iff.2 rfl] at hm
    exact absurd hm (by norm_num)
  have hcoarsest := coarsestHit_shortest hne
  have hread : nearestIndex ((2 ^ 53 : ℕ) * 10 ^ (0 : ℤ)) = m.index := by
    rw [zpow_zero, mul_one, ← hm, nearestIndex_toRat]
  rcases le_or_gt m.shortest.exponent 0 with hexp | hexp
  · have hprec := (hcoarsest.precedes_of_le hexp hread).abs_le
    rw [zpow_zero, mul_one, hm, sub_self, abs_zero] at hprec
    exact sub_eq_zero.1 (abs_nonpos_iff.1 hprec)
  · exfalso
    obtain ⟨c, hc⟩ := hcoarsest.exists_toRat_eq
    obtain ⟨i, hi⟩ := exists_mul_tenZpow_of_le (show 1 ≤ m.shortest.exponent from hexp) c
    have hmlt : m.toRat < 2 ^ 54 := by
      rw [hm]
      norm_num
    have hnear := abs_sub_toRat_le hmlt (shortest_nonneg m) (nearestIndex_shortest m)
    rw [hc, hi, hm, zpow_one, div_self (by positivity)] at hnear
    have hint : |(i : ℤ) * 10 - 2 ^ 53| ≤ 1 := by exact_mod_cast hnear
    rw [abs_le] at hint
    omega

/-- A magnitude that is a whole number up to `2 ^ 53` is its own shortest decimal. -/
theorem shortest_eq_natCast (hn : n ≤ 2 ^ 53) (hm : m.toRat = n) : m.shortest.toRat = n := by
  have hread : nearestIndex (n * 10 ^ (0 : ℤ)) = m.index := by
    rw [zpow_zero, mul_one, ← hm, nearestIndex_toRat]
  obtain ⟨i, hi⟩ := exists_shortest_eq_of_gridPoint (by norm_num) le_rfl hread
  rw [zpow_zero, mul_one] at hi
  rcases hn.lt_or_eq with hlt | rfl
  -- below `2 ^ 53` the two whole numbers are a half apart at most
  · have hmlt : m.toRat < 2 ^ 53 := by
      rw [hm]
      exact_mod_cast hlt
    have hnear := abs_sub_toRat_le hmlt (shortest_nonneg m) (nearestIndex_shortest m)
    rw [hi, hm] at hnear
    have hstep : |(i : ℚ) * 10 ^ (0 : ℤ) - n * 10 ^ (0 : ℤ)| < 10 ^ (0 : ℤ) := by
      rw [zpow_zero, mul_one, mul_one]
      refine hnear.trans_lt ?_
      norm_num
    rw [hi, gridPoint_eq_of_abs_sub_lt hstep]
  · exact shortest_eq_two_pow hm

end Magnitude

end FourFunction
