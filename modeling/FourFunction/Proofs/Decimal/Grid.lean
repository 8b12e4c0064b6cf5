import FourFunction.Decimal.Shortest
import Mathlib.Data.Rat.Floor
import Mathlib.Tactic.FieldSimp
import Mathlib.Tactic.Linarith
import Mathlib.Tactic.Positivity
import Mathlib.Tactic.Ring

/-!
# Decimal grids

The grid of an exponent holds the whole multiples of that power of ten, so that a finer grid holds
every coarser one. The number of digits of a decimal is how far its leading digit lies above its
grid (`HasDigits`), and `leadingExponent` finds that leading digit.

## Main results

* `leadingExponent_spec`: the power of ten that the leading digit counts;
* `HasDigits.exists_grid`, `hasDigits_of_lt`: below a power of ten, the fewer digits a decimal has,
  the coarser is its grid.
-/

namespace FourFunction

variable {p p' : ℤ} {q : ℚ} {k n : ℕ}

/-- Powers of ten are the ones of the rational numbers. -/
theorem tenPow_eq_zpow (p : ℤ) : tenPow p = (10 : ℚ) ^ p := by
  cases p with
  | ofNat n =>
    change ((Nat.pow 10 n : ℕ) : ℚ) = _
    rw [Int.ofNat_eq_natCast, zpow_natCast]
    exact_mod_cast rfl
  | negSucc n =>
    change mkRat 1 (Nat.pow 10 (n + 1)) = _
    rw [zpow_negSucc, Rat.mkRat_eq_div]
    push_cast
    rw [one_div, Nat.pow_eq]
    push_cast
    rfl

/-- The value of a decimal is its digits times its power of ten, whatever the sign of the
exponent. -/
theorem Decimal.toRat_eq (d : Decimal) : d.toRat = d.coefficient * (10 : ℚ) ^ d.exponent := by
  obtain ⟨coefficient, exponent⟩ := d
  rw [toRat]
  obtain ⟨n, rfl | rfl⟩ := exponent.eq_nat_or_neg
  · rw [if_pos (Int.natCast_nonneg n), Int.toNat_natCast, zpow_natCast, Nat.pow_eq]
    push_cast
    rfl
  · rcases Nat.eq_zero_or_pos n with rfl | hpos
    · simp
    · rw [if_neg (by simpa using hpos.ne'), Int.natAbs_neg, Int.natAbs_natCast, Rat.mkRat_eq_div,
        zpow_neg, zpow_natCast, div_eq_mul_inv, Nat.pow_eq]
      push_cast
      rfl

theorem tenZpow_pos (p : ℤ) : (0 : ℚ) < 10 ^ p := zpow_pos (by norm_num) p

theorem tenZpow_add (a b : ℤ) : (10 : ℚ) ^ (a + b) = 10 ^ a * 10 ^ b :=
  zpow_add₀ (by norm_num) a b

theorem tenZpow_le (h : p ≤ p') : (10 : ℚ) ^ p ≤ 10 ^ p' :=
  zpow_le_zpow_right₀ (by norm_num) h

/-- A point of a coarse grid, counted on a finer one. -/
theorem exists_mul_tenZpow_of_le (h : p ≤ p') (k : ℕ) :
    ∃ j : ℕ, (k : ℚ) * 10 ^ p' = j * 10 ^ p := by
  obtain ⟨n, rfl⟩ := Int.exists_add_of_le h
  refine ⟨k * 10 ^ n, ?_⟩
  rw [tenZpow_add, zpow_natCast]
  push_cast
  ring

/-! ## The leading digit -/

theorem digitCount_pos (n : ℕ) : 0 < digitCount n := Nat.length_toDigits_pos

/-- A number is below the power of ten with as many zeros as it has digits. -/
theorem lt_ten_pow_digitCount (n : ℕ) : n < 10 ^ digitCount n :=
  (Nat.length_toDigits_le_iff (by norm_num) (digitCount_pos n)).1 le_rfl

/-- A positive number is at least the power of ten with as many digits. -/
theorem ten_pow_digitCount_le (hn : 0 < n) : 10 ^ (digitCount n - 1) ≤ n := by
  -- a number of one digit is bounded below by being positive, a longer one by its length
  rcases Nat.eq_zero_or_pos (digitCount n - 1) with h0 | hpos
  · rw [h0, pow_zero]
    exact hn
  · by_contra hlt
    have hlen : (Nat.toDigits 10 n).length ≤ digitCount n - 1 :=
      (Nat.length_toDigits_le_iff (by norm_num) hpos).2 (not_le.1 hlt)
    have := digitCount_pos n
    have : (Nat.toDigits 10 n).length = digitCount n := rfl
    omega

/-- From one onwards the digits of the floor are counted. -/
theorem leadingExponent_spec_of_one_le (h1 : 1 ≤ q) :
    (10 : ℚ) ^ leadingExponent q ≤ q ∧ q < 10 ^ (leadingExponent q + 1) := by
  have hn : (1 : ℤ) ≤ ⌊q⌋ := Int.le_floor.2 (by exact_mod_cast h1)
  have hfloor : ((⌊q⌋.toNat : ℕ) : ℤ) = ⌊q⌋ := Int.toNat_of_nonneg (by omega)
  have he : leadingExponent q = ((digitCount ⌊q⌋.toNat - 1 : ℕ) : ℤ) := by
    have := digitCount_pos ⌊q⌋.toNat
    rw [leadingExponent, if_pos h1]
    change (digitCount ⌊q⌋.toNat : ℤ) - 1 = _
    omega
  constructor
  · have hle : ((10 ^ (digitCount ⌊q⌋.toNat - 1) : ℕ) : ℤ) ≤ ⌊q⌋ := by
      have := ten_pow_digitCount_le (n := ⌊q⌋.toNat) (by omega)
      omega
    rw [he, zpow_natCast]
    exact_mod_cast Int.le_floor.1 hle
  · have hlt : ⌊q⌋ < ((10 ^ digitCount ⌊q⌋.toNat : ℕ) : ℤ) := by
      have := lt_ten_pow_digitCount ⌊q⌋.toNat
      omega
    have hsucc : leadingExponent q + 1 = (digitCount ⌊q⌋.toNat : ℤ) := by
      have := digitCount_pos ⌊q⌋.toNat
      omega
    rw [hsucc, zpow_natCast]
    exact_mod_cast Int.floor_lt.1 hlt

/-- Below one the reciprocal is measured, whose ceiling less one has the digits to count. -/
theorem leadingExponent_spec_of_lt_one (hq : 0 < q) (h1 : q < 1) :
    (10 : ℚ) ^ leadingExponent q ≤ q ∧ q < 10 ^ (leadingExponent q + 1) := by
  have hinv : 1 < q⁻¹ := (one_lt_inv₀ hq).2 h1
  have hceil : (2 : ℤ) ≤ ⌈q⁻¹⌉ := by
    have : (1 : ℤ) < ⌈q⁻¹⌉ := Int.lt_ceil.2 (by exact_mod_cast hinv)
    omega
  have hnat : ((⌈q⁻¹⌉.toNat - 1 : ℕ) : ℤ) = ⌈q⁻¹⌉ - 1 := by omega
  have he : leadingExponent q = -(digitCount (⌈q⁻¹⌉.toNat - 1) : ℤ) := by
    rw [leadingExponent, if_neg h1.not_ge, Rat.ceil_eq_neg_floor_neg]
    rfl
  constructor
  · have hle : ⌈q⁻¹⌉ ≤ ((10 ^ digitCount (⌈q⁻¹⌉.toNat - 1) : ℕ) : ℤ) := by
      have := lt_ten_pow_digitCount (⌈q⁻¹⌉.toNat - 1)
      omega
    have hqle : q⁻¹ ≤ 10 ^ digitCount (⌈q⁻¹⌉.toNat - 1) := by
      exact_mod_cast Int.ceil_le.1 hle
    rw [he, zpow_neg, zpow_natCast]
    exact inv_le_of_inv_le₀ hq hqle
  · have hlt : ((10 ^ (digitCount (⌈q⁻¹⌉.toNat - 1) - 1) : ℕ) : ℤ) < ⌈q⁻¹⌉ := by
      have := ten_pow_digitCount_le (n := ⌈q⁻¹⌉.toNat - 1) (by omega)
      omega
    have hltq : (10 : ℚ) ^ (digitCount (⌈q⁻¹⌉.toNat - 1) - 1) < q⁻¹ := by
      exact_mod_cast Int.lt_ceil.1 hlt
    have hsucc : leadingExponent q + 1 = -((digitCount (⌈q⁻¹⌉.toNat - 1) - 1 : ℕ) : ℤ) := by
      have := digitCount_pos (⌈q⁻¹⌉.toNat - 1)
      omega
    rw [hsucc, zpow_neg, zpow_natCast]
    exact lt_inv_of_lt_inv₀ (by positivity) hltq

/-- The leading digit of a number counts a power of ten that is no larger. -/
theorem leadingExponent_spec (hq : 0 < q) :
    (10 : ℚ) ^ leadingExponent q ≤ q ∧ q < 10 ^ (leadingExponent q + 1) := by
  rcases le_or_gt 1 q with h1 | h1
  · exact leadingExponent_spec_of_one_le h1
  · exact leadingExponent_spec_of_lt_one hq h1

/-- The leading digit of a number counts no less than any power of ten up to the number. -/
theorem le_leadingExponent (h : (10 : ℚ) ^ p ≤ q) : p ≤ leadingExponent q := by
  have hlt := h.trans_lt (leadingExponent_spec ((tenZpow_pos p).trans_le h)).2
  have := (zpow_lt_zpow_iff_right₀ (by norm_num : (1 : ℚ) < 10)).1 hlt
  omega

/-! ## Counting digits -/

/-- The number is a decimal of at most `k` significant digits. -/
def HasDigits (k : ℕ) (q : ℚ) : Prop := ∃ (c : ℕ) (p : ℤ), c < 10 ^ k ∧ q = c * 10 ^ p

theorem hasDigits_zero (k : ℕ) : HasDigits k 0 := ⟨0, 0, by positivity, by simp⟩

/-- A power of ten has one digit. -/
theorem hasDigits_tenZpow (hk : 0 < k) (p : ℤ) : HasDigits k (10 ^ p) :=
  ⟨1, p, Nat.one_lt_pow hk.ne' (by norm_num), by simp⟩

/-- What can be written with digits is not negative. -/
theorem HasDigits.nonneg (h : HasDigits k q) : 0 ≤ q := by
  obtain ⟨c, p, -, rfl⟩ := h
  exact mul_nonneg (Nat.cast_nonneg c) (tenZpow_pos p).le

/-- What can be written with some digits can be written with more. -/
theorem HasDigits.mono (h : HasDigits k q) (hkn : k ≤ n) : HasDigits n q := by
  obtain ⟨c, p, hc, rfl⟩ := h
  exact ⟨c, p, hc.trans_le (Nat.pow_le_pow_right (by norm_num) hkn), rfl⟩

/-- A positive number has no decimal of zero digits. -/
theorem HasDigits.pos (h : HasDigits k q) (hq : q ≠ 0) : 0 < k := by
  obtain ⟨c, p, hc, rfl⟩ := h
  rcases Nat.eq_zero_or_pos k with rfl | hk
  · have : c = 0 := by simpa using hc
    simp [this] at hq
  · exact hk

/-- A decimal of few digits whose leading digit counts a high power of ten lies on a coarse
grid. -/
theorem HasDigits.exists_grid (h : HasDigits k q) (hq : (10 : ℚ) ^ p ≤ q) :
    ∃ (c : ℕ) (e : ℤ), q = c * 10 ^ e ∧ p < e + k := by
  -- the decimal itself is the point, and its coefficient bounds how far down its grid lies
  obtain ⟨c, e, hc, rfl⟩ := h
  refine ⟨c, e, rfl, ?_⟩
  have hcQ : (c : ℚ) < 10 ^ (k : ℤ) := by
    rw [zpow_natCast]
    exact_mod_cast hc
  have hlt : (10 : ℚ) ^ p < 10 ^ (e + k) :=
    calc (10 : ℚ) ^ p ≤ c * 10 ^ e := hq
      _ < 10 ^ (k : ℤ) * 10 ^ e := mul_lt_mul_of_pos_right hcQ (tenZpow_pos e)
      _ = 10 ^ (e + k) := by rw [← tenZpow_add, add_comm]
  exact (zpow_lt_zpow_iff_right₀ (by norm_num)).1 hlt

/-- A point of a grid below a power of ten has as many digits as lie between the two. -/
theorem hasDigits_of_lt {c : ℕ} (hp : p' ≤ p + k) (hlt : (c : ℚ) * 10 ^ p < 10 ^ p') :
    HasDigits k (c * 10 ^ p) := by
  refine ⟨c, p, ?_, rfl⟩
  have h : (c : ℚ) * 10 ^ p < 10 ^ (k : ℤ) * 10 ^ p :=
    calc (c : ℚ) * 10 ^ p < 10 ^ p' := hlt
      _ ≤ 10 ^ (p + k) := tenZpow_le hp
      _ = 10 ^ (k : ℤ) * 10 ^ p := by rw [← tenZpow_add, add_comm]
  have hc := lt_of_mul_lt_mul_right h (tenZpow_pos p).le
  rw [zpow_natCast] at hc
  exact_mod_cast hc

end FourFunction
