import FourFunction.Proofs.Binary64.RoundsTo
import FourFunction.Proofs.Decimal.Faithful
import FourFunction.Proofs.Display
import Mathlib.Data.Nat.Digits.Lemmas
import Mathlib.Data.Nat.Factorization.Basic

/-!
# The shortest decimal of a double

Among all decimals that are rounded to a double, signs and zeros included, the shortest decimal has
the fewest significant digits, and no decimal with as many is nearer to the double. The search for
it works on magnitudes and grids; here nothing is left of either.

## Main results

* `Decimal.significantDigits_le_iff`: the digits that a decimal is written with are no more than its
  value needs;
* `Binary64.shortest?_fewest_digits`: exactly the finite doubles have a shortest decimal, and what
  makes it the shortest.
-/

namespace FourFunction

/-! ## Significant digits -/

/-- The number of digits of the coefficient, without the zeros at its end. Zero has none. -/
def Decimal.significantDigits (d : Decimal) : ℕ :=
  ((Nat.digits 10 d.coefficient.natAbs).dropWhile (· == 0)).length

section SignificantDigits

variable {d : Decimal} {k s t : ℕ} {p : ℤ}

theorem dropWhile_digits_eq_self (hs : ¬ 10 ∣ s) :
    (Nat.digits 10 s).dropWhile (· == 0) = Nat.digits 10 s := by
  have hpos : 0 < s := Nat.pos_of_ne_zero fun h => hs (h ▸ dvd_zero 10)
  rw [Nat.digits_def' (by norm_num) hpos, List.dropWhile_cons_of_neg]
  rwa [beq_iff_eq, ← Nat.dvd_iff_mod_eq_zero]

/-- Zeros at the end of the coefficient do not count. -/
theorem Decimal.significantDigits_eq (hs : ¬ 10 ∣ s) (hd : d.coefficient.natAbs = 10 ^ t * s) :
    d.significantDigits = (Nat.digits 10 s).length := by
  have hpos : 0 < s := Nat.pos_of_ne_zero fun h => hs (h ▸ dvd_zero 10)
  have hzeros : ∀ i ∈ List.replicate t 0, (i == 0) = true := fun i hi => by
    rw [List.eq_of_mem_replicate hi, beq_self_eq_true]
  rw [significantDigits, hd, Nat.digits_base_pow_mul (by norm_num) hpos,
    List.dropWhile_append_of_pos hzeros, dropWhile_digits_eq_self hs]

/-- A number whose last digit is no zero is not written with fewer digits than it has. -/
theorem hasDigits_mul_tenZpow_iff (hs : ¬ 10 ∣ s) : HasDigits k (s * 10 ^ p) ↔ s < 10 ^ k := by
  refine ⟨?_, fun h => ⟨s, p, h, rfl⟩⟩
  rintro ⟨c, e, hc, heq⟩
  rcases le_or_gt e p with hle | hlt
  -- on a finer grid the other coefficient is no smaller
  · obtain ⟨n, rfl⟩ := Int.exists_add_of_le hle
    rw [tenZpow_add, zpow_natCast, ← mul_assoc, mul_right_comm,
      mul_left_inj' (tenZpow_pos e).ne'] at heq
    have hcoeff : s * 10 ^ n = c := by exact_mod_cast heq
    exact (Nat.le_mul_of_pos_right s (by positivity)).trans_lt (hcoeff ▸ hc)
  -- on a coarser one the last digit would be a zero
  · obtain ⟨n, rfl⟩ := Int.exists_add_of_le (Int.add_one_le_of_lt hlt)
    rw [add_assoc, tenZpow_add, mul_comm ((10 : ℚ) ^ p), ← mul_assoc,
      mul_left_inj' (tenZpow_pos p).ne', tenZpow_add, zpow_one, zpow_natCast] at heq
    have hcoeff : s = c * (10 * 10 ^ n) := by exact_mod_cast heq
    exact absurd ⟨c * 10 ^ n, by rw [hcoeff]; ring⟩ hs

/-- The significant digits of a decimal are as few as its value can be written with. -/
theorem Decimal.significantDigits_le_iff :
    d.significantDigits ≤ k ↔ HasDigits k |d.toRat| := by
  rcases eq_or_ne d.coefficient.natAbs 0 with hzero | hne
  · rw [abs_toRat, hzero, Nat.cast_zero, zero_mul, significantDigits, hzero]
    simpa using hasDigits_zero k
  · obtain ⟨t, s, hs, hd⟩ := Nat.exists_eq_pow_mul_and_not_dvd hne 10 (by norm_num)
    have hvalue : |d.toRat| = s * 10 ^ (t + d.exponent) := by
      rw [abs_toRat, hd, tenZpow_add, zpow_natCast]
      push_cast
      ring
    rw [significantDigits_eq hs hd, Nat.digits_length_le_iff (by norm_num), hvalue,
      hasDigits_mul_tenZpow_iff hs]

/-- Decimals of one value have equally many significant digits. -/
theorem Decimal.significantDigits_eq_of_toRat_eq {e : Decimal} (h : d.toRat = e.toRat) :
    d.significantDigits = e.significantDigits := by
  refine le_antisymm ?_ ?_
  · rw [significantDigits_le_iff, h, ← significantDigits_le_iff]
  · rw [significantDigits_le_iff, ← h, ← significantDigits_le_iff]

end SignificantDigits

/-! ## Fewest digits, then nearest -/

namespace Binary64

variable {negative : Bool} {m : Magnitude}

/-- Of the decimals that are rounded to the double, `d` has the fewest significant digits, and none
with as many is nearer to the double. -/
structure IsShortestFor (negative : Bool) (m : Magnitude) (d : Decimal) : Prop where
  eq_zero_iff : d.toRat = 0 ↔ m = .zero
  neg_iff : m ≠ .zero → (d.toRat < 0 ↔ negative = true)
  roundsTo : RoundsTo d.toRat (finite negative m)
  fewest : ∀ e : Decimal, RoundsTo e.toRat (finite negative m) →
    d.significantDigits ≤ e.significantDigits
  nearest : ∀ e : Decimal, RoundsTo e.toRat (finite negative m) →
    e.significantDigits = d.significantDigits →
      |d.toRat - signedRat negative m| ≤ |e.toRat - signedRat negative m|

theorem abs_toRat_signedShortest (negative : Bool) (m : Magnitude) :
    |(signedShortest negative m).toRat| = m.shortest.toRat := by
  rw [toRat_signedShortest]
  split
  · rw [abs_neg, abs_of_nonneg m.shortest_nonneg]
  · exact abs_of_nonneg m.shortest_nonneg

theorem toRat_signedShortest_neg_iff (hm : m ≠ .zero) :
    (signedShortest negative m).toRat < 0 ↔ negative = true := by
  have hpos : 0 < m.shortest.toRat :=
    lt_of_le_of_ne m.shortest_nonneg fun h => hm (Magnitude.toRat_shortest_eq_zero_iff.1 h.symm)
  rw [toRat_signedShortest]
  split
  · next h => exact iff_of_true (neg_neg_of_pos hpos) h
  · next h => exact iff_of_false hpos.le.not_gt h

/-- The shortest decimal of the magnitude, with the sign of the double, is the shortest decimal of
the double. -/
theorem isShortestFor_signedShortest (negative : Bool) (m : Magnitude) :
    IsShortestFor negative m (signedShortest negative m) := by
  have hshortest := m.isShortest_shortest
  rw [← abs_toRat_signedShortest negative m] at hshortest
  have hsign : m = .zero ∨ negative = decide ((signedShortest negative m).toRat < 0) := by
    refine or_iff_not_imp_left.2 fun hm => ?_
    rw [Bool.eq_iff_iff, decide_eq_true_iff, toRat_signedShortest_neg_iff hm]
  refine ⟨?_, toRat_signedShortest_neg_iff, ?_, fun e he => ?_, fun e he hdigits => ?_⟩
  · rw [← abs_eq_zero, abs_toRat_signedShortest, Magnitude.toRat_shortest_eq_zero_iff]
  · exact roundsTo_finite_iff.2 ⟨hshortest.reads, hsign⟩
  · have hread := (roundsTo_finite_iff.1 he).1
    rw [Decimal.significantDigits_le_iff]
    exact hshortest.fewest _ _ hread (Decimal.significantDigits_le_iff.1 le_rfl)
  · have hread := (roundsTo_finite_iff.1 he).1
    -- with the signs alike, the distances are those of the sizes
    rw [abs_sub_signedRat_eq_iff_of_ofRat? hshortest.reads |>.2 hsign]
    refine (hshortest.precedes _ hread (abs_nonneg _) fun k hk => ?_).abs_le.trans
      (abs_abs_sub_le _ negative m)
    rwa [← Decimal.significantDigits_le_iff, hdigits, Decimal.significantDigits_le_iff]

/-- Of the decimals of one value, each is the shortest one if any is. -/
theorem IsShortestFor.of_toRat_eq {d e : Decimal} (hd : IsShortestFor negative m d)
    (h : e.toRat = d.toRat) : IsShortestFor negative m e := by
  obtain ⟨hzero, hneg, hrounds, hfewest, hnearest⟩ := hd
  have hdigits := Decimal.significantDigits_eq_of_toRat_eq h
  rw [← hdigits] at hfewest hnearest
  rw [← h] at hzero hneg hrounds hnearest
  exact ⟨hzero, hneg, hrounds, hfewest, hnearest⟩

/-- A finite double has a shortest decimal: an exact decimal of its sign that is rounded to it, with
the fewest digits of all such decimals, and the nearest of those with as few. Infinities and NaN
have none. -/
theorem shortest?_fewest_digits :
    (∀ negative m, ∃ d : Decimal, (finite negative m).shortest? = some d ∧
        d.toRat = d.coefficient * (10 : ℚ) ^ d.exponent ∧ IsShortestFor negative m d) ∧
      ∀ x : Binary64, x.isFinite = false → x.shortest? = none := by
  refine ⟨fun negative m => ?_, fun x hx => ?_⟩
  · obtain ⟨d, hd, hvalue⟩ := exists_shortest?_eq negative m
    exact ⟨d, hd, d.toRat_eq, (isShortestFor_signedShortest negative m).of_toRat_eq hvalue⟩
  · rw [← Option.not_isSome_iff_eq_none, isSome_shortest?, hx]
    exact Bool.false_ne_true

/-- Three to seven units of the last place are all rounded to the smallest double, and five are the
nearest to it. -/
theorem shortest?_fewest_digits_smallest :
    IsShortestFor false ⟨1, by decide⟩ ⟨5, -324⟩ ∧ nan.shortest? = none := by
  have hfive : (finite false ⟨1, by decide⟩).shortest? = some ⟨5, -324⟩ := by decide +kernel
  obtain ⟨hfinite, hnone⟩ := shortest?_fewest_digits
  obtain ⟨d, hd, -, hshortest⟩ := hfinite false ⟨1, by decide⟩
  obtain rfl : d = ⟨5, -324⟩ := Option.some.inj (hd.symm.trans hfive)
  exact ⟨hshortest, hnone nan rfl⟩

end Binary64

end FourFunction
