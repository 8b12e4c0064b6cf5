import FourFunction.Binary64.Magnitude
import Mathlib.Order.Monotone.Basic
import Mathlib.Tactic.Ring

/-!
# Spacing of the magnitudes

The endless list of magnitudes, in units: an index is a number of whole binades and a significand,
and from one index to the next the size grows by the spacing of the binade. So the list is strictly
increasing, and every number lies in one *cell*, between an entry and the next one.

## Main results

* `unitsAt_add_mul_binade`: the size at a given exponent and significand, also for a significand
  that has just reached the next power of two;
* `unitsAt_succ`, `unitsAt_strictMono`: one step adds one spacing;
* `exists_unitsAt_le_lt`: the cell of a number.
-/

namespace FourFunction.Magnitude

variable {index exponent significand : ℕ}

theorem binade_eq : binade = 4503599627370496 := by decide

theorem limit_eq : limit = 9218868437227405312 := by decide

/-- An index is as many binades as its exponent says, and its significand. -/
theorem exponentAt_mul_add_significandAt (index : ℕ) :
    exponentAt index * binade + significandAt index = index := by
  simp only [significandAt, exponentAt, binade_eq]
  omega

/-- A significand has at most one bit more than the places of a binade. -/
theorem significandAt_lt (index : ℕ) : significandAt index < 2 * binade := by
  simp only [significandAt, exponentAt, binade_eq]
  omega

/-- A significand is at least one binade, except at the smallest exponent. -/
theorem exponentAt_eq_zero_or_le (index : ℕ) :
    exponentAt index = 0 ∨ binade ≤ significandAt index := by
  simp only [significandAt, exponentAt, binade_eq]
  omega

/-- An index and its significand have one parity, since a binade is even. -/
theorem significandAt_mod_two (index : ℕ) : significandAt index % 2 = index % 2 := by
  simp only [significandAt, exponentAt, binade_eq]
  omega

/-- The size at an exponent and a significand. A significand of two binades is the next power of
two, which the next exponent writes as one binade. -/
theorem unitsAt_add_mul_binade (hexp : exponent = 0 ∨ binade ≤ significand)
    (hsig : significand ≤ 2 * binade) :
    unitsAt (exponent * binade + significand) = significand * 2 ^ exponent := by
  change _ * 2 ^ _ = _
  rcases hsig.lt_or_eq with hlt | heq
  -- below two binades the exponent is the given one
  · have he : exponentAt (exponent * binade + significand) = exponent := by
      simp only [exponentAt, binade_eq] at *
      omega
    rw [significandAt, he, Nat.add_sub_cancel_left]
  -- at two binades it is the next one, and the significand is one binade again
  · have he : exponentAt (exponent * binade + significand) = exponent + 1 := by
      simp only [exponentAt, binade_eq] at *
      omega
    have hs : significandAt (exponent * binade + significand) = binade := by
      rw [significandAt, he, heq]
      simp only [binade_eq]
      omega
    rw [hs, he, heq, pow_succ]
    ring

/-- From one index to the next the size grows by the spacing there. -/
theorem unitsAt_succ (index : ℕ) : unitsAt (index + 1) = unitsAt index + 2 ^ exponentAt index := by
  have hsig : significandAt index + 1 ≤ 2 * binade := significandAt_lt index
  have hexp : exponentAt index = 0 ∨ binade ≤ significandAt index + 1 :=
    (exponentAt_eq_zero_or_le index).imp_right Nat.le_succ_of_le
  -- the next index has the same exponent and a significand that may just have filled up
  conv_lhs => rw [← exponentAt_mul_add_significandAt index, Nat.add_assoc]
  rw [unitsAt_add_mul_binade hexp hsig, Nat.add_mul, Nat.one_mul]
  rfl

/-- Magnitudes are in the order of their indices. -/
theorem unitsAt_strictMono : StrictMono unitsAt :=
  strictMono_nat_of_lt_succ fun index => by
    rw [unitsAt_succ]
    exact Nat.lt_add_of_pos_right (Nat.two_pow_pos _)

theorem unitsAt_zero : unitsAt 0 = 0 := unitsAt_eq_zero_iff.2 rfl

/-- Every number of units lies between an entry of the list and the next one. -/
theorem exists_unitsAt_le_lt (units : ℕ) :
    ∃ index, unitsAt index ≤ units ∧ units < unitsAt (index + 1) := by
  induction units with
  | zero => exact ⟨0, unitsAt_zero.le, unitsAt_zero ▸ unitsAt_strictMono Nat.zero_lt_one⟩
  | succ units ih =>
    obtain ⟨index, hlo, hhi⟩ := ih
    -- one unit more stays in the cell or enters the next one
    rcases Nat.lt_or_ge (units + 1) (unitsAt (index + 1)) with hlt | hge
    · exact ⟨index, by omega, hlt⟩
    · have hnext := unitsAt_strictMono (Nat.lt_add_one (index + 1))
      exact ⟨index + 1, hge, by omega⟩

end FourFunction.Magnitude
