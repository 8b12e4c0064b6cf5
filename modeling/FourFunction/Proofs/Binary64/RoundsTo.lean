import FourFunction.Proofs.Binary64.Spread

/-!
# Rounding as a property of its result

What a rational number is rounded to, said without the search for it: of all finite doubles a
nearest one, and of two equally near ones the one whose significand is even. A number of
`2 ^ 1024 - 2 ^ 970` or more in size lies half a spacing or more past the largest finite double, and
goes to an infinity.

## Main results

* `Magnitude.ofRat?_eq_some_iff_isNearest`: the magnitude that a number without a sign is rounded to;
* `Binary64.roundsTo_finite_iff`: the finite double that a number is rounded to;
* `Binary64.roundsTo_round`: rounding gives such a double;
* `Binary64.round_eq_infinity_iff`, `Binary64.round_eq_finite_zero_iff`: where infinity begins and
  zero ends.
-/

namespace FourFunction

namespace Magnitude

variable {m k : Magnitude} {q : ℚ} {index : ℕ}

/-! ## Ties -/

/-- A number as near to another entry as to the one it is rounded to lies halfway between them. -/
theorem two_mul_eq_add_of_tie (hne : index ≠ nearestIndex q)
    (htie : |q * unitsPerOne - unitsAt index| = |q * unitsPerOne - unitsAt (nearestIndex q)|) :
    2 * (q * unitsPerOne) = unitsAt index + unitsAt (nearestIndex q) := by
  rcases abs_eq_abs.1 htie with h | h
  · have hunits : unitsAt index = unitsAt (nearestIndex q) := by
      exact_mod_cast sub_right_injective h
    exact absurd (unitsAt_strictMono.injective hunits) hne
  · linarith

/-- An entry as near as the one rounded to is a neighbour of it, and the one rounded to is even. -/
theorem even_of_tie (hq : 0 ≤ q) (hne : index ≠ nearestIndex q)
    (htie : |q * unitsPerOne - unitsAt index| = |q * unitsPerOne - unitsAt (nearestIndex q)|) :
    nearestIndex q % 2 = 0 ∧ index % 2 = 1 := by
  have hhalf := two_mul_eq_add_of_tie hne htie
  rcases hne.lt_or_gt with hlt | hgt
  -- an entry below is the one next to it, or the midpoint there would not have been passed
  · obtain ⟨j, hj⟩ : ∃ j, nearestIndex q = j + 1 := ⟨nearestIndex q - 1, by omega⟩
    have hmid := midpoint_le_of_lt_nearestIndex hq (show j < nearestIndex q by omega)
    rw [hj] at hhalf
    have hle : unitsAt j ≤ unitsAt index := by
      rw [midpoint] at hmid
      exact_mod_cast show (unitsAt j : ℚ) ≤ unitsAt index by linarith
    obtain rfl : index = j := le_antisymm (by omega) (unitsAt_strictMono.le_iff_le.1 hle)
    have hodd : ¬ index % 2 = 0 := by
      intro heven
      have := (nearestIndex_le_iff hq).2 (Or.inr ⟨by rw [midpoint]; linarith, heven⟩)
      omega
    omega
  · have hmid := le_midpoint_of_nearestIndex_le hq (le_refl (nearestIndex q))
    have hle : unitsAt index ≤ unitsAt (nearestIndex q + 1) := by
      rw [midpoint] at hmid
      exact_mod_cast show (unitsAt index : ℚ) ≤ unitsAt (nearestIndex q + 1) by linarith
    obtain rfl : index = nearestIndex q + 1 :=
      le_antisymm (unitsAt_strictMono.le_iff_le.1 hle) (by omega)
    -- at the midpoint itself only the even index is not left
    rcases (nearestIndex_le_iff hq).1 (le_refl (nearestIndex q)) with h | ⟨-, heven⟩
    · rw [midpoint] at h
      linarith
    · omega

/-! ## The nearest magnitude -/

/-- No magnitude is nearer to `q` than `m`, and if another one is as near, the significand of `m` is
even. -/
structure IsNearest (q : ℚ) (m : Magnitude) : Prop where
  nearest : ∀ k : Magnitude, |q - m.toRat| ≤ |q - k.toRat|
  tie : ∀ k : Magnitude, k ≠ m → |q - k.toRat| = |q - m.toRat| → significandAt m.index % 2 = 0

/-- Distances compare alike in units. -/
theorem abs_sub_toRat_le_iff :
    |q - m.toRat| ≤ |q - k.toRat| ↔
      |q * unitsPerOne - unitsAt m.index| ≤ |q * unitsPerOne - unitsAt k.index| := by
  rw [abs_sub_toRat_mul_unitsPerOne, abs_sub_toRat_mul_unitsPerOne,
    mul_le_mul_iff_of_pos_right unitsPerOne_pos]

theorem toRat_injective : Function.Injective toRat := by
  intro m k h
  have hunits := congrArg (· * (unitsPerOne : ℚ)) h
  simp only [toRat_mul_unitsPerOne, Nat.cast_inj] at hunits
  exact Magnitude.ext (unitsAt_strictMono.injective hunits)

theorem abs_sub_toRat_eq_iff :
    |q - m.toRat| = |q - k.toRat| ↔
      |q * unitsPerOne - unitsAt m.index| = |q * unitsPerOne - unitsAt k.index| := by
  rw [abs_sub_toRat_mul_unitsPerOne, abs_sub_toRat_mul_unitsPerOne,
    mul_left_inj' unitsPerOne_pos.ne']

/-- The magnitude that a number is rounded to is the nearest one. -/
theorem isNearest_of_nearestIndex (hq : 0 ≤ q) (h : nearestIndex q = m.index) : IsNearest q m where
  nearest k := by
    rw [abs_sub_toRat_le_iff, ← h]
    exact abs_sub_unitsAt_nearestIndex_le hq k.index
  tie k hne heq := by
    rw [abs_sub_toRat_eq_iff, ← h] at heq
    rw [significandAt_mod_two, ← h]
    exact (even_of_tie hq (fun hk => hne (Magnitude.ext (hk.trans h))) heq).1

/-- The nearest magnitude is the one that the number is rounded to, unless that is past the last
one. -/
theorem IsNearest.nearestIndex_eq (h : IsNearest q m) (hq : 0 ≤ q) (hlt : nearestIndex q < limit) :
    nearestIndex q = m.index := by
  have hk := isNearest_of_nearestIndex hq (m := ⟨nearestIndex q, hlt⟩) rfl
  by_contra hne
  -- two nearest magnitudes would both be even, but they are neighbours
  have htie : |q - m.toRat| = |q - toRat ⟨nearestIndex q, hlt⟩| :=
    le_antisymm (h.nearest _) (hk.nearest m)
  have heven := h.tie ⟨nearestIndex q, hlt⟩ (fun hm => hne (congrArg index hm)) htie.symm
  rw [significandAt_mod_two] at heven
  rw [abs_sub_toRat_eq_iff] at htie
  have hodd := (even_of_tie hq (fun hm => hne hm.symm) htie).2
  omega

/-! ## Past the last magnitude, and down to zero -/

/-- The midpoint past the largest finite magnitude. -/
theorem midpoint_pred_limit :
    midpoint (limit - 1) = ((2 : ℚ) ^ 1024 - 2 ^ 970) * unitsPerOne := by
  have hlimit : limit - 1 + 1 = (1023 + 1024) * binade := by
    rw [limit_eq, binade_eq]
  have hexp : exponentAt (limit - 1) = 2045 := by
    rw [exponentAt, limit_eq, binade_eq]
  rw [midpoint_eq_sub, hlimit, ← two_pow_mul_unitsPerOne, hexp, sub_mul, unitsPerOne_cast,
    ← pow_add 2 970]
  -- half the last spacing
  congr 1
  rw [div_eq_iff two_ne_zero, ← pow_succ]

/-- Numbers past the midpoint above the largest finite magnitude overflow, and the midpoint does. -/
theorem limit_le_nearestIndex_iff (hq : 0 ≤ q) :
    limit ≤ nearestIndex q ↔ 2 ^ 1024 - 2 ^ 970 ≤ q := by
  have hodd : (limit - 1) % 2 ≠ 0 := by rw [limit_eq]; decide
  have hpos : 0 < limit := by rw [limit_eq]; decide
  have hlast : limit ≤ nearestIndex q ↔ ¬ nearestIndex q ≤ limit - 1 := by omega
  rw [hlast, nearestIndex_le_iff hq, midpoint_pred_limit, mul_lt_mul_iff_of_pos_right unitsPerOne_pos]
  simp only [hodd, and_false, or_false, not_lt]

/-- Half a unit is two to the minus 1075th. -/
theorem nearestIndex_eq_zero_iff (hq : 0 ≤ q) : nearestIndex q = 0 ↔ q ≤ 2 ^ (-1075 : ℤ) := by
  have hmid : midpoint 0 = (2 : ℚ) ^ (-1075 : ℤ) * unitsPerOne := by
    have hone : unitsAt 1 = 1 := by decide
    rw [midpoint, unitsAt_zero, Nat.zero_add, hone, unitsPerOne_cast, ← zpow_natCast,
      ← zpow_add₀ two_ne_zero]
    norm_num
  rw [← Nat.le_zero, nearestIndex_le_iff hq, hmid, mul_lt_mul_iff_of_pos_right unitsPerOne_pos,
    mul_left_inj' unitsPerOne_pos.ne', le_iff_lt_or_eq]
  simp only [Nat.zero_mod, and_true]

/-- The magnitude that a number is rounded to, as a property of it. -/
theorem ofRat?_eq_some_iff_isNearest (hq : 0 ≤ q) :
    ofRat? q = some m ↔ q < 2 ^ 1024 - 2 ^ 970 ∧ IsNearest q m := by
  rw [ofRat?_eq_some_iff, ← not_le, ← limit_le_nearestIndex_iff hq, not_le]
  constructor
  · intro h
    exact ⟨h ▸ m.index_lt, isNearest_of_nearestIndex hq h⟩
  · rintro ⟨hlt, h⟩
    exact h.nearestIndex_eq hq hlt

end Magnitude

namespace Binary64

variable {q : ℚ} {x : Binary64} {negative : Bool} {m : Magnitude}

/-! ## Doubles -/

/-- The double is what `q` is rounded to: no finite double is nearer, and if one of another value is
as near, the significand is even. From the midpoint past the largest finite double onwards it is an
infinity. The sign of a zero is left open. -/
def RoundsTo (q : ℚ) : Binary64 → Prop
  | finite negative m =>
    |q| < 2 ^ 1024 - 2 ^ 970 ∧
      (∀ n k, |q - signedRat negative m| ≤ |q - signedRat n k|) ∧
      ∀ n k, signedRat n k ≠ signedRat negative m →
        |q - signedRat n k| = |q - signedRat negative m| →
          Magnitude.significandAt m.index % 2 = 0
  | infinity negative => 2 ^ 1024 - 2 ^ 970 ≤ |q| ∧ (negative = true ↔ q < 0)
  | nan => False

theorem signedRat_zero (negative : Bool) : signedRat negative .zero = 0 := by
  rw [signedRat, Magnitude.toRat_eq_zero_iff.2 rfl, neg_zero, ite_self]

/-- With the sign of the number the distance is that of the sizes, with the other sign it is their
sum. -/
theorem abs_sub_signedRat (q : ℚ) (negative : Bool) (m : Magnitude) :
    |q - signedRat negative m| =
      if negative = decide (q < 0) then |(|q| - m.toRat)| else |q| + m.toRat := by
  have hm := m.toRat_nonneg
  unfold signedRat
  -- nothing hangs on the magnitude, and its value would be evaluated
  generalize m.toRat = size at hm
  rcases lt_or_ge q 0 with hq | hq
  · rw [abs_of_neg hq, decide_eq_true hq]
    cases negative
    · rw [if_neg (by decide), if_neg (by decide), abs_of_neg (by linarith)]
      ring
    · rw [if_pos rfl, if_pos rfl, ← abs_neg]
      congr 1
      ring
  · rw [abs_of_nonneg hq, decide_eq_false (not_lt.2 hq)]
    cases negative
    · rw [if_neg (by decide), if_pos rfl]
    · rw [if_pos rfl, if_neg (by decide), sub_neg_eq_add, abs_of_nonneg (by linarith)]

/-- No sign makes the distance less than that of the sizes. -/
theorem abs_abs_sub_le (q : ℚ) (negative : Bool) (m : Magnitude) :
    |(|q| - m.toRat)| ≤ |q - signedRat negative m| := by
  rw [← abs_signedRat_eq negative m]
  exact abs_abs_sub_abs_le q (signedRat negative m)

/-- The distance is that of the sizes exactly if the signs agree, or there is none on one side. -/
theorem abs_sub_signedRat_eq_iff :
    |q - signedRat negative m| = |(|q| - m.toRat)| ↔
      m = .zero ∨ q = 0 ∨ negative = decide (q < 0) := by
  rw [abs_sub_signedRat, ← Magnitude.toRat_eq_zero_iff, ← abs_eq_zero (a := q)]
  have hq := abs_nonneg q
  have hm := m.toRat_nonneg
  generalize m.toRat = size at hm
  generalize |q| = a at hq
  split_ifs with hsign
  · simp only [hsign, or_true]
  -- a sum of sizes is as small as their difference only if one of them is zero
  · rw [or_iff_left hsign]
    constructor
    · intro h
      rcases le_total size a with hle | hle
      · rw [abs_of_nonneg (by linarith)] at h
        exact Or.inl (by linarith)
      · rw [abs_of_nonpos (by linarith)] at h
        exact Or.inr (by linarith)
    · rintro (h | h)
      · rw [h, sub_zero, add_zero, abs_of_nonneg hq]
      · rw [h, zero_sub, zero_add, abs_neg, abs_of_nonneg hm]

/-- Of a number whose size is rounded to the magnitude, only zero has no sign to speak of. -/
theorem abs_sub_signedRat_eq_iff_of_ofRat? (h : Magnitude.ofRat? |q| = some m) :
    |q - signedRat negative m| = |(|q| - m.toRat)| ↔
      m = .zero ∨ negative = decide (q < 0) := by
  have hzero : q = 0 → m = .zero := by
    rintro rfl
    rw [abs_zero, Magnitude.ofRat?_eq_some_iff, Magnitude.nearestIndex_zero] at h
    exact Magnitude.ext h.symm
  rw [abs_sub_signedRat_eq_iff]
  tauto

/-- With the sign of the number every distance is that of the sizes. -/
theorem abs_sub_signedRat_decide (q : ℚ) (k : Magnitude) :
    |q - signedRat (decide (q < 0)) k| = |(|q| - k.toRat)| :=
  abs_sub_signedRat_eq_iff.2 (Or.inr (Or.inr rfl))

/-- The size of a number that is rounded to a finite double is rounded to its magnitude, and no sign
makes the two any nearer. -/
theorem RoundsTo.ofRat?_abs (h : RoundsTo q (finite negative m)) :
    Magnitude.ofRat? |q| = some m ∧ |q - signedRat negative m| = |(|q| - m.toRat)| := by
  obtain ⟨hlt, hnearest, htie⟩ := h
  -- the double is as near as its magnitude with the sign of the number
  have hdist : |q - signedRat negative m| = |(|q| - m.toRat)| :=
    le_antisymm ((hnearest _ m).trans (abs_sub_signedRat_decide q m).le)
      (abs_abs_sub_le q negative m)
  refine ⟨?_, hdist⟩
  rw [Magnitude.ofRat?_eq_some_iff_isNearest (abs_nonneg q)]
  refine ⟨hlt, fun k => ?_, fun k hne heq => ?_⟩
  · rw [← hdist, ← abs_sub_signedRat_decide q k]
    exact hnearest _ k
  · have hvalue : signedRat (decide (q < 0)) k ≠ signedRat negative m := by
      intro hval
      have habs := congrArg abs hval
      rw [abs_signedRat_eq, abs_signedRat_eq] at habs
      exact hne (Magnitude.toRat_injective habs)
    exact htie _ k hvalue (by rw [abs_sub_signedRat_decide, heq, hdist])

/-- A double of the right magnitude is the nearest one, unless it has the wrong sign. -/
theorem roundsTo_of_ofRat?_abs (hread : Magnitude.ofRat? |q| = some m)
    (hsign : m = .zero ∨ negative = decide (q < 0)) : RoundsTo q (finite negative m) := by
  have hdist := (abs_sub_signedRat_eq_iff_of_ofRat? hread).2 hsign
  obtain ⟨hlt, hnearest, htie⟩ :=
    (Magnitude.ofRat?_eq_some_iff_isNearest (abs_nonneg q)).1 hread
  refine ⟨hlt, fun n k => ?_, fun n k hne heq => ?_⟩
  · rw [hdist]
    exact (hnearest k).trans (abs_abs_sub_le q n k)
  · rw [hdist] at heq
    have hsize : |(|q| - k.toRat)| = |(|q| - m.toRat)| :=
      le_antisymm ((abs_abs_sub_le q n k).trans heq.le) (hnearest k)
    refine htie k ?_ hsize
    -- the same magnitude is as near with the same sign only
    rintro rfl
    refine hne ?_
    rcases (abs_sub_signedRat_eq_iff_of_ofRat? hread).1 heq with rfl | rfl
    · rw [signedRat_zero, signedRat_zero]
    · rcases hsign with rfl | rfl
      · rw [signedRat_zero, signedRat_zero]
      · rfl

/-- A number is rounded to a finite double exactly if its size is rounded to that double's
magnitude, and its sign is the double's unless that is a zero. -/
theorem roundsTo_finite_iff :
    RoundsTo q (finite negative m) ↔
      Magnitude.ofRat? |q| = some m ∧ (m = .zero ∨ negative = decide (q < 0)) := by
  constructor
  · intro h
    obtain ⟨hread, hdist⟩ := h.ofRat?_abs
    exact ⟨hread, (abs_sub_signedRat_eq_iff_of_ofRat? hread).1 hdist⟩
  · rintro ⟨hread, hsign⟩
    exact roundsTo_of_ofRat?_abs hread hsign

/-! ## Numbers without a sign -/

theorem round_eq_infinity_iff (hq : 0 ≤ q) :
    round negative q = infinity negative ↔ 2 ^ 1024 - 2 ^ 970 ≤ q := by
  rw [← Magnitude.limit_le_nearestIndex_iff hq, ← Magnitude.ofRat?_eq_none_iff, round]
  cases Magnitude.ofRat? q <;> simp

theorem round_eq_finite_zero_iff (hq : 0 ≤ q) :
    round negative q = finite negative .zero ↔ q ≤ 2 ^ (-1075 : ℤ) := by
  rw [round_eq_finite_iff, Magnitude.ofRat?_eq_some_iff, ← Magnitude.nearestIndex_eq_zero_iff hq]
  rfl

/-- Rounding gives the nearest double. -/
theorem roundsTo_round (hq : 0 ≤ q) : RoundsTo q (round false q) := by
  cases hread : Magnitude.ofRat? q with
  | none =>
    have hlarge : 2 ^ 1024 - 2 ^ 970 ≤ q := by
      rwa [Magnitude.ofRat?_eq_none_iff, Magnitude.limit_le_nearestIndex_iff hq] at hread
    rw [(round_eq_infinity_iff hq).2 hlarge]
    exact ⟨by rwa [abs_of_nonneg hq], iff_of_false Bool.false_ne_true hq.not_gt⟩
  | some m =>
    rw [round_eq_finite_iff.2 hread, roundsTo_finite_iff, abs_of_nonneg hq]
    exact ⟨hread, Or.inr (decide_eq_false hq.not_gt).symm⟩

/-- The sign bit is clear. -/
theorem toNat_toBits_round_lt (q : ℚ) : (round false q).toBits.toNat < signWeight := by
  have hweight : signWeight = 9223372036854775808 := by decide
  rw [round]
  cases Magnitude.ofRat? q with
  | none => decide
  | some m =>
    have hm := m.index_lt
    rw [Magnitude.limit_eq] at hm
    rw [Option.elim_some, toBits, if_neg Bool.false_ne_true, UInt64.toNat_ofNat', hweight]
    omega

end Binary64

end FourFunction
