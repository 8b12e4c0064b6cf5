import FourFunction.Binary64.Basic
import FourFunction.Proofs.Binary64.Spacing
import FourFunction.Proofs.Rounding

/-!
# Rounding to the nearest magnitude

Rounding on the endless list of magnitudes is a step function: it moves from one index to the next
at the midpoint of the two entries, and at the midpoint itself the even index has it
(`nearestIndex_le_iff`). Order, exactness on the entries and nearness follow from that alone.

## Main results

* `nearestIndex_le_iff`: where rounding steps from one index to the next;
* `nearestIndex_mono`, `nearestIndex_toRat`: rounding keeps the order, and every magnitude is
  rounded to itself;
* `abs_sub_unitsAt_nearestIndex_le`: no entry of the list is nearer than the one rounded to.
-/

namespace FourFunction.Magnitude

variable {index : ℕ} {q r : ℚ}

/-- The midpoint of an entry and the next one, in units. -/
def midpoint (index : ℕ) : ℚ := ((unitsAt index : ℚ) + unitsAt (index + 1)) / 2

theorem unitsAt_cast_lt_succ (index : ℕ) : (unitsAt index : ℚ) < unitsAt (index + 1) := by
  exact_mod_cast unitsAt_strictMono (Nat.lt_add_one index)

/-- The middle between two neighbours is above the lower one. -/
theorem unitsAt_lt_midpoint (index : ℕ) : (unitsAt index : ℚ) < midpoint index := by
  have := unitsAt_cast_lt_succ index
  rw [midpoint]
  linarith

theorem midpoint_lt_unitsAt_succ (index : ℕ) : midpoint index < unitsAt (index + 1) := by
  have := unitsAt_cast_lt_succ index
  rw [midpoint]
  linarith

theorem unitsPerOne_pos : (0 : ℚ) < unitsPerOne := by
  unfold unitsPerOne
  generalize 1074 = k
  exact Nat.cast_pos.2 (Nat.two_pow_pos k)

/-- Throughout a cell the exponent is that of its lower entry. -/
theorem log2_floor_sub_of_cell (hlo : (unitsAt index : ℚ) ≤ q) (hhi : q < unitsAt (index + 1)) :
    ⌊q⌋.toNat.log2 - 52 = exponentAt index := by
  have hlo' : unitsAt index ≤ ⌊q⌋.toNat := by
    have h : (unitsAt index : ℤ) ≤ ⌊q⌋ := Int.le_floor.2 (by exact_mod_cast hlo)
    omega
  have hhi' : ⌊q⌋.toNat < unitsAt (index + 1) := by
    have h : ⌊q⌋ < (unitsAt (index + 1) : ℤ) := Int.floor_lt.2 (by exact_mod_cast hhi)
    have := unitsAt_strictMono (Nat.lt_add_one index)
    omega
  -- from here on only the whole number of units counts
  generalize ⌊q⌋.toNat = n at hlo' hhi'
  have hbinade : binade = 2 ^ 52 := rfl
  have hlt : n < 2 ^ (exponentAt index + 53) := by
    have hsig := significandAt_lt index
    calc n < unitsAt (index + 1) := hhi'
      _ = (significandAt index + 1) * 2 ^ exponentAt index := by
        rw [unitsAt_succ, Nat.add_mul, Nat.one_mul]; rfl
      _ ≤ (2 * binade) * 2 ^ exponentAt index := Nat.mul_le_mul_right _ (by omega)
      _ = 2 ^ (exponentAt index + 53) := by rw [hbinade, pow_add]; ring
  rcases Nat.eq_zero_or_pos n with rfl | hn
  -- zero has no logarithm, and its cell is the first one
  · rcases exponentAt_eq_zero_or_le index with he | hsig
    · simp [he]
    · have h0 : unitsAt index = 0 := by omega
      rw [unitsAt_eq_zero_iff] at h0
      subst h0
      rfl
  have hlog : n.log2 < exponentAt index + 53 := (Nat.log2_lt hn.ne').2 hlt
  rcases exponentAt_eq_zero_or_le index with he | hsig
  · omega
  -- past the first binade the significand has its leading bit, which bounds the logarithm below
  · have hge : 2 ^ (exponentAt index + 52) ≤ n :=
      calc 2 ^ (exponentAt index + 52) = binade * 2 ^ exponentAt index := by
            rw [hbinade, pow_add]; ring
        _ ≤ significandAt index * 2 ^ exponentAt index := Nat.mul_le_mul_right _ hsig
        _ ≤ n := hlo'
    have := (Nat.le_log2 hn.ne').2 hge
    omega

/-- Rounding to the even one of the two integers beside a number is rounding at their midpoint. -/
theorem nearestInt_toEven_of_between {s : ℕ} (hlo : (s : ℚ) ≤ q) (hhi : q < s + 1) :
    (nearestInt .toEven q).toNat =
      if q < s + 1 / 2 ∨ q = s + 1 / 2 ∧ s % 2 = 0 then s else s + 1 := by
  rcases lt_trichotomy q (s + 1 / 2) with hlt | heq | hgt
  · have h : nearestInt .toEven q = (s : ℤ) :=
      nearestInt_of_abs_sub_lt _ (by push_cast; rw [abs_lt]; constructor <;> linarith)
    rw [if_pos (.inl hlt), h, Int.toNat_natCast]
  -- a tie: the even one of the two neighbours is the lower or the upper one
  · rcases Nat.mod_two_eq_zero_or_one s with heven | hodd
    · have h : nearestInt .toEven q = (s : ℤ) :=
        nearestInt_toEven_of_tie (by omega)
          (by push_cast; rw [heq, abs_of_nonneg (by linarith)]; ring)
      rw [if_pos (.inr ⟨heq, heven⟩), h, Int.toNat_natCast]
    · have h : nearestInt .toEven q = ((s + 1 : ℕ) : ℤ) :=
        nearestInt_toEven_of_tie (by omega)
          (by push_cast; rw [heq, abs_of_nonpos (by linarith)]; ring)
      rw [if_neg (by rintro (h | ⟨-, h⟩) <;> [linarith; omega]), h, Int.toNat_natCast]
  · have h : nearestInt .toEven q = ((s + 1 : ℕ) : ℤ) :=
      nearestInt_of_abs_sub_lt _ (by push_cast; rw [abs_lt]; constructor <;> linarith)
    rw [if_neg (by rintro (h | ⟨h, -⟩) <;> linarith), h, Int.toNat_natCast]

/-- Within a cell rounding chooses between the two entries: the lower one before the midpoint, the
upper one after it, the even one at it. -/
theorem nearestIndex_of_cell (hlo : (unitsAt index : ℚ) ≤ q * unitsPerOne)
    (hhi : q * unitsPerOne < unitsAt (index + 1)) :
    nearestIndex q =
      if q * unitsPerOne < midpoint index ∨ q * unitsPerOne = midpoint index ∧ index % 2 = 0
      then index else index + 1 := by
  have hexp := log2_floor_sub_of_cell hlo hhi
  change (q * (unitsPerOne : ℚ)).floor.toNat.log2 - 52 = exponentAt index at hexp
  -- counted in spacings, the cell is the one between the significand and its successor
  have hpos : (0 : ℚ) < 2 ^ exponentAt index := by positivity
  have hlower : (unitsAt index : ℚ) = significandAt index * 2 ^ exponentAt index := by
    exact_mod_cast show unitsAt index = significandAt index * 2 ^ exponentAt index from rfl
  have hupper : (unitsAt (index + 1) : ℚ) = (significandAt index + 1) * 2 ^ exponentAt index := by
    rw [unitsAt_succ]
    push_cast
    rw [hlower]
    ring
  have hmid : midpoint index = (significandAt index + 1 / 2) * 2 ^ exponentAt index := by
    rw [midpoint, hlower, hupper]
    ring
  obtain ⟨t, ht⟩ : ∃ t, q * unitsPerOne = t * 2 ^ exponentAt index :=
    ⟨q * unitsPerOne / 2 ^ exponentAt index, (div_mul_cancel₀ _ hpos.ne').symm⟩
  have hindex : nearestIndex q =
      exponentAt index * binade + (nearestInt .toEven t).toNat := by
    unfold nearestIndex
    simp only [hexp]
    congr 3
    change q * unitsPerOne / ((2 ^ exponentAt index : ℕ) : ℚ) = t
    rw [ht]
    push_cast
    exact mul_div_cancel_right₀ _ hpos.ne'
  -- the spacing cancels, and the parity of the significand is that of the index
  rw [ht, hlower, mul_le_mul_iff_left₀ hpos] at hlo
  rw [ht, hupper, mul_lt_mul_iff_left₀ hpos] at hhi
  rw [hindex, nearestInt_toEven_of_between hlo hhi, hmid, ht]
  simp only [mul_lt_mul_iff_left₀ hpos, mul_left_inj' hpos.ne', significandAt_mod_two]
  have hsum := exponentAt_mul_add_significandAt index
  split_ifs <;> omega

/-- The cell of a nonnegative number. -/
theorem exists_cell (hq : 0 ≤ q) :
    ∃ index, (unitsAt index : ℚ) ≤ q ∧ q < unitsAt (index + 1) := by
  obtain ⟨index, hlo, hhi⟩ := exists_unitsAt_le_lt ⌊q⌋.toNat
  have hfloor : ((⌊q⌋.toNat : ℕ) : ℤ) = ⌊q⌋ := Int.toNat_of_nonneg (Int.floor_nonneg.2 hq)
  refine ⟨index, ?_, ?_⟩
  · have h : ((unitsAt index : ℕ) : ℤ) ≤ ⌊q⌋ := by omega
    exact_mod_cast Int.le_floor.1 h
  · have h : ⌊q⌋ < ((unitsAt (index + 1) : ℕ) : ℤ) := by omega
    exact_mod_cast Int.floor_lt.1 h

/-- Where rounding steps from one index to the next: at the midpoint of the two entries, which
itself goes to the even index. -/
theorem nearestIndex_le_iff (hq : 0 ≤ q) :
    nearestIndex q ≤ index ↔
      q * unitsPerOne < midpoint index ∨ q * unitsPerOne = midpoint index ∧ index % 2 = 0 := by
  obtain ⟨cell, hlo, hhi⟩ := exists_cell (mul_nonneg hq unitsPerOne_pos.le)
  have hround := nearestIndex_of_cell hlo hhi
  rcases lt_trichotomy index cell with hlt | rfl | hgt
  -- the index lies below the cell, and its midpoint too
  · have hle : (unitsAt (index + 1) : ℚ) ≤ unitsAt cell := by
      exact_mod_cast unitsAt_strictMono.monotone hlt
    have hmid := midpoint_lt_unitsAt_succ index
    have hge : cell ≤ nearestIndex q := by rw [hround]; split_ifs <;> omega
    constructor
    · intro h
      omega
    · rintro (h | ⟨h, -⟩) <;> linarith
  -- the index is that of the cell, where the midpoint decides
  · rw [hround]
    split_ifs with h
    · exact ⟨fun _ => h, fun _ => le_rfl⟩
    · exact ⟨fun h' => absurd h' (by omega), fun h' => absurd h' h⟩
  -- the index lies above the cell, and its midpoint too
  · have hle : (unitsAt (cell + 1) : ℚ) ≤ unitsAt index := by
      exact_mod_cast unitsAt_strictMono.monotone hgt
    have hmid := unitsAt_lt_midpoint index
    refine ⟨fun _ => .inl (by linarith), fun _ => ?_⟩
    rw [hround]
    split_ifs <;> omega

/-- What is rounded no higher than a magnitude is at most the middle above it. -/
theorem le_midpoint_of_nearestIndex_le (hq : 0 ≤ q) (h : nearestIndex q ≤ index) :
    q * unitsPerOne ≤ midpoint index := by
  rcases (nearestIndex_le_iff hq).1 h with hlt | ⟨heq, -⟩
  · exact hlt.le
  · exact heq.le

/-- What is rounded above a magnitude is at least the middle above it. -/
theorem midpoint_le_of_lt_nearestIndex (hq : 0 ≤ q) (h : index < nearestIndex q) :
    midpoint index ≤ q * unitsPerOne := by
  by_contra hlt
  exact h.not_ge ((nearestIndex_le_iff hq).2 (Or.inl (not_le.1 hlt)))

/-- Rounding keeps the order. -/
theorem nearestIndex_mono (hq : 0 ≤ q) (hqr : q ≤ r) : nearestIndex q ≤ nearestIndex r := by
  have hscaled := mul_le_mul_of_nonneg_right hqr unitsPerOne_pos.le
  rw [nearestIndex_le_iff hq]
  -- what bounds the larger number bounds the smaller one
  rcases (nearestIndex_le_iff (hq.trans hqr)).1 le_rfl with hr | ⟨hr, heven⟩
  · exact .inl (hscaled.trans_lt hr)
  · rcases hscaled.lt_or_eq with hlt | heq
    · exact .inl (hr ▸ hlt)
    · exact .inr ⟨heq.trans hr, heven⟩

/-- A number of the size of an entry is rounded to that entry. -/
theorem nearestIndex_of_mul_eq (hq : q * unitsPerOne = unitsAt index) : nearestIndex q = index := by
  have hq0 : 0 ≤ q := by
    by_contra hneg
    have := mul_neg_of_neg_of_pos (not_le.1 hneg) unitsPerOne_pos
    have : (0 : ℚ) ≤ unitsAt index := by positivity
    linarith
  refine le_antisymm ((nearestIndex_le_iff hq0).2 (.inl ?_)) ?_
  · rw [hq]
    exact unitsAt_lt_midpoint index
  -- a smaller index would put the number before the midpoint below its entry
  by_contra hlt
  obtain ⟨j, rfl⟩ : ∃ j, index = j + 1 := ⟨index - 1, by omega⟩
  have hmid := le_midpoint_of_nearestIndex_le hq0 (show nearestIndex q ≤ j by omega)
  have hnext := midpoint_lt_unitsAt_succ j
  linarith

theorem nearestIndex_zero : nearestIndex 0 = 0 :=
  nearestIndex_of_mul_eq (by rw [zero_mul, unitsAt_zero, Nat.cast_zero])

/-- No entry of the list is nearer than the one rounded to. -/
theorem abs_sub_unitsAt_nearestIndex_le (hq : 0 ≤ q) (index : ℕ) :
    |q * unitsPerOne - unitsAt (nearestIndex q)| ≤ |q * unitsPerOne - unitsAt index| := by
  rcases lt_trichotomy index (nearestIndex q) with hlt | heq | hgt
  -- an entry below: the number is not before the midpoint under the nearest entry
  · obtain ⟨j, hj⟩ : ∃ j, nearestIndex q = j + 1 := ⟨nearestIndex q - 1, by omega⟩
    have hmid := midpoint_le_of_lt_nearestIndex hq (show j < nearestIndex q by omega)
    have hle : (unitsAt index : ℚ) ≤ unitsAt j := by
      exact_mod_cast unitsAt_strictMono.monotone (by omega)
    have hstep := unitsAt_cast_lt_succ j
    rw [midpoint] at hmid
    rw [hj, abs_of_nonneg (by linarith : 0 ≤ q * unitsPerOne - (unitsAt index : ℚ)), abs_le]
    constructor <;> linarith
  · rw [heq]
  -- an entry above: the number is not past the midpoint over the nearest entry
  · have hmid := le_midpoint_of_nearestIndex_le hq le_rfl
    have hle : (unitsAt (nearestIndex q + 1) : ℚ) ≤ unitsAt index := by
      exact_mod_cast unitsAt_strictMono.monotone hgt
    have hstep := unitsAt_cast_lt_succ (nearestIndex q)
    rw [midpoint] at hmid
    rw [abs_of_nonpos (by linarith : q * unitsPerOne - (unitsAt index : ℚ) ≤ 0), abs_le]
    constructor <;> linarith

/-! ## Magnitudes and finite doubles -/

variable {m : Magnitude}

/-- The value of a magnitude, counted in units. -/
theorem toRat_mul_unitsPerOne (m : Magnitude) : m.toRat * unitsPerOne = m.units := by
  have hne : (unitsPerOne : ℚ) ≠ 0 := unitsPerOne_pos.ne'
  rw [toRat, Rat.mkRat_eq_div]
  push_cast
  exact div_mul_cancel₀ _ hne

theorem toRat_nonneg (m : Magnitude) : 0 ≤ m.toRat := by
  by_contra hneg
  have hlt := mul_neg_of_neg_of_pos (not_le.1 hneg) unitsPerOne_pos
  rw [toRat_mul_unitsPerOne] at hlt
  exact absurd hlt (not_lt.2 (by positivity))

/-- The value of a magnitude is zero for the zeros alone. -/
theorem toRat_eq_zero_iff : m.toRat = 0 ↔ m = zero := by
  rw [← units_eq_zero_iff, ← mul_left_inj' unitsPerOne_pos.ne', toRat_mul_unitsPerOne, zero_mul,
    Nat.cast_eq_zero]

theorem toRat_pos (hm : m ≠ zero) : 0 < m.toRat :=
  lt_of_le_of_ne (toRat_nonneg m) fun h => hm (toRat_eq_zero_iff.1 h.symm)

/-- Every magnitude is rounded to itself. -/
theorem nearestIndex_toRat (m : Magnitude) : nearestIndex m.toRat = m.index :=
  nearestIndex_of_mul_eq (toRat_mul_unitsPerOne m)

/-- A magnitude is what its value is rounded to. -/
theorem ofRat?_toRat (m : Magnitude) : ofRat? m.toRat = some m :=
  ofRat?_eq_some_iff.2 (nearestIndex_toRat m)

/-- Only numbers rounded to one magnitude lie between two numbers rounded to it. -/
theorem nearestIndex_eq_of_between {a b : ℚ} (ha : 0 ≤ a) (haq : a ≤ q) (hqb : q ≤ b)
    (hia : nearestIndex a = index) (hib : nearestIndex b = index) : nearestIndex q = index :=
  le_antisymm (hib ▸ nearestIndex_mono (ha.trans haq) hqb) (hia ▸ nearestIndex_mono ha haq)

end FourFunction.Magnitude

namespace FourFunction.Binary64

/-- The size of a signed magnitude is its value. -/
theorem abs_signedRat_eq (negative : Bool) (m : Magnitude) : |signedRat negative m| = m.toRat := by
  rw [signedRat]
  split
  · rw [abs_neg, abs_of_nonneg m.toRat_nonneg]
  · exact abs_of_nonneg m.toRat_nonneg

/-- A finite double is the rounding of its own value. -/
theorem round_toRat (negative : Bool) (m : Magnitude) :
    round negative m.toRat = finite negative m := by
  rw [round, Magnitude.ofRat?_toRat, Option.elim_some]

/-- Rounding gives a finite double exactly where it gives that double's magnitude. -/
theorem round_eq_finite_iff {negative : Bool} {q : ℚ} {m : Magnitude} :
    round negative q = finite negative m ↔ Magnitude.ofRat? q = some m := by
  rw [round]
  cases Magnitude.ofRat? q <;> simp

end FourFunction.Binary64
