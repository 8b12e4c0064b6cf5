import FourFunction.Proofs.Binary64.Nearest
import FourFunction.Proofs.Decimal.Grid

/-!
# The shortest decimal

The grid search of `Magnitude.shortest` against what is asked of a shortest decimal: it is read as
the magnitude, no decimal with fewer digits is, and of those with as few digits none is nearer. Of
two equally near ones the larger is meant, so that there is exactly one (`isShortest_iff`).

The argument has two halves. On one grid every number between the magnitude and a number read as it
is read as it too, so testing the two neighbours of the magnitude tests the whole grid
(`coarsestHit_shortestWithin`). Across the grids, a decimal between the power of ten below the
magnitude and the one above it has the fewer digits the coarser its grid is, and a decimal outside
is worse than that power of ten (`CoarsestHit.isShortest`).

## Main results

* `coarsestHit_shortest`: the search ends on the coarsest grid with a decimal that is read as the
  magnitude, with the best decimal of that grid;
* `isShortest_iff`: `Magnitude.shortest` is the shortest decimal.
-/

namespace FourFunction.Magnitude

variable {m : Magnitude} {p top : ℤ} {d : Decimal} {v q r s : ℚ} {index k : ℕ}

/-- `q` stands for `v` at least as well as `r` does: it is nearer, or as near and no smaller. -/
def Precedes (v q r : ℚ) : Prop := |q - v| < |r - v| ∨ |q - v| = |r - v| ∧ r ≤ q

theorem Precedes.abs_le (h : Precedes v q r) : |q - v| ≤ |r - v| :=
  h.elim le_of_lt fun h => h.1.le

/-- Of two numbers only one comes first. -/
theorem Precedes.antisymm (hqr : Precedes v q r) (hrq : Precedes v r q) : q = r := by
  rcases hqr with hlt | ⟨heq, hle⟩
  · exact absurd hrq.abs_le (not_le.2 hlt)
  · rcases hrq with hlt' | ⟨-, hle'⟩
    · exact absurd heq hlt'.ne'
    · exact le_antisymm hle' hle

theorem Precedes.trans (hqr : Precedes v q r) (hrs : Precedes v r s) : Precedes v q s := by
  rcases hqr with hlt | ⟨heq, hle⟩
  · exact .inl (hlt.trans_le hrs.abs_le)
  · rcases hrs with hlt' | ⟨heq', hle'⟩
    · exact .inl (heq.trans_lt hlt')
    · exact .inr ⟨heq.trans heq', hle'.trans hle⟩

/-- Below the number the larger one is preferred. -/
theorem precedes_of_le_below (hrq : r ≤ q) (hq : q ≤ v) : Precedes v q r := by
  rcases hrq.lt_or_eq with hlt | rfl
  · left
    rw [abs_of_nonpos (by linarith), abs_of_nonpos (by linarith)]
    linarith
  · exact .inr ⟨rfl, le_rfl⟩

/-- Above the number the smaller one is preferred. -/
theorem precedes_of_le_above (hq : v ≤ q) (hqr : q ≤ r) : Precedes v q r := by
  rcases hqr.lt_or_eq with hlt | rfl
  · left
    rw [abs_of_nonneg (by linarith), abs_of_nonneg (by linarith)]
    linarith
  · exact .inr ⟨rfl, le_rfl⟩

/-! ## One grid -/

/-- The number of the grid point at `v` or next below it. -/
def gridFloor (v : ℚ) (p : ℤ) : ℕ := (v / tenPow p).floor.toNat

/-- The grid point below a number is not above it. -/
theorem gridFloor_mul_le (hv : 0 ≤ v) (p : ℤ) : (gridFloor v p : ℚ) * 10 ^ p ≤ v := by
  rw [← le_div_iff₀ (tenZpow_pos p), gridFloor, tenPow_eq_zpow]
  have hnonneg : 0 ≤ v / 10 ^ p := div_nonneg hv (tenZpow_pos p).le
  generalize v / 10 ^ p = t at hnonneg
  have hfloor : ((t.floor.toNat : ℕ) : ℤ) = t.floor :=
    Int.toNat_of_nonneg (Rat.le_floor_iff.2 (by exact_mod_cast hnonneg))
  calc ((t.floor.toNat : ℕ) : ℚ)
      = (t.floor : ℚ) := by exact_mod_cast congrArg (Int.cast (R := ℚ)) hfloor
    _ ≤ t := Rat.floor_le t

/-- A grid point at or below `v` is no farther along the grid than the floor. -/
theorem le_gridFloor (h : (k : ℚ) * 10 ^ p ≤ v) : k ≤ gridFloor v p := by
  rw [← le_div_iff₀ (tenZpow_pos p)] at h
  rw [gridFloor, tenPow_eq_zpow]
  generalize v / 10 ^ p = t at h
  have hfloor : (k : ℤ) ≤ t.floor := Rat.le_floor_iff.2 (by exact_mod_cast h)
  omega

/-- The next grid point is above the number. -/
theorem lt_gridFloor_succ_mul (v : ℚ) (p : ℤ) : v < ((gridFloor v p + 1 : ℕ) : ℚ) * 10 ^ p := by
  by_contra h
  have := le_gridFloor (not_lt.1 h)
  omega

theorem gridPoint_mono {j k : ℕ} (h : j ≤ k) (p : ℤ) : (j : ℚ) * 10 ^ p ≤ (k : ℚ) * 10 ^ p :=
  mul_le_mul_of_nonneg_right (by exact_mod_cast h) (tenZpow_pos p).le

theorem gridPoint_nonneg (k : ℕ) (p : ℤ) : 0 ≤ (k : ℚ) * 10 ^ p :=
  mul_nonneg (Nat.cast_nonneg k) (tenZpow_pos p).le

theorem toRat_mk_natCast (k : ℕ) (p : ℤ) : (⟨k, p⟩ : Decimal).toRat = k * 10 ^ p := by
  rw [Decimal.toRat_eq]
  push_cast
  rfl

/-- A decimal hits a double if it is rounded to it. -/
theorem hits_iff : hits index k p = true ↔ nearestIndex (k * 10 ^ p) = index := by
  rw [hits, beq_iff_eq, tenPow_eq_zpow]

/-- `d` is read as the entry of `index`, and stands for `v` at least as well as every other decimal
of its grid that is. -/
structure BestOnGrid (v : ℚ) (index : ℕ) (d : Decimal) : Prop where
  /-- Decimals of a magnitude carry no sign. -/
  nonneg : 0 ≤ d.toRat
  /-- It is read as the entry. -/
  reads : nearestIndex d.toRat = index
  /-- No decimal of the grid that is read as the entry is better. -/
  precedes : ∀ k : ℕ, nearestIndex (k * 10 ^ d.exponent) = index →
    Precedes v d.toRat (k * 10 ^ d.exponent)

section OneGrid

variable (hv : 0 ≤ v) (hindex : nearestIndex v = index)
include hv hindex

/-- A point of the grid below `v` that is read as it makes the floor be read as it. -/
theorem hits_gridFloor (hk : nearestIndex (k * 10 ^ p) = index) (hle : k ≤ gridFloor v p) :
    nearestIndex (gridFloor v p * 10 ^ p) = index :=
  nearestIndex_eq_of_between (gridPoint_nonneg k p) (gridPoint_mono hle p)
    (gridFloor_mul_le hv p) hk hindex

/-- A point of the grid above `v` that is read as it makes the first point above `v` be read as
it. -/
theorem hits_gridFloor_succ (hk : nearestIndex (k * 10 ^ p) = index) (hlt : gridFloor v p < k) :
    nearestIndex ((gridFloor v p + 1 : ℕ) * 10 ^ p) = index :=
  nearestIndex_eq_of_between hv (lt_gridFloor_succ_mul v p).le (gridPoint_mono hlt p) hindex hk

/-- The grid point below is the best on its grid, unless the one above hits the double and precedes
it. -/
theorem bestOnGrid_floor (hb : nearestIndex (gridFloor v p * 10 ^ p) = index)
    (hup : nearestIndex ((gridFloor v p + 1 : ℕ) * 10 ^ p) = index →
      Precedes v (gridFloor v p * 10 ^ p) ((gridFloor v p + 1 : ℕ) * 10 ^ p)) :
    BestOnGrid v index ⟨gridFloor v p, p⟩ where
  nonneg := by
    rw [toRat_mk_natCast]
    exact gridPoint_nonneg _ p
  reads := by rw [toRat_mk_natCast, hb]
  precedes k hk := by
    rw [toRat_mk_natCast]
    -- a point above the floor is no better than the next one, and that no better than the floor
    rcases Nat.lt_or_ge (gridFloor v p) k with hlt | hle
    · exact (hup (hits_gridFloor_succ hv hindex hk hlt)).trans
        (precedes_of_le_above (lt_gridFloor_succ_mul v p).le (gridPoint_mono hlt p))
    · exact precedes_of_le_below (gridPoint_mono hle p) (gridFloor_mul_le hv p)

/-- The grid point above is the best on its grid, unless the one below hits the double and precedes
it. -/
theorem bestOnGrid_floor_succ (ha : nearestIndex ((gridFloor v p + 1 : ℕ) * 10 ^ p) = index)
    (hdown : nearestIndex (gridFloor v p * 10 ^ p) = index →
      Precedes v ((gridFloor v p + 1 : ℕ) * 10 ^ p) (gridFloor v p * 10 ^ p)) :
    BestOnGrid v index ⟨(gridFloor v p + 1 : ℕ), p⟩ where
  nonneg := by
    rw [toRat_mk_natCast]
    exact gridPoint_nonneg _ p
  reads := by rw [toRat_mk_natCast, ha]
  precedes k hk := by
    rw [toRat_mk_natCast]
    rcases Nat.lt_or_ge (gridFloor v p) k with hlt | hle
    · exact precedes_of_le_above (lt_gridFloor_succ_mul v p).le (gridPoint_mono hlt p)
    · exact (hdown (hits_gridFloor hv hindex hk hle)).trans
        (precedes_of_le_below (gridPoint_mono hle p) (gridFloor_mul_le hv p))

end OneGrid

/-- The distance of a grid point below `v`, counted in steps of the grid. -/
theorem abs_gridPoint_sub (k : ℕ) (p : ℤ) (v : ℚ) :
    |(k : ℚ) * 10 ^ p - v| = |(k : ℚ) - v / tenPow p| * 10 ^ p := by
  have hp := tenZpow_pos p
  calc |(k : ℚ) * 10 ^ p - v| = |((k : ℚ) - v / 10 ^ p) * 10 ^ p| := by
        rw [sub_mul, div_mul_cancel₀ _ hp.ne']
    _ = |(k : ℚ) - v / tenPow p| * 10 ^ p := by rw [abs_mul, abs_of_pos hp, tenPow_eq_zpow]

/-- Testing the two neighbours of the magnitude tests the whole grid. -/
theorem neighbour?_spec (m : Magnitude) (p : ℤ) :
    (m.neighbour? p = none ∧ ∀ k : ℕ, nearestIndex (k * 10 ^ p) ≠ m.index) ∨
      ∃ d, m.neighbour? p = some d ∧ d.exponent = p ∧ BestOnGrid m.toRat m.index d := by
  have hv := toRat_nonneg m
  have hindex := nearestIndex_toRat m
  unfold neighbour?
  -- nothing hangs on the magnitude, and its value would be evaluated
  generalize m.toRat = v at *
  generalize m.index = index at *
  simp only [hits_iff]
  rw [show (v / tenPow p).floor.toNat = gridFloor v p from rfl]
  have hp := tenZpow_pos p
  have hbelow : (gridFloor v p : ℚ) ≤ v / tenPow p := by
    rw [tenPow_eq_zpow, le_div_iff₀ hp]
    exact gridFloor_mul_le hv p
  have habove : v / tenPow p < ((gridFloor v p + 1 : ℕ) : ℚ) := by
    rw [tenPow_eq_zpow, div_lt_iff₀ hp]
    exact lt_gridFloor_succ_mul v p
  split_ifs with hfloor hsucc
  -- the floor is read as the entry, and the next point is not or is farther
  · refine .inr ⟨_, rfl, rfl, bestOnGrid_floor hv hindex hfloor.1 fun h => .inl ?_⟩
    have hnear := hfloor.2 h
    rw [abs_gridPoint_sub, abs_gridPoint_sub, abs_of_nonpos (by linarith),
      abs_of_nonneg (by linarith)]
    exact mul_lt_mul_of_pos_right (by linarith) hp
  -- the next point is, and the floor is not or is no nearer
  · refine .inr ⟨_, rfl, rfl, bestOnGrid_floor_succ hv hindex hsucc fun h => ?_⟩
    have hfar : ¬ v / tenPow p - gridFloor v p < (gridFloor v p + 1 : ℕ) - v / tenPow p :=
      fun hlt => hfloor ⟨h, fun _ => hlt⟩
    have hle :
        |((gridFloor v p + 1 : ℕ) : ℚ) * 10 ^ p - v| ≤ |(gridFloor v p : ℚ) * 10 ^ p - v| := by
      rw [abs_gridPoint_sub, abs_gridPoint_sub, abs_of_nonneg (by linarith),
        abs_of_nonpos (by linarith)]
      exact mul_le_mul_of_nonneg_right (by linarith) hp.le
    exact hle.lt_or_eq.imp_right fun heq => ⟨heq, gridPoint_mono (Nat.le_succ _) p⟩
  -- neither is, so no point of the grid is
  · refine .inl ⟨rfl, fun k hk => ?_⟩
    rcases Nat.lt_or_ge (gridFloor v p) k with hlt | hle
    · exact hsucc (hits_gridFloor_succ hv hindex hk hlt)
    · exact hfloor ⟨hits_gridFloor hv hindex hk hle, fun h => absurd h hsucc⟩

/-! ## All grids -/

/-- Every double lies on the finest grid: its units of two to the minus 1074 are tenths to the
1074th in steps of five to the 1074th. -/
theorem exists_toRat_eq_gridPoint (m : Magnitude) :
    ∃ k : ℕ, m.toRat = k * 10 ^ finestExponent := by
  refine ⟨m.units * 5 ^ 1074, ?_⟩
  rw [toRat, Rat.mkRat_eq_div, show finestExponent = -((1074 : ℕ) : ℤ) from rfl]
  -- nothing hangs on the number, and as a numeral it would be evaluated
  delta unitsPerOne
  generalize 1074 = N
  rw [zpow_neg, zpow_natCast, show (10 : ℚ) = 2 * 5 by norm_num, mul_pow, Nat.pow_eq]
  push_cast
  field_simp

/-- `d` is the best decimal of its grid, and no grid between its own and the top one has a decimal
that is read as the magnitude. -/
structure CoarsestHit (m : Magnitude) (top : ℤ) (d : Decimal) : Prop
    extends BestOnGrid m.toRat m.index d where
  /-- It is found at the top grid or below. -/
  exponent_le : d.exponent ≤ top
  /-- The grids above its own have no hit. -/
  coarsest : ∀ p, d.exponent < p → p ≤ top → ∀ k : ℕ, nearestIndex (k * 10 ^ p) ≠ m.index

/-- The search from a grid downwards ends with the coarsest hit. -/
theorem coarsestHit_shortestWithin (m : Magnitude) (steps : ℕ) :
    m.CoarsestHit (finestExponent + steps) (m.shortestWithin steps) := by
  induction steps with
  | zero =>
    -- on the finest grid the magnitude is a point itself
    obtain ⟨k, hk⟩ := exists_toRat_eq_gridPoint m
    have hfloor : m.toRat / tenPow finestExponent = ((k : ℤ) : ℚ) := by
      rw [hk, tenPow_eq_zpow, mul_div_cancel_right₀ _ (tenZpow_pos _).ne']
      push_cast
      rfl
    have hd : m.shortestWithin 0 = ⟨k, finestExponent⟩ := by
      rw [shortestWithin, hfloor, Rat.floor_intCast]
    have hvalue : (m.shortestWithin 0).toRat = m.toRat := by
      rw [hd, toRat_mk_natCast, hk]
    refine ⟨⟨?_, ?_, fun j hj => ?_⟩, ?_, fun p hp htop => ?_⟩
    · rw [hvalue]
      exact toRat_nonneg m
    · rw [hvalue]
      exact nearestIndex_toRat m
    · rw [hvalue]
      rcases le_total ((j : ℚ) * 10 ^ (m.shortestWithin 0).exponent) m.toRat with hle | hle
      · exact precedes_of_le_below hle le_rfl
      · exact precedes_of_le_above le_rfl hle
    · rw [hd]
      simp
    · simp only [hd, Nat.cast_zero, add_zero] at hp htop
      omega
  | succ steps ih =>
    rw [shortestWithin]
    rcases neighbour?_spec m (finestExponent + (steps + 1 : ℕ)) with
      ⟨hnone, hmiss⟩ | ⟨d, hd, he, hbest⟩
    -- a miss leaves the search on the next finer grid, and adds one grid without a hit
    · rw [hnone, Option.getD_none]
      refine ⟨ih.toBestOnGrid, ?_, fun p hp htop k => ?_⟩
      · have := ih.exponent_le
        push_cast
        omega
      · rcases htop.lt_or_eq with hlt | rfl
        · exact ih.coarsest p hp (by push_cast at hlt; omega) k
        · exact hmiss k
    · rw [hd, Option.getD_some]
      exact ⟨hbest, he.le, fun p hp htop => absurd htop (by omega)⟩

/-- No magnitude but that of the zeros has its leading digit below the finest grid. -/
theorem finestExponent_le_leadingExponent (hm : m ≠ zero) :
    finestExponent ≤ leadingExponent m.toRat := by
  have hpos := toRat_pos hm
  obtain ⟨k, hk⟩ := exists_toRat_eq_gridPoint m
  have hk0 : 1 ≤ k := by
    rcases Nat.eq_zero_or_pos k with rfl | h
    · rw [hk] at hpos
      simp at hpos
    · exact h
  have hle : (10 : ℚ) ^ finestExponent ≤ m.toRat := by
    have := gridPoint_mono hk0 finestExponent
    rwa [Nat.cast_one, one_mul, ← hk] at this
  exact le_leadingExponent hle

/-- The search ends on the coarsest grid, from that of the leading digit downwards, that has a
decimal read as the magnitude. -/
theorem coarsestHit_shortest (hm : m ≠ zero) :
    m.CoarsestHit (leadingExponent m.toRat) m.shortest := by
  have hsteps := finestExponent_le_leadingExponent hm
  have htop : leadingExponent m.toRat =
      finestExponent + ((leadingExponent m.toRat - finestExponent).toNat : ℤ) := by omega
  rw [shortest, if_neg hm]
  conv => arg 2; rw [htop]
  exact coarsestHit_shortestWithin m _

/-! ## What the coarsest hit achieves -/

/-- The number is the shortest decimal of the magnitude: it is read as it, with the fewest digits,
and of the numbers with as few digits it is the nearest, the larger one of two. -/
structure IsShortest (m : Magnitude) (q : ℚ) : Prop where
  nonneg : 0 ≤ q
  /-- It is read as the magnitude. -/
  reads : ofRat? q = some m
  /-- Every other number that is read as the magnitude has as many digits or more. -/
  fewest : ∀ k r, ofRat? r = some m → HasDigits k r → HasDigits k q
  /-- No other such number with as few digits is better. -/
  precedes : ∀ r, ofRat? r = some m → 0 ≤ r → (∀ k, HasDigits k q → HasDigits k r) →
    Precedes m.toRat q r

/-- There is one shortest decimal at most. -/
theorem IsShortest.unique (hq : m.IsShortest q) (hr : m.IsShortest r) : q = r :=
  (hq.precedes r hr.reads hr.nonneg fun k h => hr.fewest k q hq.reads h).antisymm
    (hr.precedes q hq.reads hq.nonneg fun k h => hq.fewest k r hr.reads h)

/-- Zero has no digits and is its own shortest decimal. -/
theorem isShortest_zero : zero.IsShortest 0 where
  nonneg := le_rfl
  reads := ofRat?_eq_some_iff.2 nearestIndex_zero
  fewest k _ _ _ := hasDigits_zero k
  precedes r _ hr _ := by
    rw [toRat_eq_zero_iff.2 rfl]
    exact precedes_of_le_above le_rfl hr

namespace CoarsestHit

variable (hd : m.CoarsestHit (leadingExponent m.toRat) d)
include hd

theorem exists_toRat_eq : ∃ c : ℕ, d.toRat = c * 10 ^ d.exponent := by
  have hnonneg := hd.nonneg
  rw [Decimal.toRat_eq] at hnonneg
  have hc : 0 ≤ d.coefficient := by
    exact_mod_cast nonneg_of_mul_nonneg_left hnonneg (tenZpow_pos d.exponent)
  refine ⟨d.coefficient.toNat, ?_⟩
  rw [Decimal.toRat_eq]
  congr 1
  exact_mod_cast (Int.toNat_of_nonneg hc).symm

/-- A grid with a number read as the magnitude is no coarser than that of `d`, or than the top
one. -/
theorem min_le_exponent {c : ℕ} (hc : nearestIndex (c * 10 ^ p) = m.index) :
    min p (leadingExponent m.toRat) ≤ d.exponent := by
  -- otherwise it would be a hit on one of the coarser grids
  by_contra hlt
  obtain ⟨j, hj⟩ := exists_mul_tenZpow_of_le (min_le_left p (leadingExponent m.toRat)) c
  rw [hj] at hc
  exact hd.coarsest _ (not_le.1 hlt) (min_le_right _ _) j hc

/-- `d` precedes every number read as the magnitude on its own grid or a coarser one. -/
theorem precedes_of_le {c : ℕ} (hp : d.exponent ≤ p) (hc : nearestIndex (c * 10 ^ p) = m.index) :
    Precedes m.toRat d.toRat (c * 10 ^ p) := by
  obtain ⟨j, hj⟩ := exists_mul_tenZpow_of_le hp c
  rw [hj] at hc ⊢
  exact hd.precedes j hc

variable (hm : m ≠ zero)
include hm

/-- Numbers below the leading power of ten are worse than it, and it is on the top grid. -/
theorem precedes_of_lt_leading (hr : nearestIndex r = m.index) (hr0 : 0 ≤ r)
    (hlt : r < 10 ^ leadingExponent m.toRat) :
    d.exponent = leadingExponent m.toRat ∧ Precedes m.toRat d.toRat r := by
  have hle := (leadingExponent_spec (toRat_pos hm)).1
  have hpow : nearestIndex ((1 : ℕ) * 10 ^ leadingExponent m.toRat) = m.index := by
    rw [Nat.cast_one, one_mul]
    exact nearestIndex_eq_of_between hr0 hlt.le hle hr (nearestIndex_toRat m)
  -- the power of ten is on the top grid, so the search ended there
  have hmin := hd.min_le_exponent hpow
  rw [min_self] at hmin
  refine ⟨le_antisymm hd.exponent_le hmin, (hd.precedes_of_le hd.exponent_le hpow).trans ?_⟩
  rw [Nat.cast_one, one_mul]
  exact precedes_of_le_below hlt.le hle

/-- `d` lies between the powers of ten around the magnitude, so it has as many digits as its grid
lies below them. -/
theorem hasDigits : HasDigits (leadingExponent m.toRat + 1 - d.exponent).toNat d.toRat := by
  have hexp := hd.exponent_le
  obtain ⟨c, hc⟩ := hd.exists_toRat_eq
  have hreads := hd.reads
  rcases lt_trichotomy d.toRat (10 ^ (leadingExponent m.toRat + 1)) with hlt | heq | hgt
  · rw [hc] at hlt ⊢
    exact hasDigits_of_lt (by omega) hlt
  · rw [heq]
    exact hasDigits_tenZpow (by omega) _
  -- beyond the next power of ten `d` would be worse than it
  · exfalso
    have hle := (leadingExponent_spec (toRat_pos hm)).2.le
    have hpow : nearestIndex (10 ^ (leadingExponent m.toRat + 1)) = m.index :=
      nearestIndex_eq_of_between (toRat_nonneg m) hle hgt.le (nearestIndex_toRat m) hreads
    have hprec := hd.precedes_of_le (c := 1) (p := leadingExponent m.toRat + 1) (by omega)
      (by rwa [Nat.cast_one, one_mul])
    rw [Nat.cast_one, one_mul] at hprec
    exact hgt.ne (hprec.antisymm (precedes_of_le_above hle hgt.le)).symm

/-- The coarsest hit is the shortest decimal. -/
theorem isShortest : m.IsShortest d.toRat := by
  have hdigits := hd.hasDigits hm
  have hexp := hd.exponent_le
  refine ⟨hd.nonneg, ofRat?_eq_some_iff.2 hd.reads, fun k r hr hk => ?_, fun r hr hr0 hk => ?_⟩
  · rw [ofRat?_eq_some_iff] at hr
    have hr0 : r ≠ 0 := by
      rintro rfl
      rw [nearestIndex_zero] at hr
      exact hm (Magnitude.ext hr.symm)
    -- a decimal of `k` digits lies on a grid no coarser than that of `d`
    have hkpos := hk.pos hr0
    refine hdigits.mono ?_
    rcases lt_or_ge r (10 ^ leadingExponent m.toRat) with hlt | hge
    · have := (hd.precedes_of_lt_leading hm hr hk.nonneg hlt).1
      omega
    · obtain ⟨c, x, rfl, hx⟩ := hk.exists_grid hge
      have hmin := hd.min_le_exponent hr
      omega
  · rw [ofRat?_eq_some_iff] at hr
    rcases lt_or_ge r (10 ^ leadingExponent m.toRat) with hlt | hge
    · exact (hd.precedes_of_lt_leading hm hr hr0 hlt).2
    -- few digits put the other number on the grid of `d`, where `d` is the best
    · obtain ⟨c, x, rfl, hx⟩ := (hk _ hdigits).exists_grid hge
      exact hd.precedes_of_le (by omega) hr

end CoarsestHit

/-- `Magnitude.shortest` is the shortest decimal. -/
theorem isShortest_shortest (m : Magnitude) : m.IsShortest m.shortest.toRat := by
  rcases eq_or_ne m zero with rfl | hm
  · have h0 : (zero.shortest).toRat = 0 := by
      rw [shortest, if_pos rfl, Decimal.toRat_eq]
      simp
    rw [h0]
    exact isShortest_zero
  · exact (coarsestHit_shortest hm).isShortest hm

/-- `Magnitude.shortest` is the shortest decimal, and there is no other. -/
theorem isShortest_iff : m.IsShortest q ↔ q = m.shortest.toRat :=
  ⟨fun h => h.unique (isShortest_shortest m), fun h => h ▸ isShortest_shortest m⟩

end FourFunction.Magnitude
