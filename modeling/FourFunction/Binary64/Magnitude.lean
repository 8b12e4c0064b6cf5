import FourFunction.Rounding

/-!
# Magnitudes of finite doubles

The finite doubles without their sign, in order of size, are numbered from zero: the *index* of a
magnitude is its place in that list, and also the double's bit pattern without the sign bit.
Every magnitude is a whole number of *units*, a unit being two to the minus 1074, the smallest
positive double.

The list of units goes on for ever by the same rule, each binade of `binade` indices having twice
the spacing of the one before it. Rounding is stated on the endless list: `nearestIndex q` is the
index of the entry nearest to `q`, and `q` overflows exactly when that index is `limit` or more.
Because an even index is an even significand, ties go to the even index, and a significand that
rounds up to the next power of two needs no case of its own.
-/

namespace FourFunction

namespace Magnitude

/-- The number of indices in one binade, two to the fifty-second. -/
def binade : Nat := Nat.pow 2 52

/-- The number of finite magnitudes, and so the first index that is out of range. -/
def limit : Nat := 2047 * binade

/-- The number of units in one, two to the 1074th. -/
def unitsPerOne : Nat := Nat.pow 2 1074

/-- The number of doublings of the unit between neighbours at an index. The first two binades have
the spacing of one unit. -/
def exponentAt (index : Nat) : Nat := index / binade - 1

/-- The significand at an index, as a multiple of the spacing there. -/
def significandAt (index : Nat) : Nat := index - exponentAt index * binade

/-- The size of the entry at an index, in units. -/
def unitsAt (index : Nat) : Nat := significandAt index * Nat.pow 2 (exponentAt index)

/-- The index of the entry nearest to `q`, which is not negative; of two entries equally near, the
one with the even index. -/
def nearestIndex (q : Rat) : Nat :=
  let units := q * unitsPerOne
  let exponent := units.floor.toNat.log2 - 52
  exponent * binade + (nearestInt .toEven (units / (Nat.pow 2 exponent : Nat))).toNat

end Magnitude

/-- A finite double without its sign. -/
@[ext]
structure Magnitude where
  /-- The place of this magnitude in increasing order. -/
  index : Nat
  /-- Past the last finite magnitude lies infinity. -/
  index_lt : index < Magnitude.limit
deriving DecidableEq

namespace Magnitude

/-- The magnitude of the two zeros. -/
def zero : Magnitude := ⟨0, by decide⟩

instance : Inhabited Magnitude := ⟨zero⟩

@[simp]
theorem index_zero : zero.index = 0 := rfl

/-- The size of a magnitude, in units. -/
def units (m : Magnitude) : Nat := unitsAt m.index

/-- The exact value of a magnitude. -/
def toRat (m : Magnitude) : Rat := mkRat m.units unitsPerOne

/-- The magnitude nearest to `q`, which is not negative, with ties to even; none if `q`
overflows. -/
def ofRat? (q : Rat) : Option Magnitude :=
  if h : nearestIndex q < limit then some ⟨nearestIndex q, h⟩ else none

/-- Rounding overflows exactly when the nearest index is past the last finite magnitude. -/
theorem ofRat?_eq_none_iff {q : Rat} : ofRat? q = none ↔ limit ≤ nearestIndex q := by
  simp [ofRat?]

/-- Rounding gives a magnitude exactly when that magnitude has the nearest index. -/
theorem ofRat?_eq_some_iff {q : Rat} {m : Magnitude} :
    ofRat? q = some m ↔ nearestIndex q = m.index := by
  obtain ⟨index, index_lt⟩ := m
  simp only [ofRat?, Option.dite_none_right_eq_some, Option.some.injEq, Magnitude.mk.injEq]
  exact ⟨fun ⟨_, h⟩ => h, fun h => ⟨h ▸ index_lt, h⟩⟩

/-- No entry but the first has the size zero. -/
theorem unitsAt_eq_zero_iff {index : Nat} : unitsAt index = 0 ↔ index = 0 := by
  have positive : 0 < Nat.pow 2 (exponentAt index) := Nat.two_pow_pos _
  have small : exponentAt index * binade = 0 ∨ exponentAt index * binade < index := by
    unfold exponentAt
    rcases Nat.lt_or_ge index binade with h | h
    · simp [Nat.div_eq_of_lt h]
    · have quotient : 1 ≤ index / binade := (Nat.one_le_div_iff (by decide)).2 h
      have product : index / binade * binade ≤ index := Nat.div_mul_le_self ..
      have bound : 0 < binade := by decide
      right
      rw [Nat.sub_mul]
      omega
  simp only [unitsAt, significandAt, Nat.mul_eq_zero]
  omega

/-- Only the magnitude of the zeros has the value zero. -/
@[simp]
theorem units_eq_zero_iff {m : Magnitude} : m.units = 0 ↔ m = zero := by
  rw [units, unitsAt_eq_zero_iff, Magnitude.ext_iff, index_zero]

end Magnitude

end FourFunction
