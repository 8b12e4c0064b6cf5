import FourFunction.Binary64.Basic
import FourFunction.Decimal.Scientific

/-!
# The shortest decimal of a double

Many decimals are read as one double; `Binary64.shortest?` is the one with the fewest digits, and
of those the nearest to the double. It is found on decimal grids: the grid of `p` holds the
multiples of ten to the `p`. Near a value whose leading digit counts `10 ^ e`, the decimals of one
digit are the grid of `e`, and every further digit is the next finer grid.

On one grid only the two points on either side of the value need testing, since every number
between the value and a number read as it is read as it too. The search starts from the coarsest
grid and stops at the first that has a hit. It stops at the latest at the grid of minus 1074, on
which every double lies.
-/

namespace FourFunction

/-- The number of decimal digits of `n`; zero has one. -/
def digitCount (n : Nat) : Nat := (Nat.toDigits 10 n).length

/-- The exponent of the leading digit of `q`, which is positive: the `e` for which
`10 ^ e ≤ q < 10 ^ (e + 1)`. -/
def leadingExponent (q : Rat) : Int :=
  if 1 ≤ q then digitCount q.floor.toNat - 1
  else -digitCount (q⁻¹.ceil.toNat - 1)

namespace Magnitude

/-- The decimal `coefficient * 10 ^ p` is rounded to the magnitude of the given index. -/
def hits (index : Nat) (coefficient : Nat) (p : Int) : Bool :=
  nearestIndex (coefficient * tenPow p) == index

/-- Of the two points of the grid of `p` on either side of the magnitude, the one that is rounded
to it. Where both are, the nearer is taken, and the upper where both are equally near. -/
def neighbour? (m : Magnitude) (p : Int) : Option Decimal :=
  let scaled := m.toRat / tenPow p
  let below := scaled.floor.toNat
  let above := below + 1
  if hits m.index below p ∧ (hits m.index above p → scaled - below < above - scaled) then
    some ⟨below, p⟩
  else if hits m.index above p then some ⟨above, p⟩
  else none

/-- The exponent of the grid on which every double lies. -/
def finestExponent : Int := -1074

/-- The first hit on the grids that lie up to `steps` steps above the finest one, from the coarsest
downwards. On the finest grid the magnitude itself is a point. -/
def shortestWithin (m : Magnitude) : Nat → Decimal
  | 0 => ⟨(m.toRat / tenPow finestExponent).floor, finestExponent⟩
  | steps + 1 =>
    (m.neighbour? (finestExponent + (steps + 1 : Nat))).getD (m.shortestWithin steps)

/-- The decimal with the fewest digits that is rounded to the magnitude, and of those the one
nearest to it. -/
def shortest (m : Magnitude) : Decimal :=
  if m = .zero then ⟨0, 0⟩
  else m.shortestWithin (leadingExponent m.toRat - finestExponent).toNat

end Magnitude

namespace Binary64

/-- The shortest decimal that is read as the finite double of the given sign and magnitude. -/
def signedShortest (negative : Bool) (m : Magnitude) : Decimal :=
  if negative then -m.shortest else m.shortest

/-- The shortest decimal that is read as the double, read from its scientific notation and then
given the double's sign; infinities and NaN have none. -/
def shortest? : Binary64 → Option Decimal
  | finite negative m =>
    (Decimal.ofScientific? m.shortest.scientific).map fun d => if negative then -d else d
  | infinity _ => none
  | nan => none

end Binary64

end FourFunction
