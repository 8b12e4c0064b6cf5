import FourFunction.Decimal.Numeral
import FourFunction.Decimal.Shortest

/-!
# The display of a double

A result is shown with at most five decimals. What is rounded is the shortest decimal that is read
as the double, and not the double's exact value, so that a number typed with six decimals is
rounded as it was typed; a digit five on the sixth place rounds away from zero.
-/

namespace FourFunction

/-- The number of decimals shown. -/
def displayPlaces : Nat := 5

/-- A value as a whole number of the smallest shown places, rounded half away from zero. -/
def displayScaled (q : Rat) : Int :=
  nearestInt .awayFromZero (q * (Nat.pow 10 displayPlaces : Nat))

/-- The name of a double that has no decimal. No calculation ends in such a double. -/
def Binary64.name : Binary64 → Text
  | nan => "NaN".toList
  | finite negative _ | infinity negative =>
    (if negative then "-Infinity" else "Infinity").toList

/-- The text that shows a double. A number that is rounded to zero has no sign. -/
def Binary64.display (x : Binary64) : Text :=
  match x.shortest? with
  | none => x.name
  | some d =>
    let scaled := displayScaled d.toRat
    if scaled = 0 then ['0'] else Numeral.trimZeros (Numeral.fixed displayPlaces scaled)

end FourFunction
