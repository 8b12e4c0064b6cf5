/-!
# Rounding to an integer

Two formats of this library round an exact rational to an integer: a double keeps a whole
number of units in the last place, and the display keeps a whole number of hundred-thousandths.
They differ only in where a number halfway between two integers goes, so there is one function,
`nearestInt`, with the tie rule as a parameter.
-/

namespace FourFunction

/-- Where a number halfway between two integers goes. -/
inductive Ties where
  /-- To the even one of the two neighbours. -/
  | toEven
  /-- To the neighbour farther from zero. -/
  | awayFromZero
deriving DecidableEq, Repr

/-- The integer nearest to `q`; a number halfway between two integers goes as `ties` says. -/
def nearestInt (ties : Ties) (q : Rat) : Int :=
  let below := q.floor
  let excess := q - below
  if excess < 1 / 2 then below
  else if 1 / 2 < excess then below + 1
  else match ties with
    | .toEven => if below % 2 = 0 then below else below + 1
    | .awayFromZero => if q < 0 then below else below + 1

/-- An integer is its own nearest integer, under either tie rule. -/
@[simp]
theorem nearestInt_intCast (ties : Ties) (n : Int) : nearestInt ties (n : Rat) = n := by
  have half : (0 : Rat) < 1 / 2 := by grind
  simp only [nearestInt, Rat.floor_intCast, Rat.sub_self, half, if_true]

end FourFunction
