import FourFunction.Decimal.Basic
import FourFunction.Text

/-!
# Literals

A number as it is typed: digits with at most one point, which may stand first, last or nowhere,
and with at least one digit. Its value is an exact rational of any size; rounding it to a double
is a separate step.
-/

namespace FourFunction

/-- A literal, split at its point. -/
structure Literal where
  /-- The digits before the point, or all of them. -/
  whole : Text
  /-- The digits after the point. -/
  fraction : Text
deriving DecidableEq, Repr

namespace Literal

/-- Reads a literal. None for a second point, for any character that is neither a digit nor a
point, and for a text without digits. -/
def ofText? (text : Text) : Option Literal :=
  let whole := text.takeWhile Char.isDigit
  match text.dropWhile Char.isDigit with
  | [] => if whole = [] then none else some ⟨whole, []⟩
  | point :: fraction =>
    if point = '.' ∧ fraction.all Char.isDigit ∧ whole ++ fraction ≠ [] then
      some ⟨whole, fraction⟩
    else none

/-- The exact value: the digits as one whole number, divided by a power of ten for those after the
point. -/
def value (l : Literal) : Rat :=
  mkRat (Nat.ofDigitChars 10 (l.whole ++ l.fraction) 0) (Nat.pow 10 l.fraction.length)

end Literal

end FourFunction
