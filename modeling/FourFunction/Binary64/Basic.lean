import FourFunction.Binary64.Magnitude

/-!
# Doubles

The values of the IEEE 754 binary64 format: signed finite magnitudes, the two infinities, and one
NaN standing for all of them, since nothing here tells two NaNs apart. `round` is the one place
where an exact rational becomes a double, and the words of the format are read by `ofBits` and
written by `toBits`.
-/

namespace FourFunction

/-- A double. -/
inductive Binary64 where
  /-- A finite double. Zero has both signs. -/
  | finite (negative : Bool) (magnitude : Magnitude)
  /-- One of the two infinities. -/
  | infinity (negative : Bool)
  /-- Not a number. -/
  | nan
deriving DecidableEq, Inhabited

namespace Binary64

/-- Positive zero. -/
def zero : Binary64 := .finite false .zero

/-- Neither an infinity nor NaN. -/
def isFinite : Binary64 → Bool
  | finite _ _ => true
  | infinity _ => false
  | nan => false

/-- One of the two zeros. -/
def isZero : Binary64 → Bool
  | finite _ m => m == .zero
  | infinity _ => false
  | nan => false

/-- The exact value of the finite double of the given sign and magnitude. -/
def signedRat (negative : Bool) (m : Magnitude) : Rat :=
  if negative then -m.toRat else m.toRat

/-- The exact value of a finite double; infinities and NaN have none. -/
def toRat? : Binary64 → Option Rat
  | finite negative m => some (signedRat negative m)
  | infinity _ => none
  | nan => none

/-- The double nearest to the number of the given sign and absolute value `size`, with ties to
even. An absolute value half a spacing or more past the last finite one gives infinity, and one of
half a unit or less gives a zero that keeps its sign. -/
def round (negative : Bool) (size : Rat) : Binary64 :=
  (Magnitude.ofRat? size).elim (.infinity negative) (.finite negative)

/-- The number of words with a clear sign bit, and so the weight of the sign bit. -/
def signWeight : Nat := Nat.pow 2 63

/-- The double of a word: a sign bit, eleven exponent bits, fifty-two fraction bits. -/
def ofBits (word : UInt64) : Binary64 :=
  let negative := decide (signWeight ≤ word.toNat)
  let index := word.toNat % signWeight
  if h : index < Magnitude.limit then .finite negative ⟨index, h⟩
  else if index = Magnitude.limit then .infinity negative
  else .nan

/-- The word of a double. NaN has the quiet NaN's word with no payload. -/
def toBits : Binary64 → UInt64
  | finite negative m => .ofNat ((if negative then signWeight else 0) + m.index)
  | infinity negative => .ofNat ((if negative then signWeight else 0) + Magnitude.limit)
  | nan => .ofNat (Magnitude.limit + Magnitude.binade / 2)

/-- A double is read back from its word. -/
@[simp]
theorem ofBits_toBits (x : Binary64) : ofBits x.toBits = x := by
  have limit : Magnitude.limit = 9218868437227405312 := by decide
  have weight : signWeight = 9223372036854775808 := by decide
  rcases x with ⟨negative, ⟨index, index_lt⟩⟩ | ⟨_ | _⟩ | _
  · have word : (toBits (finite negative ⟨index, index_lt⟩)).toNat =
        (if negative then signWeight else 0) + index := by
      simp only [toBits, UInt64.toNat_ofNat']
      cases negative <;> simp <;> omega
    have sign : decide (signWeight ≤ (if negative then signWeight else 0) + index) = negative := by
      cases negative <;> simp
      omega
    have rest : ((if negative then signWeight else 0) + index) % signWeight = index := by
      cases negative <;> simp [weight] <;> omega
    simp only [ofBits, word, sign, rest, index_lt, dif_pos]
  all_goals decide

end Binary64

end FourFunction
