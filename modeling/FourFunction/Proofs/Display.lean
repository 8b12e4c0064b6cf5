import FourFunction.Display
import FourFunction.Proofs.Decimal.Scientific

/-!
# The display of a finite double

A finite double is shown as the canonical numeral of its shortest decimal, rounded to five places
with halves away from zero. Each of the three steps has one outcome, so the text is determined by
the double alone.

## Main results

* `Binary64.display_eq_text`: the shown text as a canonical numeral;
* `Binary64.display_canonical`: the shortest decimal, the rounded number of places and the numeral,
  each as the only one of its kind.
-/

namespace FourFunction

/-- Rounding to the shown places is rounding halves away from zero. -/
theorem displayScaled_eq_iff {q : ℚ} {n : ℤ} :
    displayScaled q = n ↔ NearestAwayFromZero (q * 10 ^ 5) n := by
  rw [displayScaled, nearestInt_awayFromZero_eq_iff]
  rfl

namespace Binary64

/-- The number is the shortest decimal of the double: that of its magnitude, with its sign. -/
def IsShortestDecimal : Binary64 → ℚ → Prop
  | finite negative m, d => m.IsShortest (if negative then -d else d)
  | infinity _, _ => False
  | nan, _ => False

theorem toRat_signedShortest (negative : Bool) (m : Magnitude) :
    (signedShortest negative m).toRat =
      if negative then -m.shortest.toRat else m.shortest.toRat := by
  rw [signedShortest]
  split
  · rw [Decimal.toRat_neg]
  · rfl

/-- The shortest decimal of a finite double is the one that the search finds. -/
theorem isShortestDecimal_iff {negative : Bool} {m : Magnitude} {d : ℚ} :
    (finite negative m).IsShortestDecimal d ↔ d = (signedShortest negative m).toRat := by
  rw [IsShortestDecimal, Magnitude.isShortest_iff, toRat_signedShortest]
  cases negative
  · rfl
  · exact neg_eq_iff_eq_neg

/-- The shown text is that of a canonical numeral. -/
theorem display_eq_text (negative : Bool) (m : Magnitude) :
    (finite negative m).display = (CanonicalNumeral.ofScaled displayPlaces
      (displayScaled (signedShortest negative m).toRat)).text := by
  obtain ⟨d, hd, hvalue⟩ := exists_shortest?_eq negative m
  rw [display, hd, ← hvalue, CanonicalNumeral.text_ofScaled]
  -- zero is written without a fraction by either way
  by_cases hzero : displayScaled d.toRat = 0
  · simp only [hzero, if_true]
    decide
  · simp only [hzero, if_false]
    exact Numeral.trimZeros_fixed displayPlaces _

/-- A finite double has one shortest decimal, that decimal has one nearest whole number of
hundred-thousandths with halves away from zero, that number has one canonical numeral, and it is
the shown text, with five decimals at most. -/
theorem display_canonical (negative : Bool) (m : Magnitude) :
    ∃ d, (∀ d', (finite negative m).IsShortestDecimal d' ↔ d' = d) ∧
      ∃ n : ℤ, (∀ n', NearestAwayFromZero (d * 10 ^ 5) n' ↔ n' = n) ∧
        ∃ numeral : CanonicalNumeral, (∀ other, other.value = (n : ℚ) / 10 ^ 5 ↔ other = numeral) ∧
          numeral.fraction.length ≤ 5 ∧ (finite negative m).display = numeral.text := by
  refine ⟨(signedShortest negative m).toRat, fun d' => isShortestDecimal_iff, ?_⟩
  -- the three steps are taken one after the other, each on the outcome of the one before
  set n := displayScaled (signedShortest negative m).toRat with hn
  refine ⟨n, fun n' => displayScaled_eq_iff.symm.trans eq_comm, ?_⟩
  have hvalue : (CanonicalNumeral.ofScaled displayPlaces n).value = n / 10 ^ 5 :=
    CanonicalNumeral.value_ofScaled displayPlaces n
  refine ⟨CanonicalNumeral.ofScaled displayPlaces n, fun other => ?_, ?_, ?_⟩
  · rw [← hvalue]
    exact CanonicalNumeral.value_injective.eq_iff
  · exact CanonicalNumeral.length_fraction_ofScaled displayPlaces n
  · exact display_eq_text negative m

/-- A carry goes on into the whole part, whose zero stays. -/
example : (round false (9999996 / 1000000)).display = "10".toList := by decide +kernel

end Binary64

end FourFunction
