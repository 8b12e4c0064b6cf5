import FourFunction.Proofs.Decimal.Written
import FourFunction.Proofs.ReadBack

/-!
# The order of what is shown

What is shown of a double is rounded twice, to its shortest decimal and from there to five places,
and the shortest decimals of two doubles are searched for apart from each other. Both roundings keep
the order all the same. Each shortest decimal is read as its own double, and reading keeps the
order, so it lies on the same side as the double.

Both roundings also treat the two signs alike, so the opposite double shows the same digits, and the
sign is all that differs. A number that is shown as zero has none.

## Main results

* `Magnitude.shortest_mono`: shortest decimals are in the order of the magnitudes;
* `Binary64.writtenValue_display_mono`: shown numbers are in the order of the doubles;
* `Binary64.display_neg`: the text of the opposite double;
* `Binary64.display_mono_and_neg`: both together, for any finite doubles.
-/

namespace FourFunction

/-! ## Texts of opposite numbers -/

/-- The text with its leading minus sign removed, or with one added if there is none. -/
def oppositeText : Text → Text
  | '-' :: text => text
  | text => '-' :: text

/-- A text without a minus sign gets one. -/
theorem oppositeText_of_head?_ne {text : Text} (h : text.head? ≠ some '-') :
    oppositeText text = '-' :: text := by
  unfold oppositeText
  split
  · exact absurd rfl h
  · rfl

namespace CanonicalNumeral

variable {places : ℕ} {scaled : ℤ}

/-- Only zero is written as the digit zero alone. -/
theorem text_ofScaled_eq_zero_iff : (ofScaled places scaled).text = ['0'] ↔ scaled = 0 := by
  constructor
  · intro h
    have hvalue := writtenValue_text (ofScaled places scaled)
    rw [h, value_ofScaled, show writtenValue ['0'] = 0 by decide +kernel, eq_comm,
      div_eq_zero_iff, or_iff_left (by positivity), Int.cast_eq_zero] at hvalue
    exact hvalue
  · rintro rfl
    rw [text_ofScaled, Numeral.ofScaled]
    simp [Numeral.pointed, Nat.toDigits_zero]

/-- Opposite numbers have the same digits. -/
theorem unsignedText_ofScaled_neg :
    (ofScaled places (-scaled)).unsignedText = (ofScaled places scaled).unsignedText := by
  have hwhole : (ofScaled places (-scaled)).whole = (ofScaled places scaled).whole := by
    simp only [ofScaled, Int.natAbs_neg]
  have hfraction : (ofScaled places (-scaled)).fraction = (ofScaled places scaled).fraction := by
    simp only [ofScaled, Int.natAbs_neg]
  rw [unsignedText, unsignedText, hwhole, hfraction]

/-- Opposite numbers differ in their minus sign, unless they are zero. -/
theorem text_ofScaled_neg (h : scaled ≠ 0) :
    (ofScaled places (-scaled)).text = oppositeText (ofScaled places scaled).text := by
  rw [text_eq, text_eq, unsignedText_ofScaled_neg]
  have hopposite :=
    oppositeText_of_head?_ne (ofScaled places scaled).head?_unsignedText_ne
  rcases h.lt_or_gt with hneg | hpos
  · rw [if_neg (by simp [ofScaled]; omega), if_pos (by simpa [ofScaled] using hneg)]
    rfl
  · rw [if_pos (by simpa [ofScaled] using hpos), if_neg (by simp [ofScaled]; omega), hopposite]

end CanonicalNumeral

/-! ## Order -/

/-- Shortest decimals are in the order of the magnitudes: in the other order they would be read as
magnitudes in the other order. -/
theorem Magnitude.shortest_mono {m k : Magnitude} (h : m.toRat ≤ k.toRat) :
    m.shortest.toRat ≤ k.shortest.toRat := by
  by_contra hlt
  have hread := nearestIndex_mono k.shortest_nonneg (not_le.1 hlt).le
  have hmono := nearestIndex_mono m.toRat_nonneg h
  rw [nearestIndex_shortest, nearestIndex_shortest] at hread
  rw [nearestIndex_toRat, nearestIndex_toRat] at hmono
  obtain rfl : m = k := Magnitude.ext (le_antisymm hmono hread)
  exact hlt le_rfl

/-- Rounding to hundred-thousandths keeps the order. -/
theorem displayScaled_mono {q r : ℚ} (h : q ≤ r) : displayScaled q ≤ displayScaled r := by
  rw [displayScaled_eq, displayScaled_eq]
  exact nearestInt_mono .awayFromZero (by linarith)

namespace Binary64

variable {negative other : Bool} {m k : Magnitude}

/-- Shortest decimals are in the order of the doubles. -/
theorem signedShortest_mono (h : signedRat negative m ≤ signedRat other k) :
    (signedShortest negative m).toRat ≤ (signedShortest other k).toRat := by
  have hm := m.toRat_nonneg
  have hk := k.toRat_nonneg
  have hsm := m.shortest_nonneg
  have hsk := k.shortest_nonneg
  rw [toRat_signedShortest, toRat_signedShortest]
  cases negative <;> cases other <;>
    simp only [signedRat, Bool.false_eq_true, if_false, if_true] at h ⊢
  · exact Magnitude.shortest_mono h
  -- only the two zeros are in this order
  · have hmzero : m.toRat = 0 := by linarith
    have hkzero : k.toRat = 0 := by linarith
    rw [Magnitude.toRat_eq_zero_iff.1 hmzero, Magnitude.toRat_eq_zero_iff.1 hkzero,
      Magnitude.toRat_shortest_zero, neg_zero]
  · linarith
  · exact neg_le_neg (Magnitude.shortest_mono (neg_le_neg_iff.1 h))

/-- The number on the text, as a whole number of hundred-thousandths. -/
theorem writtenValue_display (negative : Bool) (m : Magnitude) :
    writtenValue (finite negative m).display =
      displayScaled (signedShortest negative m).toRat / 10 ^ displayPlaces := by
  rw [display_eq_text, CanonicalNumeral.writtenValue_text, CanonicalNumeral.value_ofScaled]

/-- Shown numbers are in the order of the doubles. -/
theorem writtenValue_display_mono (h : signedRat negative m ≤ signedRat other k) :
    writtenValue (finite negative m).display ≤ writtenValue (finite other k).display := by
  rw [writtenValue_display, writtenValue_display]
  have hscaled := displayScaled_mono (signedShortest_mono h)
  gcongr

/-! ## Signs -/

/-- Zero is shown for what is rounded to no hundred-thousandths. -/
theorem display_eq_zero_iff :
    (finite negative m).display = ['0'] ↔
      displayScaled (signedShortest negative m).toRat = 0 := by
  rw [display_eq_text, CanonicalNumeral.text_ofScaled_eq_zero_iff]

/-- The other sign gives the opposite number of hundred-thousandths. -/
theorem displayScaled_signedShortest_not (negative : Bool) (m : Magnitude) :
    displayScaled (signedShortest (!negative) m).toRat =
      -displayScaled (signedShortest negative m).toRat := by
  rw [toRat_signedShortest, toRat_signedShortest, ← displayScaled_neg]
  cases negative <;> simp

/-- The opposite double is shown with the minus sign added or removed, unless zero is shown. -/
theorem display_neg (negative : Bool) (m : Magnitude) :
    (-finite negative m).display =
      if (finite negative m).display = ['0'] then ['0']
      else oppositeText (finite negative m).display := by
  show (finite (!negative) m).display = _
  have hscaled := displayScaled_signedShortest_not negative m
  split
  · next h =>
    rw [display_eq_zero_iff] at h ⊢
    rw [hscaled, h, neg_zero]
  · next h =>
    rw [display_eq_zero_iff] at h
    rw [display_eq_text, display_eq_text, hscaled, CanonicalNumeral.text_ofScaled_neg h]

/-- The numbers shown of two finite doubles are in the order of the doubles. The opposite of a
finite double is shown with the minus sign added or removed, except that both are shown as zero if
one of them is. -/
theorem display_mono_and_neg :
    (∀ negative m other k, signedRat negative m ≤ signedRat other k →
        writtenValue (finite negative m).display ≤ writtenValue (finite other k).display) ∧
      ∀ negative m,
        ((-finite negative m).display = ['0'] ↔ (finite negative m).display = ['0']) ∧
          ((finite negative m).display ≠ ['0'] →
            (-finite negative m).display = oppositeText (finite negative m).display) := by
  refine ⟨fun _ _ _ _ => writtenValue_display_mono, fun negative m => ⟨?_, fun h => ?_⟩⟩
  · show (finite (!negative) m).display = _ ↔ _
    rw [display_eq_zero_iff, display_eq_zero_iff, displayScaled_signedShortest_not, neg_eq_zero]
  · rw [display_neg, if_neg h]

/-- The opposite of the smallest double is shown as zero and does not exceed a third. The opposite of
a third has the digits of a third. -/
theorem display_mono_and_neg_third :
    writtenValue (finite true ⟨1, by decide⟩).display ≤
        writtenValue (finite false ⟨0x3FD5555555555555, by decide⟩).display ∧
      (-finite false ⟨1, by decide⟩).display = ['0'] ∧
      (-finite false ⟨0x3FD5555555555555, by decide⟩).display = "-0.33333".toList := by
  have hthird : (finite false ⟨0x3FD5555555555555, by decide⟩).display = "0.33333".toList := by
    decide +kernel
  obtain ⟨hmono, hneg⟩ := display_mono_and_neg
  refine ⟨hmono _ _ _ _ (by decide +kernel), (hneg _ _).1.2 (by decide +kernel), ?_⟩
  rw [(hneg _ _).2 (by rw [hthird]; decide), hthird]
  rfl

end Binary64

end FourFunction
