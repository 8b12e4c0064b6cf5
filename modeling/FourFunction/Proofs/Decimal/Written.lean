import FourFunction.Proofs.Decimal.Numeral
import Mathlib.Data.List.TakeWhile

/-!
# The value of a written number

The exact value of a text as it is written with digits, a point and a minus sign, read off its
characters without any grammar. It is the value of the canonical numeral that the text writes.

## Main results

* `decimalValue_append_point`: digits on both sides of a point;
* `CanonicalNumeral.writtenValue_text`: the value of a numeral is that of its text.
-/

namespace FourFunction

variable {text whole fraction : Text}

/-- The exact value of digits and a point: the digits as one whole number, divided by ten for each
character after the point. -/
def decimalValue (text : Text) : ℚ :=
  digitsValue (text.filter Char.isDigit) / 10 ^ (text.dropWhile (· ≠ '.')).tail.length

/-- The exact value of a text with a minus sign in front or without. -/
def writtenValue : Text → ℚ
  | '-' :: text => -decimalValue text
  | text => decimalValue text

/-- There is no point among digits. -/
theorem AllDigits.ne_point (h : AllDigits text) : ∀ c ∈ text, decide (c ≠ '.') = true := by
  intro c hc
  rw [decide_eq_true_iff]
  rintro rfl
  exact absurd (h '.' hc) (by decide)

/-- Without a point the digits write a whole number. -/
theorem decimalValue_of_allDigits (h : AllDigits whole) :
    decimalValue whole = digitsValue whole := by
  rw [decimalValue, List.filter_eq_self.2 h, List.dropWhile_eq_nil_iff.2 h.ne_point, List.tail_nil,
    List.length_nil, pow_zero, div_one]

/-- Digits on both sides of a point. -/
theorem decimalValue_append_point (hwhole : AllDigits whole) (hfraction : AllDigits fraction) :
    decimalValue (whole ++ '.' :: fraction) =
      digitsValue (whole ++ fraction) / 10 ^ fraction.length := by
  have hfilter : (whole ++ '.' :: fraction).filter Char.isDigit = whole ++ fraction := by
    rw [List.filter_append, List.filter_cons_of_neg (by decide), List.filter_eq_self.2 hwhole,
      List.filter_eq_self.2 hfraction]
  have hdrop : (whole ++ '.' :: fraction).dropWhile (· ≠ '.') = '.' :: fraction :=
    dropWhile_append_cons hwhole.ne_point rfl fraction
  rw [decimalValue, hfilter, hdrop, List.tail_cons]

/-- Without a minus sign in front the text is worth what its digits write. -/
theorem writtenValue_of_head?_ne (h : text.head? ≠ some '-') :
    writtenValue text = decimalValue text := by
  unfold writtenValue
  split
  · exact absurd rfl h
  · rfl

namespace CanonicalNumeral

/-- The text of a numeral without its sign. -/
def unsignedText (c : CanonicalNumeral) : Text :=
  c.whole ++ if c.fraction = [] then [] else '.' :: c.fraction

/-- The minus sign stands in front of the text of the size. -/
theorem text_eq (c : CanonicalNumeral) :
    c.text = if c.negative then '-' :: c.unsignedText else c.unsignedText := by
  rw [text, List.append_assoc, ← unsignedText]
  split <;> rfl

/-- A numeral without its sign begins with a digit. -/
theorem head?_unsignedText_ne (c : CanonicalNumeral) : c.unsignedText.head? ≠ some '-' := by
  obtain ⟨d, rest, hwhole⟩ := List.exists_cons_of_ne_nil c.wholeDigits.ne_nil
  have hd := c.wholeDigits.digits d (by rw [hwhole]; exact List.mem_cons_self)
  rw [unsignedText, hwhole, List.cons_append, List.head?_cons, ne_eq, Option.some.injEq]
  rintro rfl
  exact absurd hd (by decide)

/-- Without its sign a numeral writes its size. -/
theorem decimalValue_unsignedText (c : CanonicalNumeral) :
    decimalValue c.unsignedText = c.size := by
  rw [unsignedText, size]
  split
  · next h =>
    rw [List.append_nil, decimalValue_of_allDigits c.wholeDigits.digits, h]
    simp
  · rw [decimalValue_append_point c.wholeDigits.digits c.allDigits_fraction, digitsValue_append]
    push_cast
    rw [add_div, mul_div_cancel_right₀ _ (by positivity)]

/-- The value of a numeral is that of its text. -/
theorem writtenValue_text (c : CanonicalNumeral) : writtenValue c.text = c.value := by
  rw [text_eq, value, ← decimalValue_unsignedText]
  split
  · rfl
  · exact writtenValue_of_head?_ne c.head?_unsignedText_ne

end CanonicalNumeral

end FourFunction
