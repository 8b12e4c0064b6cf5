import FourFunction.Entry
import FourFunction.Proofs.Lossless

/-!
# Typed numbers

A number can be typed in many ways: with a sign or without, with zeros in front and at the end, with
the point first or last. Its canonical form is the text without all that. A typed number of no more
than fifteen digits and five places is shown in its canonical form when it is calculated.

On the way the number is rounded to a double, and the double's shortest decimal is shown. That it is
the typed number again is what fifteen digits are kept for (`Magnitude.shortest_eq_of_reads`).

## Main results

* `TypedNumber.value_canonical`: the canonical form writes the same number;
* `TypedNumber.calculate_eq_canonical`: calculating a typed number shows its canonical form.
-/

namespace FourFunction

/-! ## Typed numbers -/

/-- A number as it can be typed: a literal, with a sign in front or without. -/
structure TypedNumber where
  sign : Option Sign
  literal : Factor

namespace TypedNumber

/-- What is typed. -/
def text (t : TypedNumber) : Text := t.sign.toList.map Sign.symbol ++ t.literal.text

/-- The exact value of what is typed. -/
def value (t : TypedNumber) : ℚ :=
  if t.sign = some .minus then -t.literal.value else t.literal.value

/-- The text without superfluous zeros, without a bare point, and without a plus sign or a minus
sign in front of zero. -/
def canonical (t : TypedNumber) : CanonicalNumeral where
  negative := decide (t.sign = some .minus ∧
    ¬ (trimLeading t.literal.whole = ['0'] ∧ trimTrailing (t.literal.fraction.getD []) = []))
  whole := trimLeading t.literal.whole
  fraction := trimTrailing (t.literal.fraction.getD [])
  wholeDigits := wholeDigits_trimLeading t.literal.allDigits_whole
  allDigits_fraction := allDigits_trimTrailing t.literal.allDigits_fraction_getD
  no_trailing_zero := getLast?_trimTrailing _
  no_negative_zero h := (of_decide_eq_true h).2

theorem size_canonical (t : TypedNumber) : t.canonical.size = t.literal.value := by
  rw [CanonicalNumeral.size, Factor.value, digitsValue_append]
  change (digitsValue (trimLeading t.literal.whole) : ℚ) +
    digitsValue (trimTrailing (t.literal.fraction.getD [])) /
      10 ^ (trimTrailing (t.literal.fraction.getD [])).length = _
  rw [digitsValue_trimLeading, digitsValue_trimTrailing]
  push_cast
  rw [add_div, mul_div_cancel_right₀ _ (by positivity)]

/-- The canonical form writes the same number. -/
theorem value_canonical (t : TypedNumber) : t.canonical.value = t.value := by
  rw [CanonicalNumeral.value, value, size_canonical]
  by_cases hsign : t.sign = some .minus
  · by_cases hzero : trimLeading t.literal.whole = ['0'] ∧
        trimTrailing (t.literal.fraction.getD []) = []
    -- the sign is left out of zero only
    · have hvalue : t.literal.value = 0 := by
        rw [← size_canonical, CanonicalNumeral.size]
        simp [canonical, hzero.1, hzero.2, digitsValue, Nat.ofDigitChars]
      simp [hvalue]
    · simp [canonical, hsign, hzero]
  · simp [canonical, hsign]

/-- A typed number is read as the double that its literal is rounded to, with a minus sign in front
unless that is zero. -/
theorem valueOf_text (t : TypedNumber) {m : Magnitude}
    (hread : Magnitude.ofRat? t.literal.value = some m) :
    valueOf t.text =
      .ok (.finite (decide (t.sign = some .minus) && decide (m ≠ .zero)) m) := by
  have htext : t.text = (Sum.mk t.sign.toList ⟨t.literal, []⟩ [] []).text := by
    simp [text, Sum.text, Product.text]
  have hlast : t.sign.toList.getLast? = t.sign := by cases t.sign <;> rfl
  rw [htext, valueOf_signs_factor _ _ hread, hlast]

/-- A numeral as a whole number of its last place. -/
theorem exists_size_eq_gridPoint (c : CanonicalNumeral) :
    ∃ n : ℕ, n < 10 ^ (c.whole.length + c.fraction.length) ∧
      c.size = n * 10 ^ (-(c.fraction.length : ℤ)) := by
  refine ⟨digitsValue (c.whole ++ c.fraction), ?_, ?_⟩
  · rw [← List.length_append]
    exact digitsValue_lt (AllDigits.append_iff.2 ⟨c.wholeDigits.digits, c.allDigits_fraction⟩)
  · rw [CanonicalNumeral.size, digitsValue_append, zpow_neg, zpow_natCast]
    push_cast
    field_simp

/-- The shortest decimal of the double that a typed number is read as is the typed number. -/
theorem toRat_signedShortest_of_reads (t : TypedNumber) {m : Magnitude}
    (hshortest : m.shortest.toRat = t.literal.value) :
    (Binary64.signedShortest (decide (t.sign = some .minus) && decide (m ≠ .zero)) m).toRat =
      t.value := by
  rw [Binary64.toRat_signedShortest, hshortest, value]
  rcases eq_or_ne m .zero with rfl | hm
  · rw [Magnitude.toRat_shortest_zero] at hshortest
    simp [← hshortest]
  · simp [hm]

/-- A typed number whose canonical form has no more than fifteen digits and five places is shown in
canonical form when it is calculated, and is then the entry. -/
theorem calculate_eq_canonical (t : TypedNumber)
    (hdigits : t.canonical.whole.length + t.canonical.fraction.length ≤ 15)
    (hplaces : t.canonical.fraction.length ≤ 5) :
    (Entry.mk t.text).calculate.value = (.ok t.canonical.text, ⟨t.canonical.text⟩) := by
  obtain ⟨n, hn, hsize⟩ := exists_size_eq_gridPoint t.canonical
  have hn15 : n < 10 ^ 15 := hn.trans_le (Nat.pow_le_pow_right (by norm_num) hdigits)
  -- fifteen digits do not overflow
  have hle : t.canonical.size ≤ 2 ^ 50 := by
    have hone : (10 : ℚ) ^ (-(t.canonical.fraction.length : ℤ)) ≤ 10 ^ (0 : ℤ) :=
      tenZpow_le (by omega)
    have hnQ : (n : ℚ) ≤ 2 ^ 50 := by exact_mod_cast hn15.le.trans (by norm_num)
    rw [hsize]
    rw [zpow_zero] at hone
    exact (mul_le_of_le_one_right (Nat.cast_nonneg n) hone).trans hnQ
  obtain ⟨m, hm, -⟩ := Magnitude.exists_reads_of_le t.canonical.size_nonneg hle (by norm_num)
  -- the shortest decimal of the double is the typed number, so nothing is rounded when it is shown
  have hshortest : m.shortest.toRat = t.literal.value := by
    rw [hsize] at hm
    rw [← size_canonical, hsize]
    exact Magnitude.shortest_eq_of_reads (by omega) (by omega) hn15 hm
  rw [size_canonical, ← Magnitude.ofRat?_eq_some_iff] at hm
  have hvalue : (evaluate (Entry.mk t.text).text).value =
      .ok (.finite (decide (t.sign = some .minus) && decide (m ≠ .zero)) m) := by
    rw [value_evaluate]
    exact t.valueOf_text hm
  have hdisplay := Binary64.display_eq_of_hasPlaces (t.canonical.hasPlaces hplaces)
    ((t.toRat_signedShortest_of_reads hshortest).trans t.value_canonical.symm)
  rw [Entry.value_calculate_of_ok hvalue, hdisplay]

/-- As many digits and places as are kept, with a zero too many at either end. -/
theorem calculate_ten_and_five :
    (Entry.mk "-01234567890.123450".toList).calculate.value =
      (.ok "-1234567890.12345".toList, ⟨"-1234567890.12345".toList⟩) := by
  have h := calculate_eq_canonical
    ⟨some .minus, "01234567890".toList, some "123450".toList, by decide, by decide, by decide⟩
    (by decide) (by decide)
  exact h

end TypedNumber

end FourFunction
