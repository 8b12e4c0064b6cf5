import FourFunction.Proofs.ReadBack

/-!
# When the display loses nothing

The text that is shown of a finite double is read as the same double exactly when nothing had to be
rounded: the shortest decimal of the double has no more places than are shown. One double is left
out, negative zero, since zero is shown without a sign.

That rounding never hits the double again by accident is due to the shortest decimal: if the rounded
number were read as the double too, the shortest decimal would have no more places than that number
(`Magnitude.exists_shortest_eq_of_gridPoint`).

## Main results

* `Binary64.display_eq_of_hasPlaces`: the shown text where nothing is rounded;
* `Binary64.evaluate_display_eq_self_iff`: the doubles that are read back, among them all from
  `2 ^ 36` onwards.
-/

namespace FourFunction

/-- The number has no more than the given number of digits after the point. -/
def HasPlaces (places : ℕ) (q : ℚ) : Prop := ∃ k : ℤ, q = k / 10 ^ places

theorem HasPlaces.neg {places : ℕ} {q : ℚ} (h : HasPlaces places q) : HasPlaces places (-q) := by
  obtain ⟨k, rfl⟩ := h
  refine ⟨-k, ?_⟩
  push_cast
  rw [neg_div]

/-- A number that is not negative has five places at most if it is a whole number of
hundred-thousandths. -/
theorem hasPlaces_five_iff {q : ℚ} (hq : 0 ≤ q) :
    HasPlaces 5 q ↔ ∃ j : ℕ, q = j * 10 ^ (-5 : ℤ) := by
  constructor
  · rintro ⟨k, rfl⟩
    rw [le_div_iff₀ (by positivity), zero_mul] at hq
    obtain ⟨j, rfl⟩ := Int.eq_ofNat_of_zero_le (show 0 ≤ k by exact_mod_cast hq)
    refine ⟨j, ?_⟩
    rw [tenZpow_neg_five, mul_one_div]
    push_cast
    rfl
  · rintro ⟨j, rfl⟩
    refine ⟨j, ?_⟩
    rw [tenZpow_neg_five, mul_one_div]
    push_cast
    rfl

/-- The number that is shown is read as the magnitude itself only if nothing was rounded. -/
theorem Magnitude.ofRat?_displayScaled_eq_some_iff {m : Magnitude} {n : ℕ}
    (hn : displayScaled m.shortest.toRat = n) :
    ofRat? (n * 10 ^ (-5 : ℤ)) = some m ↔ HasPlaces 5 m.shortest.toRat := by
  rw [hasPlaces_five_iff m.shortest_nonneg]
  constructor
  · intro hread
    exact exists_shortest_eq_of_gridPoint (by norm_num) (by norm_num) (ofRat?_eq_some_iff.1 hread)
  · rintro ⟨j, hj⟩
    have hjn : j = n := by
      rw [hj, displayScaled_gridPoint] at hn
      exact_mod_cast hn
    rw [← hjn, ← hj]
    exact (isShortest_shortest m).reads

/-- Nothing is rounded of a number that has no more places than are shown. -/
theorem HasPlaces.displayScaled_div {q : ℚ} (h : HasPlaces displayPlaces q) :
    (displayScaled q : ℚ) / 10 ^ displayPlaces = q := by
  obtain ⟨k, rfl⟩ := h
  have hscaled : (k : ℚ) / 10 ^ displayPlaces * 10 ^ 5 = k :=
    div_mul_cancel₀ _ (by positivity)
  rw [displayScaled_eq, hscaled, nearestInt_intCast]

/-- A numeral has as many places as there are digits in its fraction. -/
theorem CanonicalNumeral.hasPlaces {c : CanonicalNumeral} {places : ℕ}
    (h : c.fraction.length ≤ places) : HasPlaces places c.value := by
  have hsize : HasPlaces places c.size := by
    obtain ⟨more, rfl⟩ := Nat.exists_eq_add_of_le h
    refine ⟨(digitsValue c.whole * 10 ^ c.fraction.length + digitsValue c.fraction) * 10 ^ more, ?_⟩
    rw [size, pow_add]
    push_cast
    field_simp
  rw [value]
  split
  · exact hsize.neg
  · exact hsize

namespace Binary64

/-- A finite double is shown as its shortest decimal where nothing is rounded of that. -/
theorem display_eq_of_hasPlaces {negative : Bool} {m : Magnitude} {c : CanonicalNumeral}
    (hplaces : HasPlaces displayPlaces c.value)
    (hshortest : (signedShortest negative m).toRat = c.value) :
    (finite negative m).display = c.text := by
  have hnumeral : CanonicalNumeral.ofScaled displayPlaces (displayScaled c.value) = c := by
    apply CanonicalNumeral.value_injective
    rw [CanonicalNumeral.value_ofScaled, hplaces.displayScaled_div]
  rw [display_eq_text, hshortest, hnumeral]

theorem exists_isShortestDecimal_and_iff {negative : Bool} {m : Magnitude} :
    (∃ d, (finite negative m).IsShortestDecimal d ∧ HasPlaces 5 d) ↔
      HasPlaces 5 m.shortest.toRat := by
  simp only [isShortestDecimal_iff, exists_eq_left, toRat_signedShortest]
  cases negative
  · exact Iff.rfl
  · exact ⟨fun h => by simpa using h.neg, HasPlaces.neg⟩

/-- The text shown of a finite double is read as that double exactly when the double is not negative
zero and its shortest decimal has five places at most, which is always so from `2 ^ 36` onwards. -/
theorem evaluate_display_eq_self_iff (negative : Bool) (m : Magnitude) :
    ((evaluate (finite negative m).display).value = .ok (finite negative m) ↔
        finite negative m ≠ finite true .zero ∧
          ∃ d, (finite negative m).IsShortestDecimal d ∧ HasPlaces 5 d) ∧
      (2 ^ 36 ≤ |signedRat negative m| →
        (evaluate (finite negative m).display).value = .ok (finite negative m)) := by
  obtain ⟨n, hn⟩ := exists_displayScaled_eq m.shortest_nonneg
  obtain ⟨m', hread, -⟩ := Magnitude.exists_reads_displayScaled hn
  have hiff : (evaluate (finite negative m).display).value = .ok (finite negative m) ↔
      finite negative m ≠ finite true .zero ∧
        ∃ d, (finite negative m).IsShortestDecimal d ∧ HasPlaces 5 d := by
    rw [exists_isShortestDecimal_and_iff, ← Magnitude.ofRat?_displayScaled_eq_some_iff hn,
      evaluate_display hn hread, hread]
    simp only [Except.ok.injEq, finite.injEq, Option.some.injEq, ne_eq]
    constructor
    · rintro ⟨hsign, rfl⟩
      refine ⟨?_, rfl⟩
      rintro ⟨rfl, rfl⟩
      simp at hsign
    · rintro ⟨hzero, rfl⟩
      refine ⟨?_, rfl⟩
      cases negative
      · rfl
      · simpa using hzero
  refine ⟨hiff, fun hlarge => hiff.2 ⟨?_, ?_⟩⟩
  · rintro ⟨⟩
    rw [abs_signedRat_eq, Magnitude.toRat_eq_zero_iff.2 rfl] at hlarge
    exact absurd hlarge (by norm_num)
  · rw [abs_signedRat_eq] at hlarge
    rw [exists_isShortestDecimal_and_iff, hasPlaces_five_iff m.shortest_nonneg]
    exact Magnitude.exists_shortest_eq_gridPoint hlarge

/-- A third needs more than five places, and the double after `2 ^ 36` does not. -/
theorem evaluate_display_eq_self_iff_third :
    (¬ ∃ d, (finite false ⟨0x3FD5555555555555, by decide⟩).IsShortestDecimal d ∧ HasPlaces 5 d) ∧
      ∃ d, (finite true ⟨0x4230000000000001, by decide⟩).IsShortestDecimal d ∧ HasPlaces 5 d := by
  have hthird : (evaluate (finite false ⟨0x3FD5555555555555, by decide⟩).display).value ≠
      .ok (finite false ⟨0x3FD5555555555555, by decide⟩) := by
    decide +kernel
  have hlarge : 2 ^ 36 ≤ |signedRat true ⟨0x4230000000000001, by decide⟩| := by
    rw [abs_signedRat_eq, Magnitude.two_pow_le_toRat_iff]
    decide
  obtain ⟨hiff, -⟩ := evaluate_display_eq_self_iff false ⟨0x3FD5555555555555, by decide⟩
  obtain ⟨hiff', hself⟩ := evaluate_display_eq_self_iff true ⟨0x4230000000000001, by decide⟩
  exact ⟨fun hplaces => hthird (hiff.2 ⟨nofun, hplaces⟩), (hiff'.1 (hself hlarge)).2⟩

end Binary64

end FourFunction
