import FourFunction.Decimal.Numeral
import FourFunction.Proofs.Decimal.Digits
import Mathlib.Data.Rat.Floor
import Mathlib.Tactic.FieldSimp

/-!
# Canonical numerals

A numeral in canonical form, with its text and its exact value: no superfluous zero at either end,
no bare point, no sign on zero. There is at most one such numeral of a value, and a whole number of
places has one, which is the text that `Numeral.ofScaled` writes.

## Main results

* `CanonicalNumeral.value_injective`: no two canonical numerals have one value;
* `CanonicalNumeral.text_ofScaled`, `CanonicalNumeral.value_ofScaled`: the numeral of a whole number
  of places.
-/

namespace FourFunction

/-- A numeral in canonical form. -/
structure CanonicalNumeral where
  /-- It has a minus sign. -/
  negative : Bool
  /-- The digits before the point. -/
  whole : Text
  /-- The digits after the point; without any there is no point. -/
  fraction : Text
  wholeDigits : WholeDigits whole
  allDigits_fraction : AllDigits fraction
  no_trailing_zero : fraction.getLast? ≠ some '0'
  no_negative_zero : negative = true → ¬ (whole = ['0'] ∧ fraction = [])

namespace CanonicalNumeral

variable {c c' : CanonicalNumeral}

/-- How the numeral is written. -/
def text (c : CanonicalNumeral) : Text :=
  (if c.negative then ['-'] else []) ++ c.whole ++
    (if c.fraction = [] then [] else '.' :: c.fraction)

/-- The numeral without its sign, as a number. -/
def size (c : CanonicalNumeral) : ℚ :=
  digitsValue c.whole + digitsValue c.fraction / 10 ^ c.fraction.length

/-- The exact value of the numeral. -/
def value (c : CanonicalNumeral) : ℚ := if c.negative then -c.size else c.size

/-- A size is not negative. -/
theorem size_nonneg (c : CanonicalNumeral) : 0 ≤ c.size := by
  unfold size
  positivity

/-- The fraction is less than one. -/
theorem fraction_lt_one (h : AllDigits c.fraction) :
    (digitsValue c.fraction : ℚ) / 10 ^ c.fraction.length < 1 := by
  rw [div_lt_one (by positivity)]
  exact_mod_cast digitsValue_lt h

/-- The whole part of the size is what the digits before the point write. -/
theorem floor_size (c : CanonicalNumeral) : ⌊c.size⌋ = digitsValue c.whole := by
  have hlt := fraction_lt_one c.allDigits_fraction
  have hnonneg : (0 : ℚ) ≤ digitsValue c.fraction / 10 ^ c.fraction.length := by positivity
  rw [Int.floor_eq_iff, size]
  push_cast
  constructor <;> linarith

/-! ## One numeral for a value -/

/-- A fraction that does not end in a zero is not a longer one cut short. -/
theorem fraction_length_le {f g : Text} (hf : AllDigits f) (hg : AllDigits g)
    (hlast : g.getLast? ≠ some '0')
    (hval : (digitsValue f : ℚ) / 10 ^ f.length = digitsValue g / 10 ^ g.length) :
    g.length ≤ f.length := by
  by_contra hlt
  -- padded with zeros the shorter one has the other's length and value
  set pad := List.replicate (g.length - f.length) '0' with hpad
  have hdigits : AllDigits (f ++ pad) :=
    AllDigits.append_iff.2 ⟨hf, fun c hc => by rw [List.eq_of_mem_replicate hc]; rfl⟩
  have hlen : (f ++ pad).length = g.length := by
    rw [List.length_append, hpad, List.length_replicate]
    omega
  have hpow : (10 : ℚ) ^ g.length = 10 ^ f.length * 10 ^ pad.length := by
    rw [← pow_add, ← hlen, List.length_append]
  have hvalue : digitsValue (f ++ pad) = digitsValue g := by
    rw [digitsValue_append, hpad, digitsValue_replicate_zero, Nat.add_zero]
    rw [hpow, div_eq_div_iff (by positivity) (by positivity)] at hval
    have h : (digitsValue f : ℚ) * 10 ^ pad.length = digitsValue g := by
      apply mul_right_cancel₀ (pow_ne_zero f.length (by norm_num : (10 : ℚ) ≠ 0))
      linarith
    exact_mod_cast h
  -- so it is the other one, which then ends in a zero of the padding
  have heq := eq_of_digitsValue_eq hdigits hg hlen hvalue
  refine hlast ?_
  obtain ⟨j, hj⟩ : ∃ j, g.length - f.length = j + 1 := ⟨g.length - f.length - 1, by omega⟩
  rw [← heq, hpad, hj, List.replicate_succ', ← List.append_assoc, List.getLast?_append_cons]
  rfl

/-- Two fractions of one value that do not end in a zero have the same digits. -/
theorem fraction_eq_of_value_eq {f g : Text} (hf : AllDigits f) (hg : AllDigits g)
    (hflast : f.getLast? ≠ some '0') (hglast : g.getLast? ≠ some '0')
    (hval : (digitsValue f : ℚ) / 10 ^ f.length = digitsValue g / 10 ^ g.length) : f = g := by
  have hlen : f.length = g.length :=
    le_antisymm (fraction_length_le hg hf hflast hval.symm) (fraction_length_le hf hg hglast hval)
  refine eq_of_digitsValue_eq hf hg hlen ?_
  rw [hlen, div_left_inj' (by positivity)] at hval
  exact_mod_cast hval

/-- Two numerals of one size have the same digits. -/
theorem digits_eq_of_size_eq (h : c.size = c'.size) :
    c.whole = c'.whole ∧ c.fraction = c'.fraction := by
  -- the whole part is the floor, and what remains is the fraction
  have hwhole : digitsValue c.whole = digitsValue c'.whole := by
    have := congrArg Int.floor h
    rw [floor_size, floor_size] at this
    exact_mod_cast this
  have hfraction : (digitsValue c.fraction : ℚ) / 10 ^ c.fraction.length =
      digitsValue c'.fraction / 10 ^ c'.fraction.length := by
    rw [size, size, hwhole] at h
    exact add_left_cancel h
  exact ⟨c.wholeDigits.eq_of_digitsValue_eq c'.wholeDigits hwhole,
    fraction_eq_of_value_eq c.allDigits_fraction c'.allDigits_fraction c.no_trailing_zero
      c'.no_trailing_zero hfraction⟩

/-- The numeral zero, the only one of its size. -/
def zero : CanonicalNumeral where
  negative := false
  whole := ['0']
  fraction := []
  wholeDigits := wholeDigits_toDigits 0
  allDigits_fraction := AllDigits.nil
  no_trailing_zero := by simp
  no_negative_zero := by simp

theorem size_zero : zero.size = 0 := by
  rw [size]
  norm_num [zero, digitsValue, Nat.ofDigitChars]

/-- There is no negative numeral of zero. -/
theorem negative_eq_false_of_size_eq_zero (h : c.size = 0) : c.negative = false := by
  rw [← size_zero] at h
  obtain ⟨hwhole, hfraction⟩ := digits_eq_of_size_eq h
  by_contra hneg
  exact c.no_negative_zero (by simpa using hneg) ⟨hwhole, hfraction⟩

/-- No two canonical numerals have one value. -/
theorem value_injective : Function.Injective value := by
  intro c c' h
  have hc := c.size_nonneg
  have hc' := c'.size_nonneg
  have hsize : c.size = c'.size ∧ c.negative = c'.negative := by
    unfold value at h
    split_ifs at h with hneg hneg' hneg'
    · exact ⟨neg_injective h, hneg.trans hneg'.symm⟩
    -- a numeral and one of the opposite sign are both zero, which has no sign
    · have h0 : c.size = 0 := by linarith
      exact absurd hneg (by simp [negative_eq_false_of_size_eq_zero h0])
    · have h0 : c'.size = 0 := by linarith
      exact absurd hneg' (by simp [negative_eq_false_of_size_eq_zero h0])
    · exact ⟨h, by rw [Bool.eq_false_of_not_eq_true hneg, Bool.eq_false_of_not_eq_true hneg']⟩
  obtain ⟨hwhole, hfraction⟩ := digits_eq_of_size_eq hsize.1
  have hnegative := hsize.2
  cases c
  cases c'
  simp_all

end CanonicalNumeral

/-! ## Writing a whole number of places -/

namespace Numeral

variable {places rest : ℕ}

/-- The first place is the quotient by a power of ten, the other places write the remainder. -/
theorem fractionDigits_succ (hrest : rest ≠ 0) : fractionDigits (places + 1) rest =
    Nat.digitChar (rest / 10 ^ places) :: fractionDigits places (rest % 10 ^ places) := by
  rw [fractionDigits, if_neg hrest]
  rfl

/-- The first place of a fraction is one digit. -/
theorem div_pow_lt_ten (h : rest < 10 ^ (places + 1)) : rest / 10 ^ places < 10 := by
  rw [Nat.div_lt_iff_lt_mul (by positivity), mul_comm, ← pow_succ]
  exact h

theorem mod_pow_lt (places rest : ℕ) : rest % 10 ^ places < 10 ^ places :=
  Nat.mod_lt _ (by positivity)

/-- The places of a fraction are digits. -/
theorem allDigits_fractionDigits (h : rest < 10 ^ places) :
    AllDigits (fractionDigits places rest) := by
  induction places generalizing rest with
  | zero => exact AllDigits.nil
  | succ places ih =>
    by_cases hrest : rest = 0
    · rw [hrest, fractionDigits_zero]
      exact AllDigits.nil
    · rw [fractionDigits_succ hrest, AllDigits.cons_iff, Nat.isDigit_digitChar, decide_eq_true_eq]
      exact ⟨div_pow_lt_ten h, ih (mod_pow_lt places rest)⟩

/-- No more places are written than asked for. -/
theorem length_fractionDigits_le (places rest : ℕ) :
    (fractionDigits places rest).length ≤ places := by
  induction places generalizing rest with
  | zero => exact le_rfl
  | succ places ih =>
    by_cases hrest : rest = 0
    · rw [hrest, fractionDigits_zero]
      exact Nat.zero_le _
    · rw [fractionDigits_succ hrest, List.length_cons]
      exact Nat.succ_le_succ (ih _)

/-- The digits written are those of the fraction. -/
theorem digitsValue_fractionDigits (h : rest < 10 ^ places) :
    (digitsValue (fractionDigits places rest) : ℚ) / 10 ^ (fractionDigits places rest).length =
      rest / 10 ^ places := by
  induction places generalizing rest with
  | zero =>
    obtain rfl : rest = 0 := by omega
    simp
  | succ places ih =>
    by_cases hrest : rest = 0
    · rw [hrest, fractionDigits_zero]
      simp
    have hrem := ih (mod_pow_lt places rest)
    have hsplit : ((rest / 10 ^ places * 10 ^ places + rest % 10 ^ places : ℕ) : ℚ) = rest := by
      rw [Nat.div_add_mod']
    -- the first digit counts tenths, and the others are those of the remainder
    rw [fractionDigits_succ hrest, digitsValue_cons, digitOf_digitChar (div_pow_lt_ten h),
      List.length_cons]
    generalize fractionDigits places (rest % 10 ^ places) = digits at hrem
    generalize rest / 10 ^ places = lead at hsplit
    calc ((lead * 10 ^ digits.length + digitsValue digits : ℕ) : ℚ) / 10 ^ (digits.length + 1)
        = (lead + digitsValue digits / 10 ^ digits.length) / 10 := by
          push_cast
          field_simp
          ring
      _ = (lead + ((rest % 10 ^ places : ℕ) : ℚ) / 10 ^ places) / 10 := by rw [hrem]
      _ = rest / 10 ^ (places + 1) := by
          rw [← hsplit]
          push_cast
          field_simp
          ring

/-- No place is written only if the fraction is zero. -/
theorem fractionDigits_eq_nil_iff (h : rest < 10 ^ places) :
    fractionDigits places rest = [] ↔ rest = 0 := by
  constructor
  · intro hnil
    have hvalue := digitsValue_fractionDigits h
    rwa [hnil, digitsValue_nil, Nat.cast_zero, zero_div, eq_comm, div_eq_zero_iff,
      or_iff_left (by positivity), Nat.cast_eq_zero] at hvalue
  · rintro rfl
    exact fractionDigits_zero places

/-- The last place that is written is not zero. -/
theorem getLast?_fractionDigits (h : rest < 10 ^ places) :
    (fractionDigits places rest).getLast? ≠ some '0' := by
  induction places generalizing rest with
  | zero => simp [fractionDigits]
  | succ places ih =>
    by_cases hrest : rest = 0
    · simp [hrest]
    have hlast := ih (mod_pow_lt places rest)
    rw [fractionDigits_succ hrest, List.getLast?_cons]
    cases hdigits : (fractionDigits places (rest % 10 ^ places)).getLast? with
    | some c => simpa [hdigits] using hlast
    | none =>
      -- nothing follows, so the remainder is zero and this digit is all of the number
      have hzero := (fractionDigits_eq_nil_iff (mod_pow_lt places rest)).1
        (List.getLast?_eq_none_iff.1 hdigits)
      have hsplit := Nat.div_add_mod' rest (10 ^ places)
      rw [hzero, Nat.add_zero] at hsplit
      have hlead : rest / 10 ^ places ≠ 0 := by
        intro h0
        rw [h0, Nat.zero_mul] at hsplit
        exact hrest hsplit.symm
      simpa [Nat.digitChar_eq_zero] using hlead

end Numeral

namespace CanonicalNumeral

/-- The canonical numeral of a whole number of places. -/
def ofScaled (places : ℕ) (scaled : ℤ) : CanonicalNumeral where
  negative := decide (scaled < 0)
  whole := Nat.toDigits 10 (scaled.natAbs / 10 ^ places)
  fraction := Numeral.fractionDigits places (scaled.natAbs % 10 ^ places)
  wholeDigits := wholeDigits_toDigits _
  allDigits_fraction := Numeral.allDigits_fractionDigits (Numeral.mod_pow_lt _ _)
  no_trailing_zero := Numeral.getLast?_fractionDigits (Numeral.mod_pow_lt _ _)
  no_negative_zero hneg := by
    rintro ⟨hwhole, hfraction⟩
    -- quotient and remainder are both zero, but a negative number is not
    rw [Numeral.fractionDigits_eq_nil_iff (Numeral.mod_pow_lt _ _)] at hfraction
    have hquot := congrArg digitsValue hwhole
    rw [digitsValue_toDigits] at hquot
    have hsplit := Nat.div_add_mod' scaled.natAbs (10 ^ places)
    rw [hquot, hfraction, show digitsValue ['0'] = 0 from rfl] at hsplit
    simp only [decide_eq_true_eq] at hneg
    omega

variable (places : ℕ) (scaled : ℤ)

/-- `Numeral.ofScaled` writes that numeral. -/
theorem text_ofScaled : (ofScaled places scaled).text = Numeral.ofScaled places scaled := by
  have hpointed : ∀ digits : Text,
      Numeral.pointed digits = if digits = [] then [] else '.' :: digits := by
    intro digits
    cases digits <;> rfl
  simp only [text, ofScaled, Numeral.ofScaled, hpointed, decide_eq_true_eq]
  rfl

/-- A number of scaled units has no more places than the scale. -/
theorem length_fraction_ofScaled : (ofScaled places scaled).fraction.length ≤ places :=
  Numeral.length_fractionDigits_le _ _

/-- The size of a number of scaled units. -/
theorem size_ofScaled : (ofScaled places scaled).size = |(scaled : ℚ)| / 10 ^ places := by
  have hsplit := Nat.div_add_mod' scaled.natAbs (10 ^ places)
  have habs : |(scaled : ℚ)| = (scaled.natAbs : ℚ) := by
    rw [Nat.cast_natAbs, Int.cast_abs]
  rw [size, ofScaled, digitsValue_toDigits,
    Numeral.digitsValue_fractionDigits (Numeral.mod_pow_lt _ _), habs]
  conv_rhs => rw [← hsplit]
  push_cast
  field_simp

/-- It has the value of that number of places. -/
theorem value_ofScaled : (ofScaled places scaled).value = scaled / 10 ^ places := by
  rw [value, size_ofScaled]
  by_cases hneg : scaled < 0
  · have hneg' : (scaled : ℚ) < 0 := by exact_mod_cast hneg
    rw [if_pos (by simpa [ofScaled] using hneg), abs_of_neg hneg', neg_div, neg_neg]
  · have hnonneg : (0 : ℚ) ≤ scaled := by exact_mod_cast not_lt.1 hneg
    rw [if_neg (by simpa [ofScaled] using hneg), abs_of_nonneg hnonneg]

/-- Without places it is the ordinary decimal writing of the whole number. -/
theorem text_ofScaled_zero : (ofScaled 0 scaled).text = (toString scaled).toList := by
  rw [text_ofScaled, Numeral.ofScaled, Nat.pow_eq, pow_zero, Nat.div_one, Nat.mod_one]
  cases scaled with
  | ofNat n =>
    show (if (n : ℤ) < 0 then ['-'] else []) ++ Nat.toDigits 10 n ++ [] = (Nat.repr n).toList
    rw [if_neg (by omega), List.nil_append, List.append_nil, Nat.toList_repr]
  | negSucc n =>
    show _ ++ Nat.toDigits 10 (n + 1) ++ [] = ("-" ++ Nat.repr (n + 1)).toList
    rw [if_pos (Int.negSucc_lt_zero n), List.append_nil, String.toList_append, Nat.toList_repr]
    rfl

end CanonicalNumeral

end FourFunction
