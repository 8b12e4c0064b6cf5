import FourFunction.Proofs.Decimal.Faithful
import FourFunction.Proofs.Decimal.Fixed

/-!
# Reading scientific notation

A decimal that is written in scientific notation is read back with its value. Only its zeros at the
end are lost, and with them the exponent that counted them. The reader keeps exponents of 64 bits;
those of the shortest decimals of doubles have four digits at most.

## Main results

* `Decimal.map_toRat_ofScientific?`: a written decimal is read back with its value;
* `Magnitude.leadingPlace_shortest`: the exponents that doubles are written with;
* `Binary64.exists_shortest?_eq`: reading gives the shortest decimal that the search finds.
-/

namespace FourFunction

/-! ## Cutting a text in two -/

section SplitOnce

variable {mark : Char} {front : Text}

/-- A text is cut at the first mark in it. -/
theorem splitOnce?_append_cons (h : mark ∉ front) (back : Text) :
    splitOnce? mark (front ++ mark :: back) = some (front, back) := by
  have hfront : ∀ c ∈ front, (c != mark) = true := by
    intro c hc
    rw [bne_iff_ne]
    rintro rfl
    exact h hc
  have hmark : (mark != mark) = false := bne_self_eq_false mark
  rw [splitOnce?, dropWhile_append_cons hfront hmark, takeWhile_append_cons hfront hmark]

/-- A text without a mark is not cut. -/
theorem splitOnce?_eq_none (h : mark ∉ front) : splitOnce? mark front = none := by
  have hfront : front.dropWhile (· != mark) = [] := by
    rw [List.dropWhile_eq_nil_iff]
    intro c hc
    rw [bne_iff_ne]
    rintro rfl
    exact h hc
  rw [splitOnce?, hfront]

/-- A character that is no digit stands in no text of digits. -/
theorem AllDigits.notMem {c : Char} (h : AllDigits front) (hc : c.isDigit = false) : c ∉ front :=
  fun hmem => absurd (h c hmem) (by rw [hc]; exact Bool.false_ne_true)

/-- What stands before and after the point, if anything stands after it. -/
theorem splitOnce?_pointed (h : AllDigits front) (digits : Text) :
    (splitOnce? '.' (front ++ Numeral.pointed digits)).getD (front ++ Numeral.pointed digits, []) =
      (front, digits) := by
  have hpoint : '.' ∉ front := h.notMem (by decide)
  cases digits with
  | nil => rw [Numeral.pointed, List.append_nil, splitOnce?_eq_none hpoint, Option.getD_none]
  | cons d digits =>
    rw [show Numeral.pointed (d :: digits) = '.' :: d :: digits from rfl,
      splitOnce?_append_cons hpoint, Option.getD_some]

end SplitOnce

/-! ## Whole numbers -/

section Integers

variable {digits : Text} {n : ℤ}

theorem natural?_of_allDigits (h : AllDigits digits) (hne : digits ≠ []) :
    natural? digits = some (digitsValue digits) :=
  if_pos ⟨hne, List.all_eq_true.2 h⟩

/-- Digits without a sign are read as their value. -/
theorem integer?_of_allDigits (h : AllDigits digits) (hne : digits ≠ []) :
    integer? digits = some (digitsValue digits : ℤ) := by
  obtain ⟨c, rest, rfl⟩ := List.exists_cons_of_ne_nil hne
  have hc := (AllDigits.cons_iff.1 h).1
  rw [integer?, natural?_of_allDigits h hne]
  · rfl
  -- a digit is neither of the signs
  · rintro rest' heq
    obtain ⟨rfl, -⟩ := List.cons.inj heq
    exact absurd hc (by decide)
  · rintro rest' heq
    obtain ⟨rfl, -⟩ := List.cons.inj heq
    exact absurd hc (by decide)

/-- A whole number is read back from its digits and its sign. -/
theorem integer?_fixed_zero (n : ℤ) : integer? (Numeral.fixed 0 n) = some n := by
  have hdigits := allDigits_toDigits n.natAbs
  have hne : Nat.toDigits 10 n.natAbs ≠ [] := Nat.toDigits_ne_nil
  rw [Numeral.fixed_zero]
  split
  · next hneg =>
    change (natural? (Nat.toDigits 10 n.natAbs)).map Int.negOfNat = some n
    rw [natural?_of_allDigits hdigits hne, digitsValue_toDigits, Option.map_some,
      Int.negOfNat_eq, Int.ofNat_eq_natCast]
    congr 1
    omega
  · next hpos =>
    rw [List.nil_append, integer?_of_allDigits hdigits hne, digitsValue_toDigits]
    congr 1
    omega

/-- A whole number of 64 bits is read back. -/
theorem int64?_fixed_zero (hlo : Int64.minValue.toInt ≤ n) (hhi : n ≤ Int64.maxValue.toInt) :
    int64? (Numeral.fixed 0 n) = some n := by
  rw [int64?, integer?_fixed_zero, Option.filter_some, if_pos (decide_eq_true ⟨hlo, hhi⟩)]

end Integers

/-! ## Decimals -/

namespace Decimal

variable (d : Decimal)

/-- The size of a decimal is that of its digits. -/
theorem abs_toRat : |d.toRat| = d.coefficient.natAbs * (10 : ℚ) ^ d.exponent := by
  rw [toRat_eq, abs_mul, abs_of_pos (tenZpow_pos d.exponent), Nat.cast_natAbs, Int.cast_abs]

/-- The leading digit counts a power of ten that is no larger than the decimal. -/
theorem tenZpow_leadingPlace_le (h : d.coefficient ≠ 0) :
    (10 : ℚ) ^ d.leadingPlace ≤ |d.toRat| := by
  have hle := ten_pow_digitCount_le (Int.natAbs_pos.2 h)
  rw [abs_toRat, leadingPlace, add_comm, tenZpow_add, zpow_natCast]
  exact mul_le_mul_of_nonneg_right (by exact_mod_cast hle) (tenZpow_pos d.exponent).le

/-- A mantissa of digits, a letter and an exponent: each digit after the point lowers the exponent. -/
theorem ofScientific?_append {whole fraction place : Text} {n : ℤ} (hwhole : AllDigits whole)
    (hne : whole ≠ []) (hfraction : AllDigits fraction) (hplace : int64? place = some n) :
    ofScientific? (whole ++ Numeral.pointed fraction ++ 'e' :: place) =
      some ⟨digitsValue (whole ++ fraction), n - fraction.length⟩ := by
  -- the mantissa has no letter in it
  have hmantissa : 'e' ∉ whole ++ Numeral.pointed fraction := by
    rw [List.mem_append, not_or]
    refine ⟨hwhole.notMem (by decide), ?_⟩
    cases fraction with
    | nil => exact List.not_mem_nil
    | cons c rest =>
      exact List.not_mem_cons_of_ne_of_not_mem (by decide) (hfraction.notMem (by decide))
  have hcoefficient : integer? (whole ++ fraction) = some (digitsValue (whole ++ fraction) : ℤ) :=
    integer?_of_allDigits (AllDigits.append_iff.2 ⟨hwhole, hfraction⟩)
      (List.append_ne_nil_of_left_ne_nil hne _)
  rw [ofScientific?, splitOnce?_append_cons hmantissa]
  simp only [Option.bind_eq_bind, Option.bind_some, hplace, splitOnce?_pointed hwhole,
    hcoefficient, Option.pure_def]

/-- The first digit counts the leading place, and the others are a fraction of it, which zeros at
the end do not change. -/
theorem digitsValue_cons_trimTrailing_div (first : Char) (rest : Text) :
    (digitsValue (first :: trimTrailing rest) : ℚ) / 10 ^ (trimTrailing rest).length =
      digitsValue (first :: rest) / 10 ^ rest.length := by
  rw [digitsValue_cons, digitsValue_cons]
  push_cast
  rw [add_div, add_div, mul_div_cancel_right₀ _ (by positivity),
    mul_div_cancel_right₀ _ (by positivity), digitsValue_trimTrailing]

/-- A decimal that is written in scientific notation is read back with its value, if its exponent
has 64 bits. -/
theorem map_toRat_ofScientific? (hlo : Int64.minValue.toInt ≤ d.leadingPlace)
    (hhi : d.leadingPlace ≤ Int64.maxValue.toInt) :
    (ofScientific? d.scientific).map toRat = some |d.toRat| := by
  obtain ⟨first, rest, hdigits⟩ :=
    List.exists_cons_of_ne_nil (Nat.toDigits_ne_nil : Nat.toDigits 10 d.coefficient.natAbs ≠ [])
  have hall := allDigits_toDigits d.coefficient.natAbs
  have hsize := digitsValue_toDigits d.coefficient.natAbs
  rw [hdigits] at hall hsize
  obtain ⟨hfirst, hrest⟩ := AllDigits.cons_iff.1 hall
  have htext : d.scientific = [first] ++ Numeral.pointed (trimTrailing rest) ++
      'e' :: Numeral.fixed 0 d.leadingPlace := by
    rw [scientific, hdigits]
    rfl
  have hplace : d.leadingPlace = rest.length + d.exponent := by
    rw [leadingPlace, hdigits, List.length_cons, Nat.add_sub_cancel, add_comm]
  rw [htext, ofScientific?_append (AllDigits.cons_iff.2 ⟨hfirst, AllDigits.nil⟩)
    (List.cons_ne_nil _ _) (allDigits_trimTrailing hrest) (int64?_fixed_zero hlo hhi),
    Option.map_some, toRat_eq, abs_toRat, hplace, ← hsize, List.singleton_append]
  congr 1
  calc ((digitsValue (first :: trimTrailing rest) : ℤ) : ℚ) *
        10 ^ (rest.length + d.exponent - (trimTrailing rest).length : ℤ)
      = digitsValue (first :: trimTrailing rest) / 10 ^ (trimTrailing rest).length *
          (10 ^ rest.length * 10 ^ d.exponent) := by
        rw [zpow_sub₀ (by norm_num), tenZpow_add, zpow_natCast, zpow_natCast, Int.cast_natCast]
        ring
    _ = digitsValue (first :: rest) * 10 ^ d.exponent := by
        rw [digitsValue_cons_trimTrailing_div]
        field_simp

example : scientific ⟨-1234550, -7⟩ = "1.23455e-1".toList := by decide +kernel

end Decimal

/-! ## The shortest decimals of doubles -/

namespace Magnitude

/-- The search gives no decimal of a finer grid than the finest. -/
theorem finestExponent_le_shortestWithin (m : Magnitude) (steps : ℕ) :
    finestExponent ≤ (m.shortestWithin steps).exponent := by
  induction steps with
  | zero => exact le_rfl
  | succ steps ih =>
    rw [shortestWithin]
    rcases neighbour?_spec m (finestExponent + (steps + 1 : ℕ)) with ⟨hnone, -⟩ | ⟨d, hd, he, -⟩
    · rw [hnone, Option.getD_none]
      exact ih
    · rw [hd, Option.getD_some, he]
      omega

/-- The exponents in the scientific notation of doubles. The upper bound is far from the largest. -/
theorem leadingPlace_shortest (m : Magnitude) :
    finestExponent ≤ m.shortest.leadingPlace ∧ m.shortest.leadingPlace ≤ 1024 := by
  rcases eq_or_ne m zero with rfl | hm
  · decide
  have hcoefficient : m.shortest.coefficient ≠ 0 := by
    intro h0
    refine hm (toRat_shortest_eq_zero_iff.1 ?_)
    rw [Decimal.toRat_eq, h0, Int.cast_zero, zero_mul]
  constructor
  · rw [shortest, if_neg hm, Decimal.leadingPlace]
    exact (finestExponent_le_shortestWithin m _).trans
      (le_add_of_nonneg_right (Int.natCast_nonneg _))
  · -- a larger decimal would be past the last finite magnitude
    have hle := m.shortest.tenZpow_leadingPlace_le hcoefficient
    rw [abs_of_nonneg m.shortest_nonneg] at hle
    have hlt : m.shortest.toRat < 2 ^ 1024 := by
      by_contra hge
      have hmono := nearestIndex_mono (by positivity) (not_lt.1 hge)
      rw [nearestIndex_two_pow, nearestIndex_shortest] at hmono
      exact absurd m.index_lt (not_lt.2 hmono)
    by_contra hgt
    have hpow : (10 : ℚ) ^ ((1024 : ℕ) : ℤ) ≤ 10 ^ m.shortest.leadingPlace :=
      tenZpow_le (by push_cast; omega)
    have hbase : (2 : ℚ) ^ 1024 ≤ 10 ^ ((1024 : ℕ) : ℤ) := by
      rw [zpow_natCast]
      exact pow_le_pow_left₀ (by norm_num) (by norm_num) _
    exact absurd (hbase.trans (hpow.trans hle)) (not_le.2 hlt)

end Magnitude

namespace Binary64

/-- Reading its scientific notation gives the shortest decimal of a double, with its sign. -/
theorem exists_shortest?_eq (negative : Bool) (m : Magnitude) :
    ∃ d, (finite negative m).shortest? = some d ∧ d.toRat = (signedShortest negative m).toRat := by
  obtain ⟨hlo, hhi⟩ := m.leadingPlace_shortest
  have hmap := m.shortest.map_toRat_ofScientific?
    (le_trans (by decide) hlo) (hhi.trans (by decide))
  obtain ⟨d, hd, hvalue⟩ := Option.map_eq_some_iff.1 hmap
  refine ⟨if negative then -d else d, ?_, ?_⟩
  · rw [shortest?, hd, Option.map_some]
  · rw [abs_of_nonneg m.shortest_nonneg] at hvalue
    rw [signedShortest]
    split
    · rw [Decimal.toRat_neg, Decimal.toRat_neg, hvalue]
    · exact hvalue

/-- Exactly the finite doubles have a shortest decimal. -/
theorem isSome_shortest? (x : Binary64) : x.shortest?.isSome = x.isFinite := by
  cases x with
  | finite negative m =>
    obtain ⟨d, hd, -⟩ := exists_shortest?_eq negative m
    rw [hd]
    rfl
  | infinity negative => rfl
  | nan => rfl

end Binary64

end FourFunction
