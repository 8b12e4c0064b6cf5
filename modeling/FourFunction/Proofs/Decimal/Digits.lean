import FourFunction.Text
import Mathlib.Algebra.Order.Field.Rat
import Mathlib.Data.List.Basic
import Mathlib.Data.List.DropRight
import Mathlib.Tactic.Linarith
import Mathlib.Tactic.NormNum
import Mathlib.Tactic.Positivity
import Mathlib.Tactic.Ring

/-!
# Digit strings

The value of a string of decimal digits, and when two strings of one value are the same string: of
one length always, of different lengths never if neither starts with a superfluous zero.

## Main results

* `eq_of_digitsValue_eq`: strings of one length;
* `WholeDigits.eq_of_digitsValue_eq`: strings without a superfluous zero;
* `wholeDigits_toDigits`: the digits that `Nat.toDigits` writes have none.
-/

namespace FourFunction

/-- Every character of the text is a digit. -/
def AllDigits (text : Text) : Prop := ∀ c ∈ text, c.isDigit = true

instance : DecidablePred AllDigits := List.decidableBAll fun c : Char => c.isDigit = true

/-- The number that a text of digits writes. -/
def digitsValue (text : Text) : ℕ := Nat.ofDigitChars 10 text 0

namespace AllDigits

variable {c : Char} {text rest : Text}

theorem nil : AllDigits [] := fun _ h => absurd h List.not_mem_nil

/-- A text is of digits if its first character is one and the rest is. -/
theorem cons_iff : AllDigits (c :: text) ↔ c.isDigit = true ∧ AllDigits text :=
  List.forall_mem_cons

theorem append_iff : AllDigits (text ++ rest) ↔ AllDigits text ∧ AllDigits rest :=
  List.forall_mem_append

end AllDigits

section Value

variable {c : Char} {text rest : Text} {n : ℕ}

/-- The digit that a character writes. -/
def digitOf (c : Char) : ℕ := c.toNat - '0'.toNat

/-- The digits are the code points from 48 to 57. -/
theorem isDigit_iff_le : c.isDigit = true ↔ 48 ≤ c.toNat ∧ c.toNat ≤ 57 := Char.isDigit_iff_toNat

theorem digitOf_eq (c : Char) : digitOf c = c.toNat - 48 := rfl

/-- A digit writes a number below ten. -/
theorem digitOf_lt (hc : c.isDigit = true) : digitOf c < 10 := by
  rw [isDigit_iff_le] at hc
  rw [digitOf_eq]
  omega

/-- Different digits write different numbers. -/
theorem digitOf_inj {d : Char} (hc : c.isDigit = true) (hd : d.isDigit = true)
    (h : digitOf c = digitOf d) : c = d := by
  rw [isDigit_iff_le] at hc hd
  rw [digitOf_eq, digitOf_eq] at h
  exact Char.toNat_inj.1 (by omega)

/-- The digit that writes a number below ten. -/
theorem digitOf_digitChar {d : ℕ} (hd : d < 10) : digitOf d.digitChar = d :=
  Nat.toNat_digitChar_sub_48_of_lt_ten hd

/-- Only the digit zero writes zero. -/
theorem digitOf_pos (hc : c.isDigit = true) (h0 : c ≠ '0') : 0 < digitOf c := by
  by_contra h
  exact h0 (digitOf_inj hc rfl (Nat.le_zero.1 (not_lt.1 h)))

@[simp]
theorem digitsValue_nil : digitsValue [] = 0 := Nat.ofDigitChars_nil

/-- A digit in front counts as many tens as digits follow it. -/
theorem digitsValue_cons (c : Char) (text : Text) :
    digitsValue (c :: text) = digitOf c * 10 ^ text.length + digitsValue text := by
  rw [digitsValue, Nat.ofDigitChars_cons, Nat.ofDigitChars_eq_ofDigitChars_zero]
  simp only [Nat.mul_zero, Nat.zero_add]
  rw [Nat.mul_comm]
  rfl

/-- Digits that follow move those in front up by their number of places. -/
theorem digitsValue_append (text rest : Text) :
    digitsValue (text ++ rest) = digitsValue text * 10 ^ rest.length + digitsValue rest := by
  rw [digitsValue, Nat.ofDigitChars_append, Nat.ofDigitChars_eq_ofDigitChars_zero, Nat.mul_comm]
  rfl

/-- A string of digits writes less than the least number with one digit more. -/
theorem digitsValue_lt (h : AllDigits text) : digitsValue text < 10 ^ text.length := by
  induction text with
  | nil => simp
  | cons c text ih =>
    obtain ⟨hc, ht⟩ := AllDigits.cons_iff.1 h
    have hdigit := digitOf_lt hc
    have hrest := ih ht
    rw [digitsValue_cons, List.length_cons, pow_succ]
    nlinarith [Nat.mul_le_mul_right (10 ^ text.length) (Nat.le_of_lt_succ hdigit)]

/-- Digit strings of one length and one value are the same. -/
theorem eq_of_digitsValue_eq (h : AllDigits text) (h' : AllDigits rest)
    (hlen : text.length = rest.length) (hval : digitsValue text = digitsValue rest) :
    text = rest := by
  induction text generalizing rest with
  | nil => exact (List.length_eq_zero_iff.1 hlen.symm).symm
  | cons c text ih =>
    obtain ⟨d, rest, rfl⟩ := List.exists_cons_of_length_eq_add_one hlen.symm
    obtain ⟨hc, ht⟩ := AllDigits.cons_iff.1 h
    obtain ⟨hd, hr⟩ := AllDigits.cons_iff.1 h'
    simp only [List.length_cons, Nat.add_right_cancel_iff] at hlen
    rw [digitsValue_cons, digitsValue_cons, hlen] at hval
    have hlt := digitsValue_lt ht
    have hlt' := digitsValue_lt hr
    rw [hlen] at hlt
    -- the leading digit is the quotient by the power of ten
    have hpos : 0 < 10 ^ rest.length := by positivity
    have hdigit : digitOf c = digitOf d := by
      have hdiv := congrArg (· / 10 ^ rest.length) hval
      simpa only [Nat.add_comm (_ * _), Nat.add_mul_div_right _ _ hpos, Nat.div_eq_of_lt hlt,
        Nat.div_eq_of_lt hlt', Nat.zero_add] using hdiv
    rw [hdigit, Nat.add_left_cancel_iff] at hval
    rw [digitOf_inj hc hd hdigit, ih ht hr hlen hval]

/-- Zeros alone write the number zero. -/
theorem digitsValue_replicate_zero (n : ℕ) : digitsValue (List.replicate n '0') = 0 := by
  rw [digitsValue, Nat.ofDigitChars_replicate_zero, Nat.mul_zero]

/-- Digits of a whole number, without a zero in front unless it is the only digit. -/
structure WholeDigits (text : Text) : Prop where
  digits : AllDigits text
  ne_nil : text ≠ []
  no_leading_zero : text.head? = some '0' → text = ['0']

/-- A whole number without a superfluous zero in front is at least the power of ten of its first
digit. -/
theorem WholeDigits.le_digitsValue (h : WholeDigits text) (h0 : text ≠ ['0']) :
    10 ^ (text.length - 1) ≤ digitsValue text := by
  obtain ⟨c, rest, rfl⟩ := List.exists_cons_of_ne_nil h.ne_nil
  have hc : c ≠ '0' := fun hc => h0 (h.no_leading_zero (by rw [hc]; rfl))
  have hdigit := digitOf_pos (AllDigits.cons_iff.1 h.digits).1 hc
  rw [digitsValue_cons, List.length_cons, Nat.add_sub_cancel]
  nlinarith [Nat.mul_le_mul_right (10 ^ rest.length) hdigit]

/-- Without superfluous zeros, the shorter of two strings writes the smaller number. -/
theorem WholeDigits.length_le (h : WholeDigits text) (h' : WholeDigits rest)
    (hval : digitsValue text = digitsValue rest) : text.length ≤ rest.length := by
  have hpos := List.length_pos_iff.2 h'.ne_nil
  by_contra hlt
  -- the longer one is not a single zero, so its value does not fit in the shorter one
  have h0 : text ≠ ['0'] := by
    rintro rfl
    rw [List.length_singleton] at hlt
    omega
  have hle := h.le_digitsValue h0
  have hbound := digitsValue_lt h'.digits
  have hpow : 10 ^ rest.length ≤ 10 ^ (text.length - 1) :=
    Nat.pow_le_pow_right (by norm_num) (by omega)
  omega

/-- A whole number is written in one way only. -/
theorem WholeDigits.eq_of_digitsValue_eq (h : WholeDigits text) (h' : WholeDigits rest)
    (hval : digitsValue text = digitsValue rest) : text = rest :=
  FourFunction.eq_of_digitsValue_eq h.digits h'.digits
    (le_antisymm (h.length_le h' hval) (h'.length_le h hval.symm)) hval

end Value

/-! ## The digits of a number -/

/-- The digits of a number write that number. -/
theorem digitsValue_toDigits (n : ℕ) : digitsValue (Nat.toDigits 10 n) = n :=
  Nat.ofDigitChars_ten_toDigits

theorem allDigits_toDigits (n : ℕ) : AllDigits (Nat.toDigits 10 n) := fun _ hc =>
  Nat.isDigit_of_mem_toDigits (by norm_num) (by norm_num) hc

/-- The digits of a positive number do not start with a zero. -/
theorem head?_toDigits_ne_zero {n : ℕ} (hn : n ≠ 0) : (Nat.toDigits 10 n).head? ≠ some '0' := by
  -- the first digit is that of the number without its last digit
  induction n using Nat.strong_induction_on with
  | _ n ih =>
    rcases Nat.lt_or_ge n 10 with hlt | hge
    · rw [Nat.toDigits_of_lt_base hlt]
      simpa using hn
    · rw [Nat.toDigits_of_base_le (by norm_num) hge,
        List.head?_append_of_ne_nil _ Nat.toDigits_ne_nil]
      exact ih (n / 10) (by omega) (by omega)

/-- `Nat.toDigits` writes whole numbers without superfluous zeros. -/
theorem wholeDigits_toDigits (n : ℕ) : WholeDigits (Nat.toDigits 10 n) where
  digits := allDigits_toDigits n
  ne_nil := Nat.toDigits_ne_nil
  no_leading_zero h := by
    rcases eq_or_ne n 0 with rfl | hn
    · rfl
    · exact absurd h (head?_toDigits_ne_zero hn)

/-! ## Zeros that write nothing -/

/-- Digits without the zeros in front. Where nothing is left of them, a zero is. -/
def trimLeading (digits : Text) : Text :=
  match digits.dropWhile (· == '0') with
  | [] => ['0']
  | rest => rest

/-- Digits without the zeros at the end. -/
def trimTrailing (digits : Text) : Text := digits.rdropWhile (· == '0')

section Trim

variable {digits : Text}

/-- Zeros in front of a string of digits write nothing. -/
theorem digitsValue_dropWhile_zero (digits : Text) :
    digitsValue (digits.dropWhile (· == '0')) = digitsValue digits := by
  induction digits with
  | nil => rfl
  | cons c rest ih =>
    by_cases hc : c = '0'
    · subst hc
      rw [List.dropWhile_cons_of_pos (by rfl), ih, digitsValue_cons]
      simp [digitOf]
    · rw [List.dropWhile_cons_of_neg (by simpa using hc)]

/-- A string of digits writes the same without its superfluous zeros. -/
theorem digitsValue_trimLeading (digits : Text) :
    digitsValue (trimLeading digits) = digitsValue digits := by
  rw [← digitsValue_dropWhile_zero digits, trimLeading]
  split
  · next hnil =>
    rw [hnil]
    rfl
  · rfl

/-- Without its superfluous zeros a string of digits has none. -/
theorem wholeDigits_trimLeading (h : AllDigits digits) : WholeDigits (trimLeading digits) := by
  rw [trimLeading]
  split
  · exact wholeDigits_toDigits 0
  · next rest hne =>
    refine ⟨fun c hc => h c ((List.dropWhile_sublist _).subset hc), fun hnil => hne hnil, ?_⟩
    -- the first digit that is kept is not a zero
    intro hhead
    have hfirst := List.head?_dropWhile_not (· == '0') digits
    rw [hhead] at hfirst
    simp at hfirst

/-- What is left without the zeros at the end are digits. -/
theorem allDigits_trimTrailing (h : AllDigits digits) : AllDigits (trimTrailing digits) :=
  fun c hc => h c ((List.rdropWhile_prefix _ _).subset hc)

/-- No zero is left at the end. -/
theorem getLast?_trimTrailing (digits : Text) : (trimTrailing digits).getLast? ≠ some '0' := by
  intro hlast
  have hne : trimTrailing digits ≠ [] := by
    rintro hnil
    rw [hnil] at hlast
    cases hlast
  rw [List.getLast?_eq_some_getLast hne, Option.some.injEq] at hlast
  exact List.rdropWhile_last_not _ _ hne (by rw [beq_iff_eq]; exact hlast)

/-- After the point, zeros at the end write nothing. -/
theorem digitsValue_trimTrailing (digits : Text) :
    (digitsValue (trimTrailing digits) : ℚ) / 10 ^ (trimTrailing digits).length =
      digitsValue digits / 10 ^ digits.length := by
  induction digits using List.reverseRecOn with
  | nil => rfl
  | append_singleton digits c ih =>
    rw [trimTrailing]
    by_cases hc : c = '0'
    · subst hc
      have hvalue : digitsValue (digits ++ ['0']) = digitsValue digits * 10 := by
        rw [digitsValue_append]
        rfl
      rw [List.rdropWhile_concat_pos _ _ _ (by rfl), ← trimTrailing, ih, hvalue, List.length_append,
        List.length_singleton, pow_succ]
      push_cast
      rw [mul_div_mul_right _ _ (by norm_num)]
    · rw [List.rdropWhile_concat_neg _ _ _ (by simpa using hc)]

end Trim

end FourFunction
