import FourFunction.Proofs.Decimal.Numeral

/-!
# Numerals with all their places

A decimal fraction is written with all its places, and then loses the zeros at its end and a point
that nothing follows. What is left is the canonical numeral.

## Main results

* `Numeral.trimTrailing_leftpad`: the padded digits of a fraction without the zeros at their end;
* `Numeral.trimZeros_fixed`: the trimmed text is the canonical numeral.
-/

namespace FourFunction

section TrimEnd

variable {mark c : Char} {text : Text}

/-- Taking zeros away from the end of a text is what `trimTrailing` does. -/
theorem trimEnd_zero (text : Text) : trimEnd '0' text = trimTrailing text := rfl

/-- Nothing is taken away in front of another character. -/
theorem trimEnd_append_cons (hc : c ≠ mark) (front back : Text) :
    trimEnd mark (front ++ c :: back) = front ++ c :: trimEnd mark back := by
  change List.rdropWhile _ _ = front ++ c :: List.rdropWhile _ _
  induction back using List.reverseRecOn with
  | nil => rw [List.rdropWhile_concat_neg _ _ _ (by simpa using hc), List.rdropWhile_nil]
  | append_singleton back b ih =>
    rw [← List.cons_append, ← List.append_assoc]
    by_cases hb : b = mark
    · rw [List.rdropWhile_concat_pos _ _ _ (by simpa using hb), ih,
        List.rdropWhile_concat_pos _ _ _ (by simpa using hb)]
    · rw [List.rdropWhile_concat_neg _ _ _ (by simpa using hb),
        List.rdropWhile_concat_neg _ _ _ (by simpa using hb), List.append_assoc, List.cons_append]

/-- A text that ends in another character stays as it is. -/
theorem trimEnd_of_getLast?_ne (h : text.getLast? ≠ some mark) : trimEnd mark text = text := by
  refine List.rdropWhile_eq_self_iff.2 fun hne hlast => h ?_
  rw [List.getLast?_eq_some_getLast hne, eq_of_beq hlast]

end TrimEnd

/-- The last of some digits is not the point. -/
theorem AllDigits.getLast?_ne_point {digits : Text} (h : AllDigits digits) :
    digits.getLast? ≠ some '.' := fun hlast =>
  absurd (h '.' (List.mem_of_getLast? hlast)) (by decide)

namespace Numeral

variable {places rest : ℕ}

theorem allDigits_leftpad (places rest : ℕ) :
    AllDigits (List.leftpad places '0' (Nat.toDigits 10 rest)) :=
  AllDigits.append_iff.2
    ⟨fun c hc => by rw [List.eq_of_mem_replicate hc]; rfl, allDigits_toDigits rest⟩

/-- Zeros that pad a number do not change it. -/
theorem digitsValue_leftpad (places rest : ℕ) :
    digitsValue (List.leftpad places '0' (Nat.toDigits 10 rest)) = rest := by
  rw [List.leftpad, digitsValue_append, digitsValue_replicate_zero, Nat.zero_mul, Nat.zero_add,
    digitsValue_toDigits]

/-- The padding makes up the places. -/
theorem length_leftpad (hplaces : 0 < places) (hrest : rest < 10 ^ places) :
    (List.leftpad places '0' (Nat.toDigits 10 rest)).length = places := by
  have hlen := (Nat.length_toDigits_le_iff (by norm_num) hplaces).2 hrest
  rw [List.leftpad, List.length_append, List.length_replicate, Nat.sub_add_cancel hlen]

/-- The padded digits of a fraction, without the zeros at their end, are the digits that are written
one by one. -/
theorem trimTrailing_leftpad (hplaces : 0 < places) (hrest : rest < 10 ^ places) :
    trimTrailing (List.leftpad places '0' (Nat.toDigits 10 rest)) = fractionDigits places rest := by
  -- both are digits of the same fraction, and neither ends in a zero
  refine CanonicalNumeral.fraction_eq_of_value_eq
    (allDigits_trimTrailing (allDigits_leftpad places rest)) (allDigits_fractionDigits hrest)
    (getLast?_trimTrailing _) (getLast?_fractionDigits hrest) ?_
  rw [digitsValue_trimTrailing, digitsValue_fractionDigits hrest, digitsValue_leftpad,
    length_leftpad hplaces hrest]

/-- Digits, a point and a fraction, without the zeros at the end: the point goes with the last digit
of the fraction. -/
theorem trimZeros_pointed (sign : Text) {whole fraction : Text} (hwhole : WholeDigits whole)
    (hfraction : AllDigits fraction) :
    trimZeros (sign ++ whole ++ '.' :: fraction) =
      sign ++ whole ++ pointed (trimTrailing fraction) := by
  rw [trimZeros, if_pos (by simp), trimEnd_append_cons (by decide), trimEnd_zero]
  have hkept := allDigits_trimTrailing hfraction
  cases htrim : trimTrailing fraction with
  | nil =>
    -- the point stands last and is taken away; a digit stands before it
    have hlast : (sign ++ whole).getLast? ≠ some '.' := by
      rw [List.getLast?_append_of_ne_nil _ hwhole.ne_nil]
      exact hwhole.digits.getLast?_ne_point
    rw [pointed, List.append_nil]
    calc trimEnd '.' (sign ++ whole ++ ['.']) = trimEnd '.' (sign ++ whole) :=
          List.rdropWhile_concat_pos _ _ _ rfl
      _ = sign ++ whole := trimEnd_of_getLast?_ne hlast
  | cons d digits =>
    rw [htrim] at hkept
    refine trimEnd_of_getLast?_ne ?_
    rw [← List.singleton_append, ← List.append_assoc, List.getLast?_append_of_ne_nil _ (by simp)]
    exact hkept.getLast?_ne_point

/-- Without places it is the digits of a whole number, with its sign. -/
theorem fixed_zero (n : ℤ) :
    fixed 0 n = (if n < 0 then ['-'] else []) ++ Nat.toDigits 10 n.natAbs := by
  simp only [fixed, if_true, List.append_nil, Nat.pow_eq, pow_zero, Nat.div_one]

/-- Without places there is no point. -/
theorem point_notMem_fixed_zero (n : ℤ) : '.' ∉ fixed 0 n := by
  rw [fixed_zero, List.mem_append]
  rintro (hsign | hdigit)
  · split at hsign <;> simp at hsign
  · exact absurd (allDigits_toDigits n.natAbs _ hdigit) (by decide)

/-- A fraction written with all its places and then trimmed is the canonical numeral. -/
theorem trimZeros_fixed (places : ℕ) (scaled : ℤ) :
    trimZeros (fixed places scaled) = ofScaled places scaled := by
  rcases Nat.eq_zero_or_pos places with rfl | hplaces
  · rw [trimZeros, if_neg (by simpa using point_notMem_fixed_zero scaled), fixed_zero]
    simp only [ofScaled, Nat.pow_eq, pow_zero, Nat.div_one, fractionDigits, pointed,
      List.append_nil]
  · have htrim := trimTrailing_leftpad hplaces (mod_pow_lt places scaled.natAbs)
    simp only [fixed, if_neg hplaces.ne']
    rw [trimZeros_pointed _ (wholeDigits_toDigits _) (allDigits_leftpad places _), Nat.pow_eq,
      htrim]
    rfl

end Numeral

end FourFunction
