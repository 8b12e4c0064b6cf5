import FourFunction.Proofs.Binary64.RoundsTo
import FourFunction.Proofs.Decimal.Written
import FourFunction.Proofs.Expression.Term

/-!
# Reading a factor

Some digits and points are read as a number exactly if there is a digit and no second point. The
number has one exact value however long the text is, and is rounded once: the double is the nearest
one to that value, ties to even. It is an infinity or a zero only past a fixed bound, and it has no
sign. So a division by it is refused exactly up to the bound of the zeros.

## Main results

* `exists_factor_text_eq`, `readFactor_eq_error`: the texts that are factors and those that are not,
  told apart by counting;
* `readFactor_rounds`: what a factor is read as, and which are refused as divisors.
-/

namespace FourFunction

variable {text : Text}

/-- The characters that a factor is searched for are its digits and points. -/
theorem isFactorChar_of_all (h : text.all (fun c => c.isDigit || c == '.') = true) :
    ∀ c ∈ text, IsFactorChar c := fun c hc => by
  have hchar := List.all_eq_true.1 h c hc
  rwa [Bool.or_eq_true, beq_iff_eq] at hchar

/-- The exact value of a factor is the value of its text. -/
theorem Factor.decimalValue_text (f : Factor) : decimalValue f.text = f.value := by
  obtain ⟨whole, fraction, hwhole, hfraction, hne⟩ := f
  cases fraction with
  | none =>
    rw [text, Option.elim_none, List.append_nil, decimalValue_of_allDigits hwhole, value]
    simp
  | some digits =>
    rw [text, Option.elim_some, decimalValue_append_point hwhole (hfraction digits rfl)]
    rfl

/-- A factor is not negative. -/
theorem Factor.value_nonneg (f : Factor) : 0 ≤ f.value := by
  rw [value]
  positivity

/-- Some digit and no second point make a factor. -/
theorem exists_factor_text_eq (hchars : ∀ c ∈ text, IsFactorChar c)
    (hdigit : ∃ c ∈ text, c.isDigit = true) (hpoints : text.count '.' ≤ 1) :
    ∃ f : Factor, f.text = text := by
  obtain ⟨c, hc, hcdigit⟩ := hdigit
  refine (factor_or_malformed (List.ne_nil_of_mem hc) hchars).resolve_right fun h => ?_
  rcases h.malformed with hno | htwo
  · rw [hno c hc] at hcdigit
    exact absurd hcdigit Bool.false_ne_true
  · omega

/-- Without a digit, or with a second point, the text is refused and named. -/
theorem readFactor_eq_error (hchars : ∀ c ∈ text, IsFactorChar c)
    (h : ¬ ((∃ c ∈ text, c.isDigit = true) ∧ text.count '.' ≤ 1)) :
    readFactor text = .error (.badLiteral text) := by
  rcases eq_or_ne text [] with rfl | hne
  · rfl
  · refine readFactor_malformed ⟨hne, hchars, ?_⟩
    by_cases hdigit : ∃ c ∈ text, c.isDigit = true
    · right
      by_contra hpoints
      exact h ⟨hdigit, by omega⟩
    · left
      simpa using hdigit

/-- A divisor is refused if it is read as zero, and divides otherwise. -/
theorem Term.reduceFrom_divide {y : Binary64} (hread : readFactor text = .ok y) (x : Binary64)
    (tail : List (Token FactorOp)) :
    reduceFrom x (.op .divide :: .piece text :: tail) =
      if y.isZero then .error .divisionByZero else reduceFrom (x / y) tail := by
  split
  · next hzero => exact reduceFrom_of_apply_error hread (apply_eq_error hzero)
  · next hzero =>
    exact reduceFrom_of_ok hread (apply_eq_ok fun _ => Bool.eq_false_iff.2 hzero)

/-- A size is rounded to zero up to half of the smallest double. -/
theorem Binary64.isZero_round_iff {q : ℚ} (hq : 0 ≤ q) :
    (round false q).isZero = true ↔ q ≤ 2 ^ (-1075 : ℤ) := by
  rw [← @round_eq_finite_zero_iff q false hq, round]
  cases Magnitude.ofRat? q <;> simp [isZero]

/-- Digits and points are read as a number exactly if there is a digit and no second point, and
otherwise they are refused and named. The number is the exact value of the text, rounded to the
nearest double with ties to even and without a sign. -/
theorem readFactor_rounds (hchars : ∀ c ∈ text, IsFactorChar c) :
    ((∃ x, readFactor text = .ok x) ↔ (∃ c ∈ text, c.isDigit = true) ∧ text.count '.' ≤ 1) ∧
      (∀ err, readFactor text = .error err → err = .badLiteral text) ∧
      ∀ x, readFactor text = .ok x →
        Binary64.RoundsTo (decimalValue text) x ∧
          (x = .infinity false ↔ 2 ^ 1024 - 2 ^ 970 ≤ decimalValue text) ∧
          (x = .zero ↔ decimalValue text ≤ 2 ^ (-1075 : ℤ)) ∧
          x.toBits.toNat < Binary64.signWeight ∧
          ∀ sofar rest, Term.reduceFrom sofar (.op .divide :: .piece text :: rest) =
            if decimalValue text ≤ 2 ^ (-1075 : ℤ) then .error .divisionByZero
            else Term.reduceFrom (sofar / x) rest := by
  by_cases hform : (∃ c ∈ text, c.isDigit = true) ∧ text.count '.' ≤ 1
  · obtain ⟨f, rfl⟩ := exists_factor_text_eq hchars hform.1 hform.2
    have hread := readFactor_text f
    refine ⟨iff_of_true ⟨_, hread⟩ hform, fun err herr => ?_, fun x hx => ?_⟩
    · rw [hread] at herr
      cases herr
    · obtain rfl : f.double = x := Except.ok.inj (hread.symm.trans hx)
      have hvalue := f.value_nonneg
      rw [f.decimalValue_text]
      refine ⟨Binary64.roundsTo_round hvalue, Binary64.round_eq_infinity_iff hvalue,
        Binary64.round_eq_finite_zero_iff hvalue, Binary64.toNat_toBits_round_lt _, ?_⟩
      intro sofar rest
      rw [Term.reduceFrom_divide hread]
      exact if_congr (Binary64.isZero_round_iff hvalue) rfl rfl
  · have hread := readFactor_eq_error hchars hform
    refine ⟨iff_of_false ?_ hform, fun err herr => ?_, fun x hx => ?_⟩
    · rintro ⟨x, hx⟩
      rw [hread] at hx
      cases hx
    · rw [hread] at herr
      exact (Except.error.inj herr).symm
    · rw [hread] at hx
      cases hx

/-- Past the midpoint of two doubles a digit far behind the point decides, and the upper one is
odd. A digit too far behind the point leaves a zero, which refuses to divide. -/
theorem readFactor_rounds_far_digits :
    (∃ x, readFactor ("9007199254740993.".toList ++ List.replicate 40 '0' ++ ['1']) = .ok x ∧
        x.toBits = 0x4340000000000001 ∧
        Binary64.RoundsTo
          (decimalValue ("9007199254740993.".toList ++ List.replicate 40 '0' ++ ['1'])) x) ∧
      Term.reduceFrom .zero [.op .divide, .piece ('.' :: List.replicate 323 '0' ++ ['2'])] =
        .error .divisionByZero ∧
      readFactor "1.2.3".toList = .error (.badLiteral "1.2.3".toList) := by
  have hsmall : readFactor ('.' :: List.replicate 323 '0' ++ ['2']) = .ok .zero := by
    decide +kernel
  have hbits : (readFactor ("9007199254740993.".toList ++ List.replicate 40 '0' ++ ['1'])).map
      Binary64.toBits = .ok 0x4340000000000001 := by
    decide +kernel
  obtain ⟨hiff, -, hfar⟩ := @readFactor_rounds
    ("9007199254740993.".toList ++ List.replicate 40 '0' ++ ['1']) (isFactorChar_of_all (by decide +kernel))
  obtain ⟨-, -, hzero⟩ := @readFactor_rounds
    ('.' :: List.replicate 323 '0' ++ ['2']) (isFactorChar_of_all (by decide +kernel))
  obtain ⟨hpoints, herror, -⟩ :=
    @readFactor_rounds "1.2.3".toList (isFactorChar_of_all (by decide))
  refine ⟨?_, ?_, ?_⟩
  · obtain ⟨x, hx⟩ := hiff.2 ⟨⟨'9', List.mem_cons_self, rfl⟩, by decide +kernel⟩
    rw [hx] at hbits
    exact ⟨x, hx, Except.ok.inj hbits, (hfar x hx).1⟩
  · obtain ⟨-, -, hle, -, hdivide⟩ := hzero _ hsmall
    exact (hdivide _ _).trans (if_pos (hle.1 rfl))
  · cases hread : readFactor "1.2.3".toList with
    | error err => rw [herror err hread]
    | ok x => exact absurd (hpoints.1 ⟨x, hread⟩).2 (by decide)

end FourFunction
