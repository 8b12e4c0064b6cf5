import FourFunction.Proofs.Binary64.Signs
import FourFunction.Proofs.ReadBack

/-!
# Going on from a shown result

What is shown stays as the entry, and the next factor operator acts on it. A negative result is
shown with a sign in front, and a sign belongs to no term: the operators act on the number behind
it, and what they come to is subtracted from zero. Since rounding treats both signs alike, this is
what they come to on the result itself. Only zero comes out differently: it never has a sign.

## Main results

* `Sign.eval_zero_applySteps`: steps behind a sign act on the number with its sign;
* `Sum.refused_of_zeroDivisor`: a divisor that is read as zero decides the error;
* `Binary64.exists_evaluate_display_append_steps`: what any number of steps on a shown double comes
  to.
-/

namespace FourFunction

open Product (stepText applySteps NoZeroDivisor)

variable {lead : List Sign} {f : Factor} {steps : List (FactorOp × Factor)} {m : Magnitude}

/-! ## One term -/

/-- Steps behind a sign act on the number with its sign, but for the sign of zero. -/
theorem Sign.eval_zero_applySteps {sign : Sign} (steps : List (FactorOp × Factor)) :
    sign.eval Binary64.zero (applySteps (.finite false m) steps) =
      (applySteps (.finite (decide (sign = .minus)) m) steps).dropZeroSign := by
  cases sign with
  | plus => exact Binary64.zero_add_eq_dropZeroSign _
  | minus =>
    have hneg : -applySteps (.finite false m) steps = applySteps (.finite true m) steps :=
      (Product.applySteps_neg (.finite false m) steps).symm
    show Binary64.zero - applySteps (.finite false m) steps = _
    rw [Binary64.sub_eq_add_neg, hneg]
    exact Binary64.zero_add_eq_dropZeroSign _

/-- The value of a term with signs in front, of which the last is a part of its first factor. -/
theorem valueOf_signs_product (hfactor : Magnitude.ofRat? f.value = some m)
    (hsteps : NoZeroDivisor steps) {y : Binary64}
    (hy : y = .finite (decide (lead.getLast? = some .minus)) m) :
    valueOf (Sum.mk lead ⟨f, steps⟩ [] []).text =
      if (applySteps y steps).isFinite then .ok (applySteps y steps).dropZeroSign
      else .error .overflow := by
  have hsign : lead.getLast?.getD .plus = .minus ↔ lead.getLast? = some .minus := by
    rcases lead.getLast? with _ | _ | _ <;> simp
  have hdouble : f.double = .finite false m := Binary64.round_eq_finite_iff.2 hfactor
  have hvalue : (Sum.mk lead ⟨f, steps⟩ [] []).value = (applySteps y steps).dropZeroSign := by
    rw [Sum.value, List.foldl_nil, Product.value, hdouble, Sign.eval_zero_applySteps, hy,
      decide_eq_decide.2 hsign]
  rw [valueOf_sum _ ⟨hsteps, by simp⟩, hvalue, Binary64.isFinite_dropZeroSign]

/-- Of the divisors that are read as zero one is the first. -/
theorem Product.exists_first_zeroDivisor
    (h : ∃ step ∈ steps, step.1 = .divide ∧ step.2.double.isZero = true) :
    ∃ before g after, steps = before ++ (.divide, g) :: after ∧ NoZeroDivisor before ∧
      g.double.isZero = true := by
  induction steps with
  | nil => simp at h
  | cons step steps ih =>
    obtain ⟨o, g⟩ := step
    by_cases hstep : o = .divide ∧ g.double.isZero = true
    · obtain ⟨rfl, hzero⟩ := hstep
      exact ⟨[], g, steps, rfl, by simp [NoZeroDivisor], hzero⟩
    · obtain ⟨before, d, after, rfl, hbefore, hzero⟩ := ih (by simpa [hstep] using h)
      have hg : o = .divide → g.double.isZero = false := by simpa using hstep
      exact ⟨(o, g) :: before, d, after, rfl, List.forall_mem_cons.2 ⟨hg, hbefore⟩, hzero⟩

/-- A divisor that is read as zero decides the error of the only term. -/
theorem Sum.refused_of_zeroDivisor (lead : List Sign) (f : Factor)
    (h : ∃ step ∈ steps, step.1 = .divide ∧ step.2.double.isZero = true) :
    Refused (Sum.mk lead ⟨f, steps⟩ [] []).text .divisionByZero := by
  obtain ⟨before, g, after, rfl, hbefore, hzero⟩ := Product.exists_first_zeroDivisor h
  have hends : Token.EndsPiece FactorOp (after.flatMap stepText) := by
    rw [← Product.concat_steps]
    exact (Token.endsPiece_concat_iff (Product.canonical_steps after)).2
      Product.not_startsWithPiece_steps
  -- what stands before the first such divisor is a product that divides by no zero
  have htext : (Product.mk f (before ++ (.divide, g) :: after)).text =
      (Product.mk f before).text ++
        (FactorOp.divide.symbol :: g.text ++ after.flatMap stepText) := by
    simp [Product.text, stepText]
  set p := Product.mk f (before ++ (.divide, g) :: after)
  have hfault : TermFault p.text .divisionByZero :=
    htext ▸ .step ⟨f, before⟩ hbefore (.zeroDivisor g _ hzero hends)
  have hrefused : Refused (lead.map Sign.symbol ++ p.text ++ []) .divisionByZero :=
    .firstTerm lead p.isTermChar hfault (by simp [Token.EndsPiece]) (by simp)
  simpa [Sum.text] using hrefused

/-! ## Behind a shown double -/

theorem CanonicalNumeral.text_append_steps (c : CanonicalNumeral)
    (steps : List (FactorOp × Factor)) :
    c.text ++ steps.flatMap stepText = (Sum.mk c.sum.lead ⟨c.factor, steps⟩ [] []).text := by
  rw [← c.text_sum]
  simp [Sum.text, Product.text, CanonicalNumeral.sum]

/-- Factor operators behind a shown double act on the double that is read from it: the result is
what they come to from left to right, a zero without its sign, if that is finite and no divisor is
read as zero. -/
theorem Binary64.exists_evaluate_display_append_steps (negative : Bool) (m : Magnitude)
    (steps : List (FactorOp × Factor)) :
    ∃ y, (evaluate (finite negative m).display).value = .ok y ∧
      ((∃ step ∈ steps, step.1 = .divide ∧ step.2.double.isZero = true) →
        (evaluate ((finite negative m).display ++ steps.flatMap stepText)).value =
          .error .divisionByZero) ∧
      (NoZeroDivisor steps →
        (evaluate ((finite negative m).display ++ steps.flatMap stepText)).value =
          if (applySteps y steps).isFinite then .ok (applySteps y steps).dropZeroSign
          else .error .overflow) := by
  obtain ⟨n, hn⟩ := exists_displayScaled_eq m.shortest_nonneg
  obtain ⟨m', hread, -⟩ := Magnitude.exists_reads_displayScaled hn
  refine ⟨_, evaluate_display hn hread negative, ?_, ?_⟩
  · intro hzero
    rw [value_evaluate, display_eq_text, CanonicalNumeral.text_append_steps]
    exact valueOf_of_refused (Sum.refused_of_zeroDivisor _ _ hzero)
  · intro hsteps
    have hsign := negative_ofScaled_signedShortest hn hread negative
    rw [← size_ofScaled_signedShortest negative hn] at hread
    rw [value_evaluate, display_eq_text, CanonicalNumeral.text_append_steps]
    refine valueOf_signs_product ((CanonicalNumeral.value_factor _).symm ▸ hread) hsteps ?_
    rw [CanonicalNumeral.getLast?_lead, hsign]

/-- Minus five times zero is zero without a sign. Divided by zero it is refused, and times a number
too far away it overflows. -/
theorem Binary64.exists_evaluate_display_append_steps_minus_five :
    (evaluate ((finite true ⟨0x4014000000000000, by decide⟩).display ++ "*0".toList)).value =
        .ok zero ∧
      (evaluate ((finite true ⟨0x4014000000000000, by decide⟩).display ++ "/0".toList)).value =
        .error .divisionByZero ∧
      (evaluate ((finite true ⟨0x4014000000000000, by decide⟩).display ++
        '*' :: '1' :: List.replicate 309 '0')).value = .error .overflow := by
  set nought : Factor := ⟨['0'], none, by decide, nofun, by decide⟩
  set far : Factor := ⟨'1' :: List.replicate 309 '0', none, by decide +kernel, nofun, by decide +kernel⟩
  have htext : [(FactorOp.times, far)].flatMap stepText = '*' :: '1' :: List.replicate 309 '0' := by
    decide +kernel
  have hread : (evaluate (finite true ⟨0x4014000000000000, by decide⟩).display).value =
      .ok (finite true ⟨0x4014000000000000, by decide⟩) := by
    decide +kernel
  obtain ⟨y, hy, -, hproduct⟩ :=
    exists_evaluate_display_append_steps true ⟨0x4014000000000000, by decide⟩ [(.times, nought)]
  obtain ⟨-, -, hquotient, -⟩ :=
    exists_evaluate_display_append_steps true ⟨0x4014000000000000, by decide⟩ [(.divide, nought)]
  obtain ⟨z, hz, -, hfar⟩ :=
    exists_evaluate_display_append_steps true ⟨0x4014000000000000, by decide⟩ [(.times, far)]
  rw [hread, Except.ok.injEq] at hy hz
  rw [htext] at hfar
  subst hy hz
  refine ⟨(hproduct (by simp [NoZeroDivisor])).trans (by decide +kernel), hquotient ?_, ?_⟩
  · exact ⟨_, List.mem_singleton_self _, rfl, by decide +kernel⟩
  · exact (hfar (by simp [NoZeroDivisor])).trans (by decide +kernel)

end FourFunction
