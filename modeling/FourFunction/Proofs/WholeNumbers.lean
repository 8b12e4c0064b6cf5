import FourFunction.Entry
import FourFunction.Proofs.Binary64.Whole
import FourFunction.Proofs.Lossless

/-!
# Calculating with whole numbers

An expression without points can be worked out in whole numbers, as long as every division leaves no
remainder. Where no number on the way is more than `2 ^ 53` in size, the doubles of the calculator
are those numbers, one by one, and what is shown is the exact result.

The working out in whole numbers goes the way of the calculation in doubles: each term from left to
right, then the sum of the terms from left to right. It stops, with no result, where a factor has a
point, a number leaves the range, or a division has a remainder or the divisor zero.

## Main results

* `Sum.holds_value`: the value of a sum is the whole number that it comes to;
* `Binary64.Holds.display`: a whole number is shown in its ordinary decimal writing;
* `Sum.calculate_whole`: calculating a sum of whole numbers shows what it comes to.
-/

namespace FourFunction

/-! ## Working out in whole numbers -/

/-- The number itself, unless it is out of the range in which doubles hold every whole number. -/
def inRange? (z : ℤ) : Option ℤ := if InExactRange z then some z else none

/-- The number that a factor without a point writes. -/
def Factor.whole? (f : Factor) : Option ℤ :=
  if f.fraction = none then inRange? (digitsValue f.whole) else none

/-- Multiplies in the range, and divides where nothing remains. -/
def FactorOp.whole? : FactorOp → ℤ → ℤ → Option ℤ
  | times, a, b => inRange? (a * b)
  | divide, a, b => if b ≠ 0 ∧ b ∣ a then inRange? (a / b) else none

/-- Adds and subtracts in the range. -/
def Sign.whole? : Sign → ℤ → ℤ → Option ℤ
  | plus, a, b => inRange? (a + b)
  | minus, a, b => inRange? (a - b)

/-- Multiplies by the next factor, or divides by it. -/
def Product.stepWhole? (sofar : ℤ) (step : FactorOp × Factor) : Option ℤ := do
  let factor ← step.2.whole?
  step.1.whole? sofar factor

/-- The whole number that a product comes to. -/
def Product.whole? (p : Product) : Option ℤ := do
  let first ← p.first.whole?
  p.rest.foldlM stepWhole? first

/-- Adds the next term, or subtracts it. -/
def SignedTerm.stepWhole? (total : ℤ) (t : SignedTerm) : Option ℤ := do
  let term ← t.term.whole?
  t.sign.whole? total term

/-- The whole number that a sum comes to. -/
def Sum.whole? (s : Sum) : Option ℤ := do
  let first ← s.first.whole?
  let start ← (s.lead.getLast?.getD .plus).whole? 0 first
  s.rest.foldlM SignedTerm.stepWhole? start

/-! ## Doubles along the way -/

variable {x y : Binary64} {a b z : ℤ}

theorem inRange?_eq_some_iff : inRange? a = some z ↔ InExactRange a ∧ a = z := by
  simp [inRange?]

/-- The double of a whole factor holds its number. -/
theorem Factor.holds_double {f : Factor} (h : f.whole? = some z) : f.double.Holds z := by
  simp only [whole?, Option.ite_none_right_eq_some, inRange?_eq_some_iff] at h
  obtain ⟨hfraction, hrange, rfl⟩ := h
  have hvalue : f.value = digitsValue f.whole := by simp [value, hfraction]
  rw [double, hvalue]
  exact Binary64.holds_round (Nat.cast_nonneg _) hrange (by simp)

/-- A factor operator is exact where it is worked out in whole numbers. -/
theorem FactorOp.holds_eval {o : FactorOp} (h : o.whole? a b = some z) (hx : x.Holds a)
    (hy : y.Holds b) : (o.eval x y).Holds z ∧ (o = .divide → y.isZero = false) := by
  cases o with
  | times =>
    obtain ⟨hrange, rfl⟩ := inRange?_eq_some_iff.1 h
    exact ⟨hx.mul hy hrange, by simp⟩
  | divide =>
    simp only [whole?, Option.ite_none_right_eq_some, inRange?_eq_some_iff] at h
    obtain ⟨⟨hb, hdvd⟩, hrange, rfl⟩ := h
    exact ⟨hx.div hy hb hdvd hrange, fun _ => hy.isZero_eq_false hb⟩

theorem Sign.holds_eval {sign : Sign} (h : sign.whole? a b = some z) (hx : x.Holds a)
    (hy : y.Holds b) : (sign.eval x y).Holds z := by
  cases sign with
  | plus =>
    obtain ⟨hrange, rfl⟩ := inRange?_eq_some_iff.1 h
    exact hx.add hy hrange
  | minus =>
    obtain ⟨hrange, rfl⟩ := inRange?_eq_some_iff.1 h
    exact hx.sub hy hrange

/-- Steps in whole numbers are the same steps in doubles, and divide by no zero. -/
theorem Product.holds_applySteps {steps : List (FactorOp × Factor)}
    (h : steps.foldlM stepWhole? a = some z) (hx : x.Holds a) :
    (applySteps x steps).Holds z ∧ NoZeroDivisor steps := by
  -- both runs go on from the product so far
  induction steps generalizing a x with
  | nil =>
    obtain rfl := Option.some.inj h
    exact ⟨hx, by simp [NoZeroDivisor]⟩
  | cons step steps ih =>
    rw [List.foldlM_cons] at h
    obtain ⟨c, hstep, hrest⟩ := Option.bind_eq_some_iff.1 h
    obtain ⟨b, hfactor, hop⟩ := Option.bind_eq_some_iff.1 hstep
    obtain ⟨heval, hzero⟩ := FactorOp.holds_eval hop hx (Factor.holds_double hfactor)
    obtain ⟨hvalue, hsteps⟩ := ih hrest heval
    exact ⟨hvalue, List.forall_mem_cons.2 ⟨hzero, hsteps⟩⟩

/-- A term that is worked out in whole numbers holds the result. -/
theorem Product.holds_value {p : Product} (h : p.whole? = some z) :
    p.value.Holds z ∧ NoZeroDivisor p.rest := by
  obtain ⟨a, hfirst, hrest⟩ := Option.bind_eq_some_iff.1 h
  exact holds_applySteps hrest (Factor.holds_double hfirst)

/-- Terms in whole numbers are the same terms in doubles, and divide by no zero. -/
theorem SignedTerm.holds_foldl {rest : List SignedTerm}
    (h : rest.foldlM stepWhole? a = some z) (hx : x.Holds a) :
    (rest.foldl (fun total t => t.sign.eval total t.term.value) x).Holds z ∧
      ∀ t ∈ rest, Product.NoZeroDivisor t.term.rest := by
  -- both runs go on from the sum so far
  induction rest generalizing a x with
  | nil =>
    obtain rfl := Option.some.inj h
    exact ⟨hx, by simp⟩
  | cons t rest ih =>
    rw [List.foldlM_cons] at h
    obtain ⟨c, hstep, hrest⟩ := Option.bind_eq_some_iff.1 h
    obtain ⟨b, hterm, hsign⟩ := Option.bind_eq_some_iff.1 hstep
    obtain ⟨hterm, hzero⟩ := Product.holds_value hterm
    obtain ⟨hvalue, hterms⟩ := ih hrest (Sign.holds_eval hsign hx hterm)
    exact ⟨hvalue, List.forall_mem_cons.2 ⟨hzero, hterms⟩⟩

/-- The sum starts from a zero that holds the number zero. -/
theorem Binary64.holds_zero : Binary64.zero.Holds 0 := by
  refine ⟨?_, by decide⟩
  rw [zero, toRat?, signedRat, Magnitude.toRat_eq_zero_iff.2 rfl]
  rfl

/-- The value of a sum is the whole number that it comes to. -/
theorem Sum.holds_value {s : Sum} (h : s.whole? = some z) : s.value.Holds z ∧ s.NoZeroDivisor := by
  obtain ⟨a, hfirst, h⟩ := Option.bind_eq_some_iff.1 h
  obtain ⟨start, hstart, hrest⟩ := Option.bind_eq_some_iff.1 h
  obtain ⟨hfirst, hzero⟩ := Product.holds_value hfirst
  obtain ⟨hvalue, hterms⟩ :=
    SignedTerm.holds_foldl hrest (Sign.holds_eval hstart Binary64.holds_zero hfirst)
  exact ⟨hvalue, hzero, hterms⟩

/-! ## What is shown -/

/-- A double that is a whole number is shown as that number. -/
theorem Binary64.Holds.display (h : x.Holds z) : x.display = (toString z).toList := by
  obtain ⟨negative, m, rfl, hm⟩ := h.exists_finite
  have hsize : m.toRat = z.natAbs := by
    rw [← abs_signedRat_eq negative m, hm, Nat.cast_natAbs, Int.cast_abs]
  have hvalue : (CanonicalNumeral.ofScaled 0 z).value = z := by
    rw [CanonicalNumeral.value_ofScaled, pow_zero, div_one]
  -- the shortest decimal of the double is the whole number itself
  have hshortest : (signedShortest negative m).toRat = (CanonicalNumeral.ofScaled 0 z).value := by
    rw [toRat_signedShortest, Magnitude.shortest_eq_natCast h.inExactRange.natAbs_le hsize,
      ← hsize, hvalue]
    exact hm
  have hplaces : HasPlaces displayPlaces (CanonicalNumeral.ofScaled 0 z).value :=
    CanonicalNumeral.hasPlaces
      ((CanonicalNumeral.length_fraction_ofScaled 0 z).trans (Nat.zero_le _))
  rw [display_eq_of_hasPlaces hplaces hshortest, CanonicalNumeral.text_ofScaled_zero]

/-- Calculating a sum that can be worked out in whole numbers shows what it comes to, which is then
the entry. -/
theorem Sum.calculate_whole {s : Sum} (h : s.whole? = some z) :
    (Entry.mk s.text).calculate.value = (.ok (toString z).toList, ⟨(toString z).toList⟩) := by
  obtain ⟨hvalue, hdivisors⟩ := s.holds_value h
  have heval : (evaluate (Entry.mk s.text).text).value = .ok s.value := by
    rw [value_evaluate, valueOf_sum s hdivisors, if_pos hvalue.isFinite]
  rw [Entry.value_calculate_of_ok heval, hvalue.display]

/-- A sum that comes to the last number of the range. -/
theorem Sum.calculate_two_pow_fifty_three :
    (Entry.mk "9007199254740981+33/3".toList).calculate.value =
      (.ok "9007199254740992".toList, ⟨"9007199254740992".toList⟩) := by
  have h := Sum.calculate_whole (s :=
    ⟨[], ⟨⟨"9007199254740981".toList, none, by decide, by simp, by decide⟩, []⟩,
      [⟨[], .plus, ⟨⟨"33".toList, none, by decide, by simp, by decide⟩,
        [(.divide, ⟨"3".toList, none, by decide, by simp, by decide⟩)]⟩⟩], []⟩)
    (z := 9007199254740992) (by decide)
  exact h

/-- Out of the range a whole number can be lost: here the next double is two further on. -/
example : (Entry.mk "9007199254740992+1".toList).calculate.value.1 =
    .ok "9007199254740992".toList := by
  decide +kernel

end FourFunction
