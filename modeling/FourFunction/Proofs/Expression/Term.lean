import FourFunction.Proofs.Expression.Grammar
import Mathlib.Data.List.TakeWhile

/-!
# Well-formed and faulty terms

A text in the alphabet of terms either is the text of a product that divides by no zero, and then
the product's value is its value, or it has a leftmost fault, and then that fault alone decides its
error. The fault is looked for from left to right: what stands before it is a product.

## Main results

* `Term.product_or_fault`: one of the two;
* `Term.value_eq_ok_iff`, `Term.value_eq_error_iff`: what the evaluator makes of each.
-/

namespace FourFunction

/-! ## Factors -/

/-- Some digits and points that are no factor: no digit at all, or two points or more. -/
structure MalformedFactor (text : Text) : Prop where
  ne_nil : text ≠ []
  isFactorChar : ∀ c ∈ text, IsFactorChar c
  malformed : (∀ c ∈ text, c.isDigit = false) ∨ 2 ≤ text.count '.'

section Factors

variable {text : Text} {f : Factor}

/-- A text is all digits, or a first character in it is no digit. -/
theorem allDigits_or_exists_first (text : Text) :
    AllDigits text ∨
      ∃ whole c rest, text = whole ++ c :: rest ∧ AllDigits whole ∧ c.isDigit = false := by
  cases hfind : text.find? fun c => !c.isDigit with
  | none =>
    left
    intro c hc
    simpa using List.find?_eq_none.1 hfind c hc
  | some c =>
    obtain ⟨hc, whole, rest, rfl, hwhole⟩ := List.find?_eq_some_iff_append.1 hfind
    refine Or.inr ⟨whole, c, rest, rfl, fun d hd => ?_, by simpa using hc⟩
    simpa using hwhole d hd

theorem AllDigits.count_point (h : AllDigits text) : text.count '.' = 0 := by
  rw [List.count_eq_zero]
  intro hmem
  exact absurd (h '.' hmem) (by decide)

/-- Digits alone are a literal without a fraction. -/
theorem AllDigits.ofText? (h : AllDigits text) (hne : text ≠ []) :
    Literal.ofText? text = some ⟨text, []⟩ := by
  have htake : text.takeWhile Char.isDigit = text := List.takeWhile_eq_self_iff.2 h
  have hdrop : text.dropWhile Char.isDigit = [] := List.dropWhile_eq_nil_iff.2 h
  simp [Literal.ofText?, htake, hdrop, hne]

/-- What follows the first point must be digits, and one digit must stand on either side of it. -/
theorem AllDigits.ofText?_append (h : AllDigits text) (fraction : Text) :
    Literal.ofText? (text ++ '.' :: fraction) =
      if fraction.all Char.isDigit ∧ text ++ fraction ≠ [] then some ⟨text, fraction⟩
      else none := by
  have htake := takeWhile_append_cons h (show Char.isDigit '.' = false from rfl) fraction
  have hdrop := dropWhile_append_cons h (show Char.isDigit '.' = false from rfl) fraction
  simp only [Literal.ofText?, htake, hdrop, true_and]

/-- A factor is read as the literal with its digits. -/
theorem Factor.ofText?_text (f : Factor) :
    Literal.ofText? f.text = some ⟨f.whole, f.fraction.getD []⟩ := by
  obtain ⟨whole, fraction, hwhole, hfraction, hne⟩ := f
  cases fraction with
  | none =>
    have hwhole_ne : whole ≠ [] := by simpa using hne
    rw [Factor.text, Option.elim_none, List.append_nil, hwhole.ofText? hwhole_ne]
    rfl
  | some digits =>
    rw [Factor.text, Option.elim_some, hwhole.ofText?_append, if_pos]
    · rfl
    · exact ⟨List.all_eq_true.2 (hfraction digits rfl), hne⟩

theorem Factor.value_literal (f : Factor) :
    Literal.value ⟨f.whole, f.fraction.getD []⟩ = f.value := by
  rw [Literal.value, Rat.mkRat_eq_div, Factor.value, Nat.pow_eq, Nat.cast_pow]
  rfl

/-- A factor is read as its double. -/
theorem readFactor_text (f : Factor) : readFactor f.text = .ok f.double := by
  rw [readFactor, f.ofText?_text]
  exact congrArg (fun q => Except.ok (Binary64.round false q)) f.value_literal

/-- Some digits and points are a factor or malformed. -/
theorem factor_or_malformed (hne : text ≠ []) (hchars : ∀ c ∈ text, IsFactorChar c) :
    (∃ f : Factor, f.text = text) ∨ MalformedFactor text := by
  rcases allDigits_or_exists_first text with h | ⟨whole, c, fraction, rfl, hwhole, hc⟩
  · refine Or.inl ⟨⟨text, none, h, by simp, ?_⟩, ?_⟩
    · simpa using hne
    · simp [Factor.text]
  obtain rfl : c = '.' := by
    have := hchars c (List.mem_append_right _ (List.mem_cons_self ..))
    exact this.resolve_left (by simp [hc])
  by_cases hfraction : AllDigits fraction
  · by_cases hdigits : whole ++ fraction = []
    · -- a point alone
      obtain ⟨rfl, rfl⟩ := List.append_eq_nil_iff.1 hdigits
      exact Or.inr ⟨hne, hchars, Or.inl (by simp)⟩
    · refine Or.inl ⟨⟨whole, some fraction, hwhole, ?_, hdigits⟩, rfl⟩
      rintro digits ⟨⟩
      exact hfraction
  · -- what is no digit after the point is a second point
    obtain ⟨c, hc, hdigit⟩ : ∃ c ∈ fraction, ¬ c.isDigit = true := by
      simpa [AllDigits] using hfraction
    have hmem : c ∈ whole ++ '.' :: fraction :=
      List.mem_append_right _ (List.mem_cons_of_mem _ hc)
    obtain rfl := (hchars c hmem).resolve_left hdigit
    refine Or.inr ⟨hne, hchars, Or.inr ?_⟩
    have := List.count_pos_iff.2 hc
    rw [List.count_append, List.count_cons_self]
    omega

/-- The evaluator refuses a malformed factor and names it. -/
theorem readFactor_malformed (h : MalformedFactor text) :
    readFactor text = .error (.badLiteral text) := by
  have hread : Literal.ofText? text = none := by
    rcases allDigits_or_exists_first text with hdigits | ⟨whole, c, fraction, rfl, hwhole, hc⟩
    · -- digits alone, and at least one, are not malformed
      exfalso
      rcases h.malformed with hno | htwo
      · obtain ⟨c, hc⟩ := List.exists_mem_of_ne_nil _ h.ne_nil
        exact absurd (hdigits c hc) (by simp [hno c hc])
      · rw [hdigits.count_point] at htwo
        omega
    · obtain rfl : c = '.' := by
        have := h.isFactorChar c (List.mem_append_right _ (List.mem_cons_self ..))
        exact this.resolve_left (by simp [hc])
      -- only digits after the point, and at least one digit, are not malformed either
      rw [hwhole.ofText?_append, if_neg]
      rintro ⟨hall, hdigits⟩
      have hfraction : AllDigits fraction := List.all_eq_true.1 hall
      rcases h.malformed with hno | htwo
      · obtain ⟨d, hd⟩ := List.exists_mem_of_ne_nil _ hdigits
        have hmem : d ∈ whole ++ '.' :: fraction := by
          rw [List.mem_append, List.mem_cons]
          exact (List.mem_append.1 hd).imp_right Or.inr
        exact absurd (AllDigits.append_iff.2 ⟨hwhole, hfraction⟩ d hd) (by simp [hno d hmem])
      · rw [List.count_append, List.count_cons_self, hwhole.count_point,
          hfraction.count_point] at htwo
        omega
  rw [readFactor, hread]

end Factors

/-! ## Faults -/

/-- A fault at the beginning of a text that follows a product. -/
inductive StepFault : Text → EvalError → Prop where
  /-- No factor follows the operator. -/
  | noFactor (o : FactorOp) (rest : Text) (hrest : Token.EndsPiece FactorOp rest) :
      StepFault (o.symbol :: rest) (.missingOperand (.factor o))
  | malformed (o : FactorOp) (factor rest : Text) (hfactor : MalformedFactor factor)
      (hrest : Token.EndsPiece FactorOp rest) :
      StepFault (o.symbol :: factor ++ rest) (.badLiteral factor)
  | zeroDivisor (f : Factor) (rest : Text) (hzero : f.double.isZero = true)
      (hrest : Token.EndsPiece FactorOp rest) :
      StepFault (FactorOp.divide.symbol :: f.text ++ rest) .divisionByZero

/-- The leftmost fault of a term. -/
inductive TermFault : Text → EvalError → Prop where
  /-- The term begins with an operator. -/
  | noFirst (o : FactorOp) (rest : Text) :
      TermFault (o.symbol :: rest) (.missingOperand (.factor o))
  | malformedFirst (factor rest : Text) (hfactor : MalformedFactor factor)
      (hrest : Token.EndsPiece FactorOp rest) : TermFault (factor ++ rest) (.badLiteral factor)
  /-- What stands before the fault is a product and divides by no zero. -/
  | step (before : Product) (hbefore : Product.NoZeroDivisor before.rest) {rest : Text}
      {err : EvalError} (hfault : StepFault rest err) : TermFault (before.text ++ rest) err

/-- A fault after a factor begins with an operator, or there is nothing more. -/
theorem StepFault.endsPiece {rest : Text} {err : EvalError} (h : StepFault rest err) :
    Token.EndsPiece FactorOp rest := by
  cases h with
  | noFactor o rest hrest => exact Token.endsPiece_symbol_cons o rest
  | malformed o factor rest hfactor hrest => exact Token.endsPiece_symbol_cons o (factor ++ rest)
  | zeroDivisor f rest hzero hrest =>
    exact Token.endsPiece_symbol_cons FactorOp.divide (f.text ++ rest)

/-- A malformed factor is one piece between factor operators. -/
theorem MalformedFactor.isPiece {text : Text} (h : MalformedFactor text) :
    Token.IsPiece FactorOp text :=
  ⟨h.ne_nil, fun c hc => (h.isFactorChar c hc).ofChar?_factorOp⟩

/-! ## Reduction -/

namespace Term

open Product (stepText stepTokens applySteps NoZeroDivisor)

section Steps

variable {text : Text} {tail : List (Token FactorOp)} {o : FactorOp} {x y z : Binary64}
  {err : EvalError}

/-- A factor that is read and applied is left behind. -/
theorem reduceFrom_of_ok (hread : readFactor text = .ok y) (happly : o.apply x y = .ok z) :
    reduceFrom x (.op o :: .piece text :: tail) = reduceFrom z tail := by
  rw [reduceFrom, hread]
  show o.apply x y >>= _ = _
  rw [happly]
  rfl

/-- A factor that cannot be read ends the reduction. -/
theorem reduceFrom_of_readFactor_error (hread : readFactor text = .error err) :
    reduceFrom x (.op o :: .piece text :: tail) = .error err := by
  rw [reduceFrom, hread]
  rfl

/-- A division by zero ends the reduction. -/
theorem reduceFrom_of_apply_error (hread : readFactor text = .ok y)
    (happly : o.apply x y = .error err) :
    reduceFrom x (.op o :: .piece text :: tail) = .error err := by
  rw [reduceFrom, hread]
  show o.apply x y >>= _ = _
  rw [happly]
  rfl

/-- An operator without a factor behind it ends the reduction. -/
theorem reduceFrom_of_not_startsWithPiece (h : ¬ Token.StartsWithPiece tail) :
    reduceFrom x (.op o :: tail) = .error (.missingOperand (.factor o)) := by
  rcases tail with _ | ⟨_ | text, tail⟩
  · rfl
  · rfl
  · exact absurd Token.startsWithPiece_piece_cons h

theorem reduce_of_ok (hread : readFactor text = .ok y) :
    reduce (.piece text :: tail) = reduceFrom y tail := by
  rw [reduce, hread]
  rfl

theorem reduce_of_readFactor_error (hread : readFactor text = .error err) :
    reduce (.piece text :: tail) = .error err := by
  rw [reduce, hread]
  rfl

/-- An operator is applied unless it divides by zero. -/
theorem apply_eq_ok (h : o = .divide → y.isZero = false) : o.apply x y = .ok (o.eval x y) := by
  cases o with
  | times => rfl
  | divide =>
    rw [FactorOp.apply, h rfl]
    rfl

/-- A division by zero is refused. -/
theorem apply_eq_error (h : y.isZero = true) :
    FactorOp.divide.apply x y = .error .divisionByZero := by
  rw [FactorOp.apply, if_pos h]

end Steps

variable {text rest : Text} {steps : List (FactorOp × Factor)} {x : Binary64} {err : EvalError}

/-- An operator in front of a text is its first token. -/
theorem split_symbol_cons (o : FactorOp) (text : Text) :
    Token.split (o.symbol :: text) = .op o :: Token.split text :=
  Token.prepend_symbol o (Token.split text)

/-- Steps that divide by no zero are made one by one. -/
theorem reduceFrom_steps (h : NoZeroDivisor steps) (x : Binary64) (tail : List (Token FactorOp)) :
    reduceFrom x (steps.flatMap stepTokens ++ tail) = reduceFrom (applySteps x steps) tail := by
  induction steps generalizing x with
  | nil => rfl
  | cons step steps ih =>
    have hstep := apply_eq_ok (x := x) (h step (List.mem_cons_self ..))
    rw [List.flatMap_cons, stepTokens, List.append_assoc]
    exact (reduceFrom_of_ok (readFactor_text step.2) hstep).trans
      (ih (fun s hs => h s (List.mem_cons_of_mem _ hs)) _)

/-- The value of a product that divides by no zero is its value as a term. -/
theorem value_text (p : Product) (h : NoZeroDivisor p.rest) : value p.text = .ok p.value := by
  have hsteps := reduceFrom_steps h p.first.double []
  rw [List.append_nil] at hsteps
  rw [value, Product.split_text, Product.tokens, reduce_of_ok (readFactor_text p.first), hsteps]
  rfl

/-- A fault after a product decides the error. -/
theorem reduceFrom_of_stepFault (h : StepFault rest err) (x : Binary64) :
    reduceFrom x (Token.split rest) = .error err := by
  cases h with
  | noFactor o rest hrest =>
    rw [split_symbol_cons]
    exact reduceFrom_of_not_startsWithPiece (Token.not_startsWithPiece_split_iff.2 hrest)
  | malformed o factor rest hfactor hrest =>
    rw [List.cons_append, split_symbol_cons, Token.split_piece_append hfactor.isPiece hrest]
    exact reduceFrom_of_readFactor_error (readFactor_malformed hfactor)
  | zeroDivisor f rest hzero hrest =>
    rw [List.cons_append, split_symbol_cons, Token.split_piece_append f.isPiece hrest]
    exact reduceFrom_of_apply_error (readFactor_text f) (apply_eq_error hzero)

/-- The leftmost fault of a term decides its error. -/
theorem value_of_fault (h : TermFault text err) : value text = .error err := by
  rw [value]
  cases h with
  | noFirst o rest => rw [split_symbol_cons, reduce]
  | malformedFirst factor rest hfactor hrest =>
    rw [Token.split_piece_append hfactor.isPiece hrest]
    exact reduce_of_readFactor_error (readFactor_malformed hfactor)
  | step before hbefore hfault =>
    rw [Token.split_append hfault.endsPiece, Product.split_text, Product.tokens,
      List.cons_append, reduce_of_ok (readFactor_text before.first), reduceFrom_steps hbefore,
      reduceFrom_of_stepFault hfault]

/-! ## Looking for the fault -/

/-- At an operator, either a step can be made that divides by no zero, or there is a fault. -/
theorem step_or_fault {o : FactorOp} {tail : List (Token FactorOp)} (htail : Token.Canonical tail)
    (hchars : ∀ c ∈ Token.concat tail, IsTermChar c) :
    (∃ (f : Factor) (rest : List (Token FactorOp)), tail = .piece f.text :: rest ∧
        (o = .divide → f.double.isZero = false)) ∨
      ∃ err, StepFault (o.symbol :: Token.concat tail) err := by
  by_cases hstart : Token.StartsWithPiece tail
  · obtain ⟨text, rest, rfl⟩ := hstart
    obtain ⟨hpiece, hrest, hstart⟩ := Token.canonical_piece_cons_iff.1 htail
    have hends := (Token.endsPiece_concat_iff hrest).2 hstart
    have htext : ∀ c ∈ text, IsFactorChar c := fun c hc =>
      (hchars c (List.mem_append_left _ hc)).isFactorChar (hpiece.2 c hc)
    -- a piece follows, so the factor is read before the divisor is tested
    rcases factor_or_malformed hpiece.1 htext with ⟨f, rfl⟩ | hmalformed
    · by_cases hzero : o = .divide ∧ f.double.isZero = true
      · obtain ⟨rfl, hzero⟩ := hzero
        exact Or.inr ⟨_, .zeroDivisor f _ hzero hends⟩
      · exact Or.inl ⟨f, rest, rfl, fun ho => by simpa [ho] using hzero⟩
    · exact Or.inr ⟨_, .malformed o text _ hmalformed hends⟩
  · exact Or.inr ⟨_, .noFactor o _ ((Token.endsPiece_concat_iff htail).2 hstart)⟩

/-- What follows a factor is some steps that divide by no zero, and then nothing or a fault. -/
theorem steps_or_fault {tokens : List (Token FactorOp)} (hcanonical : Token.Canonical tokens)
    (hchars : ∀ c ∈ Token.concat tokens, IsTermChar c) (hstart : ¬ Token.StartsWithPiece tokens) :
    ∃ steps rest, Token.concat tokens = steps.flatMap stepText ++ rest ∧ NoZeroDivisor steps ∧
      (rest = [] ∨ ∃ err, StepFault rest err) := by
  -- an operator and its factor are two tokens, so the induction is on the length
  induction hlen : tokens.length using Nat.strong_induction_on generalizing tokens with
  | _ n ih =>
    cases tokens with
    | nil => exact ⟨[], [], rfl, by simp [NoZeroDivisor], Or.inl rfl⟩
    | cons token tail =>
      cases token with
      | piece text => exact absurd Token.startsWithPiece_piece_cons hstart
      | op o =>
        have htail := Token.canonical_op_cons_iff.1 hcanonical
        have hchars' : ∀ c ∈ Token.concat tail, IsTermChar c := fun c hc =>
          hchars c (List.mem_cons_of_mem _ hc)
        rcases step_or_fault (o := o) htail hchars' with ⟨f, tail, rfl, hzero⟩ | ⟨err, hfault⟩
        · -- the step is made, and the search goes on behind its factor
          obtain ⟨_, hrest, hstart⟩ := Token.canonical_piece_cons_iff.1 htail
          have hchars'' : ∀ c ∈ Token.concat tail, IsTermChar c := fun c hc =>
            hchars' c (List.mem_append_right _ hc)
          have hlt : tail.length < n := by
            simp only [List.length_cons] at hlen
            omega
          obtain ⟨steps, rest, heq, hsteps, hend⟩ := ih _ hlt hrest hchars'' hstart rfl
          refine ⟨(o, f) :: steps, rest, ?_, List.forall_mem_cons.2 ⟨hzero, hsteps⟩, hend⟩
          rw [List.flatMap_cons, List.append_assoc, ← heq]
          rfl
        · exact ⟨[], _, rfl, by simp [NoZeroDivisor], Or.inr ⟨err, hfault⟩⟩

/-- A text in the alphabet of terms is the text of a product that divides by no zero, or it has a
leftmost fault. -/
theorem product_or_fault (hne : text ≠ []) (hchars : ∀ c ∈ text, IsTermChar c) :
    (∃ p : Product, p.text = text ∧ NoZeroDivisor p.rest) ∨ ∃ err, TermFault text err := by
  have hcanonical := Token.canonical_split (σ := FactorOp) text
  obtain ⟨tokens, htokens⟩ : ∃ tokens, Token.split (σ := FactorOp) text = tokens := ⟨_, rfl⟩
  obtain rfl : Token.concat tokens = text := by rw [← htokens, Token.concat_split]
  rw [htokens] at hcanonical
  rcases tokens with _ | ⟨o | first, tail⟩
  · exact absurd rfl hne
  · exact Or.inr ⟨_, TermFault.noFirst o (Token.concat tail)⟩
  -- the term begins with a piece, which has to be a factor before any step is made
  obtain ⟨hpiece, htail, hstart⟩ := Token.canonical_piece_cons_iff.1 hcanonical
  have hfirst : ∀ c ∈ first, IsFactorChar c := fun c hc =>
    (hchars c (List.mem_append_left _ hc)).isFactorChar (hpiece.2 c hc)
  rcases factor_or_malformed hpiece.1 hfirst with ⟨f, rfl⟩ | hmalformed
  · obtain ⟨steps, rest, heq, hsteps, hend⟩ := steps_or_fault htail
      (fun c hc => hchars c (List.mem_append_right _ hc)) hstart
    -- the factor and the steps make the product that stands before the rest
    have htext : Token.concat (.piece f.text :: tail) = (Product.mk f steps).text ++ rest := by
      rw [Product.text, List.append_assoc, ← heq]
      rfl
    rw [htext]
    rcases hend with rfl | ⟨err, hfault⟩
    · exact Or.inl ⟨⟨f, steps⟩, (List.append_nil _).symm, hsteps⟩
    · exact Or.inr ⟨err, .step ⟨f, steps⟩ hsteps hfault⟩
  · have hends := (Token.endsPiece_concat_iff htail).2 hstart
    exact Or.inr ⟨_, TermFault.malformedFirst first (Token.concat tail) hmalformed hends⟩

/-! ## What the evaluator makes of a term -/

/-- Exactly the products that divide by no zero have a value as a term. -/
theorem value_eq_ok_iff (hne : text ≠ []) (hchars : ∀ c ∈ text, IsTermChar c) :
    value text = .ok x ↔ ∃ p : Product, p.text = text ∧ NoZeroDivisor p.rest ∧ p.value = x := by
  constructor
  · intro h
    rcases product_or_fault hne hchars with ⟨p, rfl, hp⟩ | ⟨err, hfault⟩
    · rw [value_text p hp] at h
      exact ⟨p, rfl, hp, Except.ok.inj h⟩
    · rw [value_of_fault hfault] at h
      cases h
  · rintro ⟨p, rfl, hp, rfl⟩
    exact value_text p hp

/-- A term is refused exactly for its leftmost fault. -/
theorem value_eq_error_iff (hne : text ≠ []) (hchars : ∀ c ∈ text, IsTermChar c) :
    value text = .error err ↔ TermFault text err := by
  constructor
  · intro h
    rcases product_or_fault hne hchars with ⟨p, rfl, hp⟩ | ⟨err', hfault⟩
    · rw [value_text p hp] at h
      cases h
    · rw [value_of_fault hfault] at h
      obtain rfl := Except.error.inj h
      exact hfault
  · exact value_of_fault

end Term

end FourFunction
