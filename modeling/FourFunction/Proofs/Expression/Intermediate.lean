import FourFunction.Proofs.Expression.Continuation

/-!
# Overflow is never hidden

An evaluation comes through many doubles: the literals, the products and quotients of each term from
left to right, and the sums of the terms from left to right. Overflow is tested once, on the last of
these sums. That is enough, since an infinity or NaN never becomes finite again, on either level.
There is one exception: a divisor may overflow, and then the quotient is zero.

The doubles are those that the evaluator itself comes to: the products of a term are what its first
tokens are reduced to, and the sums of an expression are what a run over its first tokens adds up.

## Main results

* `Term.reduceFrom_eq_ok_iff`: the reduction of a term, step by step;
* `Term.isFinite_of_isPartialProduct`, `Term.isFinite_of_isMultiplicand`: nothing on the way to a
  finite term overflows, divisors left out;
* `Intermediate.isFinite`: nothing on the way to a finite sum overflows, divisors left out;
* `overflow_not_hidden`: an expression is refused for overflow exactly if something on the way
  overflows.
-/

namespace FourFunction

/-! ## The doubles on the way -/

/-- A term of an expression: what stands between two signs, or before the first or after the last of
them. -/
def IsTerm (text term : Text) : Prop := (.piece term : Token Sign) ∈ Token.split text

/-- What the first tokens of a term come to, up to some factor. -/
def Term.IsPartialProduct (term : Text) (x : Binary64) : Prop :=
  ∃ before, before <+: Token.split term ∧ reduce before = .ok x

/-- What a factor of a term is read as, if it is not a divisor. -/
def Term.IsMultiplicand (term : Text) (x : Binary64) : Prop :=
  ∃ before factor after, Token.split term = before ++ .piece factor :: after ∧
    before.getLast? ≠ some (.op FactorOp.divide) ∧ readFactor factor = .ok x

/-- What the first tokens of an expression add up to. Before the first term that is zero. -/
def IsPartialSum (text : Text) (x : Binary64) : Prop :=
  ∃ (before : List (Token Sign)) (sum : RunningSum), before <+: Token.split text ∧
    before.foldlM RunningSum.next {} = .ok sum ∧ sum.total = x

/-- The doubles that the evaluation of an expression comes through, without the divisors. -/
inductive Intermediate (text : Text) : Binary64 → Prop where
  | literal {term : Text} {x : Binary64} (hterm : IsTerm text term)
      (hx : Term.IsMultiplicand term x) : Intermediate text x
  | product {term : Text} {x : Binary64} (hterm : IsTerm text term)
      (hx : Term.IsPartialProduct term x) : Intermediate text x
  | sum {x : Binary64} (hx : IsPartialSum text x) : Intermediate text x

/-! ## Factors -/

/-- A factor is read as a rounded number without a sign. -/
theorem exists_round_of_readFactor {text : Text} {x : Binary64} (h : readFactor text = .ok x) :
    ∃ size, x = Binary64.round false size := by
  unfold readFactor at h
  split at h
  · exact ⟨_, (Except.ok.inj h).symm⟩
  · cases h

/-- A factor is not read as negative. -/
theorem nonNegative_of_readFactor {text : Text} {x : Binary64} (h : readFactor text = .ok x) :
    x.NonNegative := by
  obtain ⟨size, rfl⟩ := exists_round_of_readFactor h
  exact Binary64.nonNegative_round size

/-! ## Terms -/

namespace Term

variable {tokens before after : List (Token FactorOp)} {x y z : Binary64} {o : FactorOp}
  {term factor : Text}

/-- Reducing the tokens from a double comes to another one: at each operator a factor follows, and
it is no divisor that is read as zero. -/
inductive Reduces : Binary64 → List (Token FactorOp) → Binary64 → Prop where
  | nil (x : Binary64) : Reduces x [] x
  | step {x y z : Binary64} {o : FactorOp} {factor : Text} {rest : List (Token FactorOp)}
      (hread : readFactor factor = .ok y) (hzero : o = .divide → y.isZero = false)
      (hrest : Reduces (o.eval x y) rest z) : Reduces x (.op o :: .piece factor :: rest) z

/-- An operator gives a double unless it divides by zero, and then the double that it stands for. -/
theorem apply_eq_ok_iff :
    o.apply x y = .ok z ↔ (o = .divide → y.isZero = false) ∧ o.eval x y = z := by
  constructor
  · intro h
    have hzero : o = .divide → y.isZero = false := by
      rintro rfl
      by_contra hzero
      rw [apply_eq_error (by simpa using hzero)] at h
      cases h
    rw [apply_eq_ok hzero] at h
    exact ⟨hzero, Except.ok.inj h⟩
  · rintro ⟨hzero, rfl⟩
    exact apply_eq_ok hzero

/-- The reduction ends with a double if every step gives one. -/
theorem reduceFrom_eq_ok_iff : reduceFrom x tokens = .ok z ↔ Reduces x tokens z := by
  constructor
  · intro h
    fun_induction reduceFrom x tokens with
    | case1 x =>
      obtain rfl := Except.ok.inj h
      exact .nil x
    | case2 x o factor rest ih =>
      obtain ⟨y, hread, h⟩ := bind_eq_ok_iff.1 h
      obtain ⟨w, happly, hrest⟩ := bind_eq_ok_iff.1 h
      obtain ⟨hzero, rfl⟩ := apply_eq_ok_iff.1 happly
      exact .step hread hzero (ih _ hrest)
    | case3 => cases h
    | case4 => cases h
  · intro h
    induction h with
    | nil x => rfl
    | step hread hzero _ ih => rw [reduceFrom_of_ok hread (apply_eq_ok hzero), ih]

/-- A term has a value if its first factor can be read and its steps reduce. -/
theorem reduce_eq_ok_iff : reduce tokens = .ok z ↔
    ∃ factor rest x, tokens = .piece factor :: rest ∧ readFactor factor = .ok x ∧
      Reduces x rest z := by
  constructor
  · intro h
    unfold reduce at h
    split at h
    · cases h
    · cases h
    · next factor rest =>
      obtain ⟨x, hread, hrest⟩ := bind_eq_ok_iff.1 h
      exact ⟨factor, rest, x, rfl, hread, reduceFrom_eq_ok_iff.1 hrest⟩
  · rintro ⟨factor, rest, x, rfl, hread, hrest⟩
    rw [reduce_of_ok hread, reduceFrom_eq_ok_iff.2 hrest]

namespace Reduces

/-- What some tokens come to is what the others go on from. -/
theorem of_append (h : Reduces x before y) (hall : Reduces x (before ++ after) z) :
    Reduces y after z := by
  induction h with
  | nil x => exact hall
  | step hread hzero _ ih =>
    cases hall with
    | step hread' _ hrest =>
      obtain rfl := Except.ok.inj (hread.symm.trans hread')
      exact ih hrest

/-- Steps that follow go on from where the others end. -/
theorem append (h : Reduces x before y) (hafter : Reduces y after z) :
    Reduces x (before ++ after) z := by
  induction h with
  | nil x => exact hafter
  | step hread hzero _ ih => exact .step hread hzero (ih hafter)

/-- What stands before an operator comes to something. -/
theorem exists_before_op (h : Reduces x (before ++ .op o :: after) z) :
    ∃ y, Reduces x before y := by
  generalize htokens : before ++ .op o :: after = tokens at h
  induction h generalizing before with
  | nil x => simp at htokens
  | step hread hzero _ ih =>
    rcases before with _ | ⟨first, _ | ⟨second, before⟩⟩
    · exact ⟨_, .nil _⟩
    · -- the second token would be an operator and a factor
      simp at htokens
    · simp only [List.cons_append, List.cons.injEq] at htokens
      obtain ⟨rfl, rfl, hrest⟩ := htokens
      obtain ⟨y, hy⟩ := ih hrest
      exact ⟨y, .step hread hzero hy⟩

/-- Only a finite double is reduced to a finite one. -/
theorem isFinite (h : Reduces x tokens z) (hz : z.isFinite = true) : x.isFinite = true := by
  induction h with
  | nil x => exact hz
  | step _ _ _ ih =>
    by_contra hx
    have hstep := ih hz
    rw [FactorOp.isFinite_eval_of_left (Bool.eq_false_iff.2 hx)] at hstep
    cases hstep

/-- Steps from a double that is not negative lead to one that is not. -/
theorem nonNegative (h : Reduces x tokens z) (hx : x.NonNegative) : z.NonNegative := by
  induction h with
  | nil x => exact hx
  | step hread _ _ ih => exact ih (FactorOp.nonNegative_eval hx (nonNegative_of_readFactor hread) _)

end Reduces

/-- What the first tokens come to is what the others go on from. -/
theorem reduces_of_reduce_append (h : reduce before = .ok y)
    (hall : reduce (before ++ after) = .ok z) : Reduces y after z := by
  obtain ⟨factor, rest, x, rfl, hread, hrest⟩ := reduce_eq_ok_iff.1 h
  obtain ⟨factor', rest', x', htokens, hread', hrest'⟩ := reduce_eq_ok_iff.1 hall
  obtain ⟨⟨⟩, rfl⟩ := List.cons.inj htokens
  obtain rfl := Except.ok.inj (hread.symm.trans hread')
  exact hrest.of_append hrest'

/-- A term goes on from the value of its beginning. -/
theorem reduce_append (h : reduce before = .ok y) (hafter : Reduces y after z) :
    reduce (before ++ after) = .ok z := by
  obtain ⟨factor, rest, x, rfl, hread, hrest⟩ := reduce_eq_ok_iff.1 h
  exact reduce_eq_ok_iff.2 ⟨factor, rest ++ after, x, rfl, hread, hrest.append hafter⟩

/-- What stands before an operator comes to something. -/
theorem exists_reduce_before_op (h : reduce (before ++ .op o :: after) = .ok z) :
    ∃ y, reduce before = .ok y := by
  obtain ⟨factor, rest, x, htokens, hread, hrest⟩ := reduce_eq_ok_iff.1 h
  cases before with
  | nil => cases htokens
  | cons token before =>
    obtain ⟨rfl, rfl⟩ := List.cons.inj htokens
    obtain ⟨y, hy⟩ := hrest.exists_before_op
    exact ⟨y, reduce_eq_ok_iff.2 ⟨factor, before, x, rfl, hread, hy⟩⟩

theorem nonNegative_of_reduce (h : reduce tokens = .ok z) : z.NonNegative := by
  obtain ⟨factor, rest, x, rfl, hread, hrest⟩ := reduce_eq_ok_iff.1 h
  exact hrest.nonNegative (nonNegative_of_readFactor hread)

/-- Nothing that a finite term comes through overflows. -/
theorem isFinite_of_isPartialProduct (hvalue : value term = .ok z) (hz : z.isFinite = true)
    (hx : IsPartialProduct term x) : x.isFinite = true := by
  obtain ⟨before, ⟨after, htokens⟩, hbefore⟩ := hx
  rw [value, ← htokens] at hvalue
  exact (reduces_of_reduce_append hbefore hvalue).isFinite hz

/-- No factor of a finite term overflows, unless it is a divisor. -/
theorem isFinite_of_isMultiplicand (hvalue : value term = .ok z) (hz : z.isFinite = true)
    (hx : IsMultiplicand term x) : x.isFinite = true := by
  obtain ⟨before, factor, after, htokens, hdivide, hread⟩ := hx
  have hcanonical := Token.canonical_split (σ := FactorOp) term
  rw [value, htokens] at hvalue
  rw [htokens] at hcanonical
  rcases List.eq_nil_or_concat' before with rfl | ⟨init, token, rfl⟩
  · -- the first factor is the first product
    have hfirst : reduce [.piece factor] = .ok x := reduce_of_ok hread
    exact (reduces_of_reduce_append hfirst hvalue).isFinite hz
  cases token with
  | piece other =>
    -- no two factors stand side by side
    obtain ⟨_, _, hseam⟩ := Token.canonical_append_iff.1 hcanonical
    exact (hseam (.piece other) (by simp) _ rfl).elim
  | op o =>
    cases o with
    | divide => simp at hdivide
    | times =>
      rw [List.append_assoc] at hvalue
      obtain ⟨w, hw⟩ := exists_reduce_before_op hvalue
      cases reduces_of_reduce_append hw hvalue with
      | step hread' _ hrest =>
        obtain rfl := Except.ok.inj (hread.symm.trans hread')
        by_contra hx
        have hproduct := hrest.isFinite hz
        rw [show FactorOp.times.eval w x = w * x from rfl,
          Binary64.isFinite_mul_of_right w (Bool.eq_false_iff.2 hx)] at hproduct
        cases hproduct

/-- A finite number over a divisor that overflows is zero. -/
theorem reduce_append_infinite_divisor (hbefore : reduce before = .ok x) (hx : x.isFinite = true)
    (hread : readFactor factor = .ok y) (hy : y.isFinite = false) :
    y = .infinity false ∧
      reduce (before ++ [.op .divide, .piece factor]) = .ok Binary64.zero := by
  obtain ⟨m, rfl⟩ := (nonNegative_of_reduce hbefore).exists_finite hx
  obtain ⟨size, rfl⟩ := exists_round_of_readFactor hread
  rw [Binary64.round_eq_infinity hy] at hread ⊢
  exact ⟨rfl, reduce_append hbefore (.step hread (fun _ => rfl) (.nil _))⟩

end Term

/-! ## Sums -/

section Sums

variable {text term : Text} {sum last : RunningSum} {tokens : List (Token Sign)} {x : Binary64}

/-- A total that ends finite was finite all along. -/
theorem RunningSum.isFinite_of_foldlM (h : tokens.foldlM next sum = .ok last)
    (hlast : last.total.isFinite = true) : sum.total.isFinite = true := by
  by_contra hsum
  rw [isFinite_total_of_foldlM h (Bool.eq_false_iff.2 hsum)] at hlast
  cases hlast

/-- A term that is added to a finite sum is finite. -/
theorem RunningSum.exists_value_of_foldlM (h : tokens.foldlM next sum = .ok last)
    (hlast : last.total.isFinite = true) (hterm : .piece term ∈ tokens) :
    ∃ x, Term.value term = .ok x ∧ x.isFinite = true := by
  obtain ⟨before, after, rfl⟩ := List.append_of_mem hterm
  rw [List.foldlM_append] at h
  obtain ⟨mid, -, h⟩ := bind_eq_ok_iff.1 h
  rw [List.foldlM_cons] at h
  obtain ⟨added, hadded, hafter⟩ := bind_eq_ok_iff.1 h
  have hfinite := isFinite_of_foldlM hafter hlast
  rcases next_cases hadded with ⟨sign, hsign, -⟩ | ⟨other, x, hother, hx, rfl⟩
  · cases hsign
  obtain rfl := Token.piece.inj hother
  refine ⟨x, hx, ?_⟩
  by_contra hne
  rw [Sign.isFinite_eval_of_right _ _ (Bool.eq_false_iff.2 hne)] at hfinite
  cases hfinite

/-- No sum of terms is negative zero. -/
theorem IsPartialSum.ne_negZero (h : IsPartialSum text x) : x ≠ .finite true .zero := by
  obtain ⟨before, sum, -, hsum, rfl⟩ := h
  refine RunningSum.foldlM_invariant (P := fun sum => sum.total ≠ .finite true .zero) ?_ hsum ?_
  · intro sum token last hsum hnext
    rcases RunningSum.next_cases hnext with ⟨sign, -, rfl⟩ | ⟨term, x, -, -, rfl⟩
    · exact hsum
    · exact Sign.eval_ne_negZero hsum _ _
  · exact nofun

/-- Nothing that an evaluation to a finite sum comes through overflows. -/
theorem Intermediate.isFinite (hx : Intermediate text x)
    (h : (Token.split text).foldlM RunningSum.next {} = .ok last)
    (hlast : last.total.isFinite = true) : x.isFinite = true := by
  cases hx with
  | literal hterm hx =>
    obtain ⟨z, hvalue, hz⟩ := RunningSum.exists_value_of_foldlM h hlast hterm
    exact Term.isFinite_of_isMultiplicand hvalue hz hx
  | product hterm hx =>
    obtain ⟨z, hvalue, hz⟩ := RunningSum.exists_value_of_foldlM h hlast hterm
    exact Term.isFinite_of_isPartialProduct hvalue hz hx
  | sum hx =>
    obtain ⟨before, sum, ⟨after, htokens⟩, hsum, rfl⟩ := hx
    rw [← htokens, List.foldlM_append, hsum] at h
    exact RunningSum.isFinite_of_foldlM h hlast

/-- A run over tokens comes to its end if no term is faulty. -/
theorem RunningSum.exists_foldlM (h : ∀ term, .piece term ∈ tokens → ∃ x, Term.value term = .ok x)
    (sum : RunningSum) : ∃ last, tokens.foldlM next sum = .ok last := by
  induction tokens generalizing sum with
  | nil => exact ⟨sum, rfl⟩
  | cons token tokens ih =>
    have hrest := ih fun term hterm => h term (List.mem_cons_of_mem _ hterm)
    cases token with
    | op sign =>
      rw [List.foldlM_cons, next_op]
      exact hrest _
    | piece term =>
      obtain ⟨x, hx⟩ := h term (List.mem_cons_self ..)
      rw [List.foldlM_cons, next_piece_of_ok hx]
      exact hrest _

/-- An expression whose terms all have a value is refused for overflow if its sum is not finite, and
for nothing else. -/
theorem valueOf_eq_overflow_iff (htext : ∀ c ∈ text, InAlphabet c)
    (hterm : IsTerm text term)
    (h : (Token.split text).foldlM RunningSum.next {} = .ok last) :
    valueOf text = .error .overflow ↔ last.total.isFinite = false := by
  have hne : text ≠ [] := by
    rintro rfl
    cases hterm
  have hlast := RunningSum.hasTerm_of_foldlM h hterm
  rw [valueOf, alphabetError?_eq_none hne htext]
  show sumOf (Token.split text) = _ ↔ _
  rw [sumOf, h]
  show last.result = _ ↔ _
  rw [RunningSum.result, hlast]
  cases last.total.isFinite <;> simp

/-! ## Expressions -/

/-- Nothing on the way through an evaluation overflows, divisors left out, and no zero on the way has
a sign. -/
structure StaysFinite (text : Text) : Prop where
  /-- A factor that is not a divisor is finite. -/
  multiplicand : ∀ term x, IsTerm text term → Term.IsMultiplicand term x → x.isFinite = true
  /-- A divisor may overflow, and then the quotient is zero. -/
  divisor : ∀ term before factor x y, IsTerm text term →
    before ++ [.op .divide, .piece factor] <+: Token.split term → Term.reduce before = .ok x →
    readFactor factor = .ok y → y.isFinite = false →
    y = .infinity false ∧
      Term.reduce (before ++ [.op .divide, .piece factor]) = .ok Binary64.zero
  /-- A product or quotient is finite and has no sign. -/
  partialProduct : ∀ term x, IsTerm text term → Term.IsPartialProduct term x →
    ∃ m, x = .finite false m
  /-- A term is finite and has no sign. -/
  term : ∀ term, IsTerm text term → ∃ m, Term.value term = .ok (.finite false m)
  /-- A sum is finite and not negative zero. -/
  partialSum : ∀ x, IsPartialSum text x → x.isFinite = true ∧ x ≠ .finite true .zero

/-- If the sum ends finite, so is every double on the way. -/
theorem staysFinite_of_foldlM (h : (Token.split text).foldlM RunningSum.next {} = .ok last)
    (hlast : last.total.isFinite = true) : StaysFinite text where
  multiplicand term x hterm hx := (Intermediate.literal hterm hx).isFinite h hlast
  divisor term before factor x y hterm hprefix hbefore hread hy := by
    -- the tokens before the divisor are a prefix too, so what they come to is finite
    have hx : Term.IsPartialProduct term x := ⟨before, (List.prefix_append ..).trans hprefix, hbefore⟩
    exact Term.reduce_append_infinite_divisor hbefore
      ((Intermediate.product hterm hx).isFinite h hlast) hread hy
  partialProduct term x hterm hx := by
    obtain ⟨before, -, hbefore⟩ := id hx
    exact (Term.nonNegative_of_reduce hbefore).exists_finite
      ((Intermediate.product hterm hx).isFinite h hlast)
  term term hterm := by
    obtain ⟨x, hvalue, hx⟩ := RunningSum.exists_value_of_foldlM h hlast hterm
    obtain ⟨m, rfl⟩ := (Term.nonNegative_of_reduce hvalue).exists_finite hx
    exact ⟨m, hvalue⟩
  partialSum x hx := ⟨(Intermediate.sum hx).isFinite h hlast, hx.ne_negZero⟩

/-- The value of an expression is finite and not negative zero, and nothing that its evaluation comes
through overflows, divisors left out. An expression whose terms all have a value is refused for
overflow exactly if something on the way overflows. -/
theorem overflow_not_hidden (text : Text) :
    (∀ x, (evaluate text).value = .ok x →
        x.isFinite = true ∧ x ≠ .finite true .zero ∧ StaysFinite text) ∧
      ((∀ c ∈ text, InAlphabet c) → (∃ term, IsTerm text term) →
        (∀ term, IsTerm text term → ∃ x, Term.value term = .ok x) →
          ((evaluate text).value = .error .overflow ↔
            ∃ x, Intermediate text x ∧ x.isFinite = false)) := by
  rw [value_evaluate]
  constructor
  · intro x hvalue
    obtain ⟨-, hfinite, sign, pending, hsum⟩ := foldlM_of_valueOf hvalue
    have hlast : IsPartialSum text x := ⟨_, _, List.prefix_rfl, hsum, rfl⟩
    exact ⟨hfinite, hlast.ne_negZero, staysFinite_of_foldlM hsum hfinite⟩
  · rintro htext ⟨term, hterm⟩ hterms
    obtain ⟨last, hlast⟩ := RunningSum.exists_foldlM hterms {}
    rw [valueOf_eq_overflow_iff htext hterm hlast]
    constructor
    · -- the last sum is on the way itself
      intro hoverflow
      exact ⟨last.total, .sum ⟨_, last, List.prefix_rfl, hlast, rfl⟩, hoverflow⟩
    · rintro ⟨x, hx, hoverflow⟩
      by_contra hfinite
      rw [hx.isFinite hlast (by simpa using hfinite)] at hoverflow
      cases hoverflow

/-- A divisor that overflows leaves a quotient of zero, but a product with it is refused. -/
theorem overflow_not_hidden_ten_pow_309 :
    ((evaluate ("1/1".toList ++ List.replicate 309 '0')).value = .ok Binary64.zero ∧
        StaysFinite ("1/1".toList ++ List.replicate 309 '0')) ∧
      (evaluate ("0*1".toList ++ List.replicate 309 '0')).value = .error .overflow := by
  have hquotient : (evaluate ("1/1".toList ++ List.replicate 309 '0')).value =
      .ok Binary64.zero := by
    decide +kernel
  refine ⟨⟨hquotient, ((overflow_not_hidden _).1 _ hquotient).2.2⟩, ?_⟩
  set product : Text := "0*1".toList ++ List.replicate 309 '0'
  have hchars : ∀ c ∈ product, InAlphabet c := inAlphabet_of_all (by decide +kernel)
  have hterms : Token.split (σ := Sign) product = [.piece product] := by decide +kernel
  have hfactors : Token.split (σ := FactorOp) product =
      [.piece ['0'], .op .times] ++ .piece ('1' :: List.replicate 309 '0') :: [] := by
    decide +kernel
  have hvalue : Term.value product = .ok .nan := by decide +kernel
  have hread : readFactor ('1' :: List.replicate 309 '0') = .ok (.infinity false) := by
    decide +kernel
  have hterm : IsTerm product product := by
    rw [IsTerm, hterms]
    exact List.mem_singleton_self _
  refine ((overflow_not_hidden product).2 hchars ⟨_, hterm⟩ fun term h => ?_).2
    ⟨_, .literal hterm ⟨_, _, _, hfactors, by decide, hread⟩, rfl⟩
  rw [IsTerm, hterms, List.mem_singleton, Token.piece.injEq] at h
  exact ⟨_, h ▸ hvalue⟩

end Sums

end FourFunction
