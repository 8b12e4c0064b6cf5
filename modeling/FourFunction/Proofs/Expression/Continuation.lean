import FourFunction.Proofs.Binary64.Overflow
import FourFunction.Proofs.Expression.Value

/-!
# Going on behind a sign

A sign separates what stands before it from what comes after, so an expression that goes on behind
a sign is added up from the sum that was reached there. If the part before the sign has a value of
its own, the sum is that value and nothing else of the part matters. If it has none, neither has the
whole expression: a faulty term comes first, and a sum that is not finite never becomes finite.

## Main results

* `valueOf_append_sign`: behind a part that has a value, the rest is added to that value;
* `valueOf_append_sign_of_error`: behind a part that is refused, the rest is refused too.
-/

namespace FourFunction

/-! ## Runs over tokens -/

/-- A computation in two parts succeeds if both do, one after the other. -/
theorem bind_eq_ok_iff {α β : Type} {e : Except EvalError α} {f : α → Except EvalError β} {b : β} :
    e >>= f = .ok b ↔ ∃ a, e = .ok a ∧ f a = .ok b := by
  cases e with
  | error err => exact ⟨nofun, nofun⟩
  | ok a => exact ⟨fun h => ⟨a, rfl, h⟩, by rintro ⟨_, ⟨⟩, h⟩; exact h⟩

namespace RunningSum

variable {sum last : RunningSum} {token : Token Sign} {tokens : List (Token Sign)} {term : Text}

/-- What a token does to a sum: a sign is kept for the next term, a term is added with the sign that
was kept. -/
theorem next_cases (h : sum.next token = .ok last) :
    (∃ sign, token = .op sign ∧ last = sum.readSign sign) ∨
      ∃ term x, token = .piece term ∧ Term.value term = .ok x ∧ last =
        { sum with total := sum.sign.eval sum.total x, pending := none, hasTerm := true } := by
  cases token with
  | op sign => exact Or.inl ⟨sign, rfl, (Except.ok.inj h).symm⟩
  | piece term =>
    obtain ⟨x, hx, hlast⟩ := bind_eq_ok_iff.1 h
    exact Or.inr ⟨term, x, rfl, hx, by rw [← addTerm_eq]; exact (Except.ok.inj hlast).symm⟩

/-- What each token preserves, a run over tokens preserves. -/
theorem foldlM_invariant {P : RunningSum → Prop}
    (hstep : ∀ sum token last, P sum → sum.next token = .ok last → P last)
    (h : tokens.foldlM next sum = .ok last) (hsum : P sum) : P last := by
  induction tokens generalizing sum with
  | nil =>
    obtain rfl := Except.ok.inj h
    exact hsum
  | cons token rest ih =>
    rw [List.foldlM_cons] at h
    obtain ⟨mid, hmid, hrest⟩ := bind_eq_ok_iff.1 h
    exact ih hrest (hstep sum token mid hsum hmid)

/-- A sum that is not finite stays so. -/
theorem isFinite_total_of_foldlM (h : tokens.foldlM next sum = .ok last)
    (hsum : sum.total.isFinite = false) : last.total.isFinite = false := by
  refine foldlM_invariant (P := fun sum => sum.total.isFinite = false) ?_ h hsum
  intro sum token last hsum hnext
  rcases next_cases hnext with ⟨sign, -, rfl⟩ | ⟨term, x, -, -, rfl⟩
  · exact hsum
  · exact Sign.isFinite_eval_of_left hsum _ _

/-- A run over a term leaves a sum with a term. -/
theorem hasTerm_of_foldlM (h : tokens.foldlM next sum = .ok last) (hterm : .piece term ∈ tokens) :
    last.hasTerm = true := by
  obtain ⟨before, after, rfl⟩ := List.append_of_mem hterm
  rw [List.foldlM_append] at h
  obtain ⟨mid, -, hafter⟩ := bind_eq_ok_iff.1 h
  rw [List.foldlM_cons] at hafter
  obtain ⟨added, hadded, hrest⟩ := bind_eq_ok_iff.1 hafter
  refine foldlM_invariant (P := fun sum => sum.hasTerm = true) ?_ hrest ?_
  · intro sum token last hsum hnext
    rcases next_cases hnext with ⟨sign, -, rfl⟩ | ⟨term, x, -, -, rfl⟩
    · exact hsum
    · rfl
  · rcases next_cases hadded with ⟨sign, hsign, -⟩ | ⟨term, x, -, -, rfl⟩
    · cases hsign
    · rfl

/-- A sum that has a value has a term, and is that value. -/
theorem eq_of_result {x : Binary64} (h : sum.result = .ok x) :
    sum = ⟨x, sum.sign, sum.pending, true⟩ := by
  obtain ⟨total, sign, pending, hasTerm⟩ := sum
  grind [result]

/-- A sum with a term is refused for overflow only. -/
theorem overflow_of_result {err : EvalError} (hterm : sum.hasTerm = true)
    (h : sum.result = .error err) : err = .overflow ∧ sum.total.isFinite = false := by
  grind [result]

/-- The value that a sum comes to with some more tokens. -/
def valueAfter (sum : RunningSum) (tokens : List (Token Sign)) : Except EvalError Binary64 := do
  let last ← tokens.foldlM next sum
  last.result

/-- Only a finite sum can come to a value. -/
theorem exists_valueAfter_eq_error (hsum : sum.total.isFinite = false)
    (tokens : List (Token Sign)) : ∃ err, sum.valueAfter tokens = .error err := by
  cases hvalue : sum.valueAfter tokens with
  | error err => exact ⟨err, rfl⟩
  | ok x =>
    obtain ⟨last, hlast, hresult⟩ := bind_eq_ok_iff.1 hvalue
    have hfinite := isFinite_total_of_foldlM hlast hsum
    rw [eq_of_result hresult, isFinite_of_result hresult] at hfinite
    cases hfinite

end RunningSum

/-! ## Texts that go on behind a sign -/

section Continuation

variable {text rest : Text} {x : Binary64} {err : EvalError}

theorem inAlphabet_of_alphabetError? (h : alphabetError? text = none) :
    ∀ c ∈ text, InAlphabet c := by
  rcases inAlphabet_or_exists_first text with hchars | ⟨before, c, after, rfl, hbefore, hc⟩
  · exact hchars
  · rw [alphabetError?_eq_unexpectedChar hbefore hc] at h
    cases h

/-- What stands before a sign is added up first, and the rest with that sign after it. -/
theorem valueOf_append (htext : ∀ c ∈ text, InAlphabet c) (hrest : ∀ c ∈ rest, InAlphabet c)
    (sign : Sign) : valueOf (text ++ sign.symbol :: rest) =
      (Token.split text).foldlM RunningSum.next {} >>= fun sum =>
        (sum.readSign sign).valueAfter (Token.split rest) := by
  have hne : text ++ sign.symbol :: rest ≠ [] :=
    List.append_ne_nil_of_right_ne_nil _ (List.cons_ne_nil _ _)
  have hchars : ∀ c ∈ text ++ sign.symbol :: rest, InAlphabet c := by
    intro c hc
    rcases List.mem_append.1 hc with hc | hc
    · exact htext c hc
    · rcases List.mem_cons.1 hc with rfl | hc
      · exact Or.inr ⟨sign, rfl⟩
      · exact hrest c hc
  have hsplit : Token.split (text ++ sign.symbol :: rest) =
      Token.split text ++ .op sign :: Token.split rest := Token.split_append_symbol text rest sign
  rw [valueOf, alphabetError?_eq_none hne hchars, hsplit]
  show sumOf _ = _
  rw [sumOf, List.foldlM_append]
  cases (Token.split text).foldlM RunningSum.next {} with
  | error err => rfl
  | ok sum => rfl

/-- A text that has a value is in the alphabet, and the run over its tokens comes to that value. -/
theorem foldlM_of_valueOf (h : valueOf text = .ok x) :
    (∀ c ∈ text, InAlphabet c) ∧ x.isFinite = true ∧
      ∃ sign pending,
        (Token.split text).foldlM RunningSum.next {} = .ok ⟨x, sign, pending, true⟩ := by
  unfold valueOf at h
  split at h
  · cases h
  · next hnone =>
    obtain ⟨sum, hsum, hresult⟩ := bind_eq_ok_iff.1 h
    rw [RunningSum.eq_of_result hresult] at hsum
    exact ⟨inAlphabet_of_alphabetError? hnone, RunningSum.isFinite_of_result hresult, sum.sign,
      sum.pending, hsum⟩

/-- Behind a part that has a value, the rest is added to that value. -/
theorem valueOf_append_sign (h : valueOf text = .ok x) (hrest : ∀ c ∈ rest, InAlphabet c)
    (sign : Sign) : valueOf (text ++ sign.symbol :: rest) =
      RunningSum.valueAfter ⟨x, sign, some sign, true⟩ (Token.split rest) := by
  obtain ⟨htext, -, last, pending, hsum⟩ := foldlM_of_valueOf h
  rw [valueOf_append htext hrest, hsum]
  rfl

/-- A part that is refused and does not consist of signs alone is refused with any rest behind it,
and for the same reason unless that is the overflow of its own sum. -/
theorem valueOf_append_sign_of_error (htext : ∀ c ∈ text, InAlphabet c)
    (hterm : ∃ c ∈ text, Sign.ofChar? c = none) (h : valueOf text = .error err)
    (hrest : ∀ c ∈ rest, InAlphabet c) (sign : Sign) :
    ∃ err', valueOf (text ++ sign.symbol :: rest) = .error err' ∧
      (err ≠ .overflow → err' = err) := by
  obtain ⟨c, hc, hnone⟩ := hterm
  have hsum : sumOf (Token.split text) = .error err := by
    rw [valueOf, alphabetError?_eq_none (List.ne_nil_of_mem hc) htext] at h
    exact h
  rw [valueOf_append htext hrest]
  rw [sumOf] at hsum
  cases hfold : (Token.split text).foldlM RunningSum.next {} with
  | error err' =>
    -- a term of the part is faulty, and the run ends there
    rw [hfold] at hsum
    obtain rfl := Except.error.inj hsum
    exact ⟨err', rfl, fun _ => rfl⟩
  | ok sum =>
    -- all its terms are added up, so the sum is not finite
    rw [hfold] at hsum
    obtain ⟨term, hterm⟩ := Token.exists_piece_mem_split (σ := Sign) hc hnone
    obtain ⟨rfl, hfinite⟩ :=
      RunningSum.overflow_of_result (RunningSum.hasTerm_of_foldlM hfold hterm) hsum
    have hsign : (sum.readSign sign).total.isFinite = false := hfinite
    obtain ⟨err', herr⟩ := RunningSum.exists_valueAfter_eq_error hsign (Token.split rest)
    exact ⟨err', herr, fun hne => absurd rfl hne⟩

end Continuation

end FourFunction
