import FourFunction.Proofs.Expression.Continuation

/-!
# Runs of signs

A sign does nothing to a sum but to take the place of the sign that was read before it. So wherever
signs stand in a row, in an expression that has a value or in one that is refused, all of them but
the last can be left out. At the end of an expression with a term the last one can be left out too,
and at the beginning it is the same as a sign behind a zero.

## Main results

* `valueOf_append_signs`: of signs in a row the last one counts;
* `valueOf_append_trailing_sign`: a sign at the end counts for nothing;
* `valueOf_leading_sign`: a sign at the beginning adds to zero, or takes from it;
* `evaluate_normalize_signs`: signs in a row, at the end and at the beginning.
-/

namespace FourFunction

/-! ## Signs and the running sum -/

namespace RunningSum

variable {sum : RunningSum} {tokens : List (Token Sign)} {term : Text}

/-- Of signs in a row the last one is kept. -/
theorem valueAfter_signs (signs : List Sign) (last : Sign) :
    sum.valueAfter (signs.map Token.op ++ .op last :: tokens) =
      (sum.readSign last).valueAfter tokens := by
  rw [valueAfter, foldlM_map_op_append]
  rfl

/-- The sign that is kept behind the last term is not used. -/
theorem result_readSign (hterm : sum.hasTerm = true) (sign : Sign) :
    (sum.readSign sign).result = sum.result := by
  grind [result, readSign]

/-- Before a term it makes no difference whether there was a term already. -/
theorem valueAfter_with_hasTerm (hterm : .piece term ∈ tokens) (hasTerm : Bool) :
    { sum with hasTerm : RunningSum }.valueAfter tokens = sum.valueAfter tokens := by
  induction tokens generalizing sum with
  | nil => cases hterm
  | cons token rest ih =>
    rw [valueAfter, valueAfter, List.foldlM_cons, List.foldlM_cons]
    cases token with
    | op sign => exact @ih (sum.readSign sign) ((List.mem_cons.1 hterm).resolve_left nofun)
    | piece other =>
      -- the term is added to the same total, with the same sign
      cases hvalue : Term.value other with
      | error err => rw [next_piece_of_error hvalue, next_piece_of_error hvalue]
      | ok x => rw [next_piece_of_ok hvalue, next_piece_of_ok hvalue, addTerm_eq, addTerm_eq]

/-- The first token settles whether a sign is pending, so before it that makes no difference. -/
theorem valueAfter_with_pending (hne : tokens ≠ []) (pending : Option Sign) :
    { sum with pending : RunningSum }.valueAfter tokens = sum.valueAfter tokens := by
  obtain ⟨token, rest, rfl⟩ := List.exists_cons_of_ne_nil hne
  rw [valueAfter, valueAfter, List.foldlM_cons, List.foldlM_cons]
  cases token with
  | op sign => rfl
  | piece term =>
    cases hvalue : Term.value term with
    | error err => rw [next_piece_of_error hvalue, next_piece_of_error hvalue]
    | ok x => rw [next_piece_of_ok hvalue, next_piece_of_ok hvalue, addTerm_eq, addTerm_eq]

end RunningSum

/-! ## Signs in a text -/

section Signs

variable {text rest : Text}

theorem inAlphabet_signs_append (signs : List Sign) (hrest : ∀ c ∈ rest, InAlphabet c) :
    ∀ c ∈ signs.map Sign.symbol ++ rest, InAlphabet c := by
  intro c hc
  rcases List.mem_append.1 hc with hc | hc
  · obtain ⟨sign, -, rfl⟩ := List.mem_map.1 hc
    exact Or.inr ⟨sign, rfl⟩
  · exact hrest c hc

theorem split_sign_cons (sign : Sign) (rest : Text) :
    Token.split (sign.symbol :: rest) = .op sign :: Token.split rest :=
  Token.prepend_symbol sign _

theorem split_signs_append (signs : List Sign) (rest : Text) :
    Token.split (signs.map Sign.symbol ++ rest) = signs.map Token.op ++ Token.split rest := by
  induction signs with
  | nil => rfl
  | cons sign signs ih => rw [List.map_cons, List.cons_append, split_sign_cons, ih]; rfl

/-- A text in the alphabet is added up from nothing. -/
theorem valueOf_eq_valueAfter (hne : text ≠ []) (htext : ∀ c ∈ text, InAlphabet c) :
    valueOf text = RunningSum.valueAfter {} (Token.split text) := by
  rw [valueOf, alphabetError?_eq_none hne htext]
  rfl

/-- Of signs in a row the last one counts, whatever stands on either side of them. -/
theorem valueOf_append_signs (htext : ∀ c ∈ text, InAlphabet c) (hrest : ∀ c ∈ rest, InAlphabet c)
    (signs : List Sign) (last : Sign) :
    valueOf (text ++ (signs.map Sign.symbol ++ last.symbol :: rest)) =
      valueOf (text ++ last.symbol :: rest) := by
  cases signs with
  | nil => rfl
  | cons sign signs =>
    have hlast : ∀ c ∈ last.symbol :: rest, InAlphabet c := inAlphabet_signs_append [last] hrest
    rw [List.map_cons, List.cons_append,
      valueOf_append htext (inAlphabet_signs_append signs hlast), valueOf_append htext hrest]
    -- the run up to the signs is the same, and behind them only the last one is left
    refine bind_congr fun sum => ?_
    rw [split_signs_append, split_sign_cons]
    exact RunningSum.valueAfter_signs signs last

/-- Behind a term a sign at the end counts for nothing. -/
theorem valueOf_append_trailing_sign (htext : ∀ c ∈ text, InAlphabet c)
    (hterm : ∃ c ∈ text, Sign.ofChar? c = none) (sign : Sign) :
    valueOf (text ++ [sign.symbol]) = valueOf text := by
  obtain ⟨c, hc, hnone⟩ := hterm
  obtain ⟨term, hterm⟩ := Token.exists_piece_mem_split (σ := Sign) hc hnone
  rw [valueOf_append htext (List.forall_mem_nil _),
    valueOf_eq_valueAfter (List.ne_nil_of_mem hc) htext, RunningSum.valueAfter]
  cases hfold : (Token.split text).foldlM RunningSum.next {} with
  | error err => rfl
  | ok sum => exact RunningSum.result_readSign (RunningSum.hasTerm_of_foldlM hfold hterm) sign

/-- A sign at the beginning is kept for the first term. -/
theorem valueOf_sign_cons (htext : ∀ c ∈ text, InAlphabet c) (sign : Sign) :
    valueOf (sign.symbol :: text) = (RunningSum.readSign {} sign).valueAfter (Token.split text) :=
  valueOf_append (List.forall_mem_nil _) htext sign

/-- In front of a term a sign at the beginning is the same as one behind a zero. -/
theorem valueOf_leading_sign (htext : ∀ c ∈ text, InAlphabet c)
    (hterm : ∃ c ∈ text, Sign.ofChar? c = none) (sign : Sign) :
    valueOf (sign.symbol :: text) = valueOf ('0' :: sign.symbol :: text) := by
  obtain ⟨c, hc, hnone⟩ := hterm
  obtain ⟨term, hterm⟩ := Token.exists_piece_mem_split (σ := Sign) hc hnone
  have hzero : valueOf ['0'] = .ok .zero := by decide +kernel
  calc valueOf (sign.symbol :: text)
      = RunningSum.valueAfter ⟨.zero, sign, some sign, false⟩ (Token.split text) :=
        valueOf_sign_cons htext sign
    _ = RunningSum.valueAfter ⟨.zero, sign, some sign, true⟩ (Token.split text) :=
        (RunningSum.valueAfter_with_hasTerm hterm true).symm
    _ = valueOf ('0' :: sign.symbol :: text) := (valueOf_append_sign hzero htext sign).symm

/-- In any text over the alphabet, with a value or without, a sign in front of another one can be
left out. If there is more than signs, a sign at the end can be left out too, and one at the
beginning can be put behind a zero. A plus sign at the beginning can be left out of any text. -/
theorem evaluate_normalize_signs (htext : ∀ c ∈ text, InAlphabet c)
    (hrest : ∀ c ∈ rest, InAlphabet c) (first last : Sign) :
    (evaluate (text ++ first.symbol :: last.symbol :: rest)).value =
        (evaluate (text ++ last.symbol :: rest)).value ∧
      ((∃ c ∈ text, Sign.ofChar? c = none) →
        (evaluate (text ++ [first.symbol])).value = (evaluate text).value ∧
          (evaluate (first.symbol :: text)).value =
            (evaluate ('0' :: first.symbol :: text)).value) ∧
      (text ≠ [] → (evaluate ('+' :: text)).value = (evaluate text).value) := by
  simp only [value_evaluate]
  refine ⟨valueOf_append_signs htext hrest [first] last, fun hterm => ⟨?_, ?_⟩, fun hne => ?_⟩
  · exact valueOf_append_trailing_sign htext hterm first
  · exact valueOf_leading_sign htext hterm first
  · rw [valueOf_eq_valueAfter hne htext]
    exact (valueOf_sign_cons htext .plus).trans
      (RunningSum.valueAfter_with_pending (Token.split_ne_nil hne) (some .plus))

/-- Between a product that misses a factor and a division that misses one, the first product is
refused whichever sign is left out. -/
theorem evaluate_normalize_signs_between_faults :
    (evaluate "2*+-/3".toList).value = (evaluate "2*-/3".toList).value ∧
      (evaluate "2*+".toList).value = (evaluate "2*".toList).value ∧
      (evaluate "+2*".toList).value = (evaluate "0+2*".toList).value ∧
      (evaluate "+2*".toList).value = (evaluate "2*".toList).value := by
  obtain ⟨hrun, hterm, hplus⟩ := @evaluate_normalize_signs "2*".toList "/3".toList
    (inAlphabet_of_all (by decide)) (inAlphabet_of_all (by decide)) .plus .minus
  obtain ⟨htrailing, hleading⟩ := hterm ⟨'2', by decide, by decide⟩
  exact ⟨hrun, htrailing, hleading, hplus (by decide)⟩

end Signs

end FourFunction
