import FourFunction.Expression.Evaluate
import FourFunction.Proofs.Expression.Refusal

/-!
# The value of an expression and the reason why it has none

The evaluator adds up a sum term by term as `Sum.value` says, and stops at a faulty term with the
error of its leftmost fault. Together with the syntax alone, `sum_or_refused`, this settles every
text.

## Main results

* `evaluate_eq_ok_iff`: the expressions that have a value, and which value;
* `evaluate_eq_error_iff`: the expressions that are refused, and for which reason.
-/

namespace FourFunction

namespace RunningSum

variable {sum : RunningSum} {before after : List (Token Sign)} {term : Text} {err : EvalError}

/-- A term is added with the sign that was kept for it, which is then taken. -/
theorem addTerm_eq (sum : RunningSum) (x : Binary64) :
    sum.addTerm x =
      { sum with total := sum.sign.eval sum.total x, pending := none, hasTerm := true } := by
  obtain ⟨total, sign, pending, hasTerm⟩ := sum
  cases sign <;> rfl

theorem next_piece_of_ok {x : Binary64} (h : Term.value term = .ok x) :
    sum.next (.piece term) = .ok (sum.addTerm x) := by
  rw [next, h]
  rfl

theorem next_piece_of_error (h : Term.value term = .error err) :
    sum.next (.piece term) = .error err := by
  rw [next, h]
  rfl

/-- Of a run of signs the last one is kept. -/
theorem foldlM_map_op (signs : List Sign) (sum : RunningSum) :
    (signs.map Token.op).foldlM next sum = .ok (signs.getLast?.elim sum sum.readSign) := by
  -- each sign replaces the one read before it
  induction signs generalizing sum with
  | nil => rfl
  | cons sign signs ih =>
    rw [List.map_cons, List.foldlM_cons, next_op, List.getLast?_cons]
    refine (ih _).trans ?_
    cases signs.getLast? <;> rfl

/-- A sign after a run of signs is the one that is kept. -/
theorem foldlM_map_op_append (signs : List Sign) (last : Sign) (tokens : List (Token Sign))
    (sum : RunningSum) :
    (signs.map Token.op ++ .op last :: tokens).foldlM next sum =
      tokens.foldlM next (sum.readSign last) := by
  rw [List.foldlM_append, foldlM_map_op]
  show (Token.op last :: tokens).foldlM next _ = _
  rw [List.foldlM_cons, next_op]
  cases signs.getLast? <;> rfl

/-- A term is added with the last sign in front of it. -/
theorem foldlM_tokens (t : SignedTerm) (h : Product.NoZeroDivisor t.term.rest) (sum : RunningSum) :
    t.tokens.foldlM next sum =
      .ok { total := t.sign.eval sum.total t.term.value, sign := t.sign, hasTerm := true } := by
  rw [SignedTerm.tokens, foldlM_map_op_append, List.foldlM_cons,
    next_piece_of_ok (Term.value_text t.term h), addTerm_eq]
  rfl

/-- Terms are added from left to right. -/
theorem foldlM_rest {rest : List SignedTerm}
    (h : ∀ t ∈ rest, Product.NoZeroDivisor t.term.rest) (total : Binary64) (sign : Sign) :
    ∃ sign', (rest.flatMap SignedTerm.tokens).foldlM next ⟨total, sign, none, true⟩ =
      .ok ⟨rest.foldl (fun sofar t => t.sign.eval sofar t.term.value) total, sign', none, true⟩ := by
  induction rest generalizing total sign with
  | nil => exact ⟨sign, rfl⟩
  | cons t rest ih =>
    obtain ⟨ht, hrest⟩ := List.forall_mem_cons.1 h
    obtain ⟨sign', hfold⟩ := ih hrest (t.sign.eval total t.term.value) t.sign
    refine ⟨sign', ?_⟩
    rw [List.flatMap_cons, List.foldlM_append, foldlM_tokens t ht]
    exact hfold

/-- The first term is taken with the last of the signs in front of it, or added if there is none. -/
theorem foldlM_first (signs : List Sign) (first : Product) (h : Product.NoZeroDivisor first.rest)
    (tokens : List (Token Sign)) :
    (signs.map Token.op ++ .piece first.text :: tokens).foldlM next {} =
      tokens.foldlM next ⟨(signs.getLast?.getD .plus).eval Binary64.zero first.value,
        signs.getLast?.getD .plus, none, true⟩ := by
  rw [List.foldlM_append, foldlM_map_op]
  show (Token.piece first.text :: tokens).foldlM next _ = _
  rw [List.foldlM_cons, next_piece_of_ok (Term.value_text first h), addTerm_eq]
  cases signs.getLast? <;> rfl

/-- Signs at the end leave the total as it is. -/
theorem exists_foldlM_map_op (signs : List Sign) (sum : RunningSum) :
    ∃ sign pending, (signs.map Token.op).foldlM next sum =
      .ok ⟨sum.total, sign, pending, sum.hasTerm⟩ := by
  rw [foldlM_map_op]
  cases signs.getLast? with
  | none => exact ⟨sum.sign, sum.pending, rfl⟩
  | some last => exact ⟨last, some last, rfl⟩

/-- A sum that divides by no zero is added up to its value. -/
theorem foldlM_sum (s : Sum) (h : s.NoZeroDivisor) :
    ∃ sign pending, s.tokens.foldlM next {} = .ok ⟨s.value, sign, pending, true⟩ := by
  obtain ⟨sign, hrest⟩ := foldlM_rest h.rest
    ((s.lead.getLast?.getD .plus).eval Binary64.zero s.first.value) (s.lead.getLast?.getD .plus)
  obtain ⟨sign', pending, htrailing⟩ :=
    exists_foldlM_map_op s.trailing ⟨s.value, sign, none, true⟩
  refine ⟨sign', pending, ?_⟩
  rw [Sum.tokens, List.append_assoc, List.cons_append, foldlM_first s.lead s.first h.first,
    List.foldlM_append, hrest]
  exact htrailing

/-- What stands before a faulty term is added up. -/
theorem foldlM_beginning (h : Beginning before) : ∃ sum, before.foldlM next {} = .ok sum := by
  cases h with
  | signs signs => exact ⟨_, foldlM_map_op signs {}⟩
  | sum s h =>
    obtain ⟨sign, pending, hsum⟩ := foldlM_sum s h
    exact ⟨_, hsum⟩

end RunningSum

section Values

variable {text : Text} {x : Binary64} {err : EvalError}

/-- A sum that divides by no zero has its value, if that is finite. -/
theorem valueOf_sum (s : Sum) (h : s.NoZeroDivisor) :
    valueOf s.text = if s.value.isFinite then .ok s.value else .error .overflow := by
  have hne : s.text ≠ [] := by
    intro hnil
    have hfirst := (List.append_eq_nil_iff.1 (List.append_eq_nil_iff.1 hnil).1).1
    exact s.first.isPiece.1 (List.append_eq_nil_iff.1 hfirst).2
  obtain ⟨sign, pending, hsum⟩ := RunningSum.foldlM_sum s h
  rw [valueOf, alphabetError?_eq_none hne s.inAlphabet, s.split_text]
  show s.tokens.foldlM RunningSum.next {} >>= _ = _
  rw [hsum]
  rfl

/-- The first faulty term decides the error, whatever comes after it. -/
theorem valueOf_of_fault {before : List (Token Sign)} {term rest : Text}
    (hbefore : Beginning before) (hcanonical : Token.Canonical (before ++ [.piece term]))
    (hterm : ∀ c ∈ term, IsTermChar c) (hfault : TermFault term err)
    (hends : Token.EndsPiece Sign rest) (hrest : ∀ c ∈ rest, InAlphabet c) :
    valueOf (Token.concat before ++ term ++ rest) = .error err := by
  -- the term is a token of its own: a sign or nothing stands on either side of it
  have hsplit : Token.split (Token.concat before ++ term ++ rest) =
      before ++ .piece term :: Token.split rest := by
    have hfront : Token.split (Token.concat before ++ term) = before ++ [.piece term] := by
      refine Token.split_eq_iff.2 ⟨hcanonical, ?_⟩
      rw [Token.concat_append]
      exact congrArg (Token.concat before ++ ·) (List.append_nil term)
    rw [Token.split_append hends, hfront, List.append_assoc, List.singleton_append]
  have hne : Token.concat before ++ term ++ rest ≠ [] :=
    List.append_ne_nil_of_left_ne_nil (List.append_ne_nil_of_right_ne_nil _ hfault.ne_nil) _
  have hchars : ∀ c ∈ Token.concat before ++ term ++ rest, InAlphabet c := by
    intro c hc
    rw [List.mem_append, List.mem_append] at hc
    rcases hc with (hc | hc) | hc
    · exact hbefore.inAlphabet c hc
    · exact Or.inl (hterm c hc)
    · exact hrest c hc
  -- the run gets as far as the faulty term and takes over its error
  obtain ⟨sum, hsum⟩ := RunningSum.foldlM_beginning hbefore
  rw [valueOf, alphabetError?_eq_none hne hchars, hsplit]
  show sumOf _ = _
  rw [sumOf, List.foldlM_append, hsum]
  show List.foldlM RunningSum.next sum _ >>= _ = _
  rw [List.foldlM_cons, RunningSum.next_piece_of_error (Term.value_of_fault hfault)]
  rfl

/-- Signs alone miss a term, and the last of them is named. -/
theorem valueOf_signs (signs : List Sign) (last : Sign) :
    valueOf (signs.map Sign.symbol ++ [last.symbol]) = .error (.missingOperand (.sign last)) := by
  have htext : signs.map Sign.symbol ++ [last.symbol] =
      Token.concat ((signs ++ [last]).map Token.op) := by
    rw [concat_map_op, List.map_append]
    rfl
  have hcanonical : Token.Canonical ((signs ++ [last]).map Token.op) := by
    rw [← List.append_nil (List.map _ _)]
    exact Token.canonical_map_op_append_iff.2 Token.canonical_nil
  have hchars := Beginning.inAlphabet (.signs (signs ++ [last]))
  have hne : Token.concat ((signs ++ [last]).map Token.op) ≠ [] := by
    rw [← htext]
    exact List.append_ne_nil_of_right_ne_nil _ (List.cons_ne_nil _ _)
  rw [htext, valueOf, alphabetError?_eq_none hne hchars, Token.split_concat hcanonical]
  show sumOf _ = _
  rw [sumOf, RunningSum.foldlM_map_op, List.getLast?_concat]
  rfl

/-- The reason for which a text is refused is the error of its evaluation. -/
theorem valueOf_of_refused (h : Refused text err) : valueOf text = .error err := by
  cases h with
  | empty => rfl
  | unexpectedChar before c after hbefore hc =>
    rw [valueOf, alphabetError?_eq_unexpectedChar hbefore hc]
  | signsOnly signs last => exact valueOf_signs signs last
  | firstTerm signs hterm hfault hends hrest =>
    rw [← concat_map_op]
    exact valueOf_of_fault (.signs signs)
      (canonical_signs_append_piece signs (hfault.isPiece hterm)) hterm hfault hends hrest
  | laterTerm before hbefore hsigns hterm hfault hends hrest =>
    rw [← before.concat_tokens]
    exact valueOf_of_fault (.sum before hbefore)
      (Sum.canonical_append_piece hsigns (hfault.isPiece hterm)) hterm hfault hends hrest
  | overflow s h hvalue =>
    rw [valueOf_sum s h, hvalue]
    rfl

/-- Only the empty text is refused as empty. Split into tokens, any other text has a term or a pending
sign, and no term of it is empty, so that neither a sum nor a term meets the error. -/
theorem valueOf_eq_empty_iff : valueOf text = .error .empty ↔ text = [] := by
  refine ⟨fun h => ?_, fun h => by rw [h]; rfl⟩
  rcases sum_or_refused text with ⟨s, rfl, hs⟩ | ⟨err, hrefused⟩
  · rw [valueOf_sum s hs] at h
    split at h <;> cases h
  · rw [valueOf_of_refused hrefused] at h
    obtain rfl := Except.error.inj h
    exact hrefused.eq_nil_of_empty

/-- A text has a value exactly when it is the text of a sum that divides by no zero and has a finite
value, and it has that value. -/
theorem evaluate_eq_ok_iff :
    (evaluate text).value = .ok x ↔
      ∃ s : Sum, s.text = text ∧ s.NoZeroDivisor ∧ s.value = x ∧ x.isFinite = true := by
  rw [value_evaluate]
  constructor
  · intro h
    rcases sum_or_refused text with ⟨s, rfl, hs⟩ | ⟨err, hrefused⟩
    · rw [valueOf_sum s hs] at h
      split at h
      · next hfinite =>
        obtain rfl := Except.ok.inj h
        exact ⟨s, rfl, hs, rfl, hfinite⟩
      · cases h
    · rw [valueOf_of_refused hrefused] at h
      cases h
  · rintro ⟨s, rfl, hs, rfl, hfinite⟩
    rw [valueOf_sum s hs, if_pos hfinite]

/-- Of the two signs in a row the last one counts. -/
example : (evaluate "-2*3--1".toList).value = .ok (-Binary64.round false 7) := by decide +kernel

/-- A text is refused exactly when it has a reason to be refused, and for that reason. -/
theorem evaluate_eq_error_iff : (evaluate text).value = .error err ↔ Refused text err := by
  rw [value_evaluate]
  constructor
  · intro h
    rcases sum_or_refused text with ⟨s, rfl, hs⟩ | ⟨err', hrefused⟩
    · -- a sum that divides by no zero is refused for overflow only
      rw [valueOf_sum s hs] at h
      split at h
      · cases h
      · next hfinite =>
        obtain rfl := Except.error.inj h
        exact .overflow s hs (Bool.eq_false_iff.2 hfinite)
    · rw [valueOf_of_refused hrefused] at h
      obtain rfl := Except.error.inj h
      exact hrefused
  · exact valueOf_of_refused

/-- The second term decides, by its lone point, and not the third one by its division. -/
example : (evaluate "1+2*.+3/0".toList).value = .error (.badLiteral ['.']) := by decide +kernel

end Values

end FourFunction
