import FourFunction.Proofs.Expression.Term

/-!
# Well-formed and refused expressions

Any text is either the text of a sum that divides by no zero, or it is refused for one reason: one
of the checks that come first, or the leftmost fault of the leftmost faulty term. Nothing is
evaluated here except the divisors, and the values of a sum that overflows.

## Main results

* `beginning_or_fault`: the search for the leftmost faulty term, token by token;
* `sum_or_refused`: one of the two, for any text.
-/

namespace FourFunction

/-- Why a text has no value. The reasons exclude each other: of a text with several faults, one
constructor says which of them counts. -/
inductive Refused : Text → EvalError → Prop where
  | empty : Refused [] .empty
  /-- The first character outside the alphabet, after some bytes of UTF-8. -/
  | unexpectedChar (before : Text) (c : Char) (after : Text)
      (hbefore : ∀ d ∈ before, InAlphabet d) (hc : ¬ InAlphabet c) :
      Refused (before ++ c :: after)
        (.unexpectedChar c (String.ofList before).utf8ByteSize)
  | signsOnly (signs : List Sign) (last : Sign) :
      Refused (signs.map Sign.symbol ++ [last.symbol]) (.missingOperand (.sign last))
  /-- The first term is faulty. -/
  | firstTerm (signs : List Sign) {term rest : Text} {err : EvalError}
      (hterm : ∀ c ∈ term, IsTermChar c) (hfault : TermFault term err)
      (hends : Token.EndsPiece Sign rest) (hrest : ∀ c ∈ rest, InAlphabet c) :
      Refused (signs.map Sign.symbol ++ term ++ rest) err
  /-- A later term is faulty, and those before it make a sum that divides by no zero. -/
  | laterTerm (before : Sum) (hbefore : before.NoZeroDivisor) (hsigns : before.trailing ≠ [])
      {term rest : Text} {err : EvalError}
      (hterm : ∀ c ∈ term, IsTermChar c) (hfault : TermFault term err)
      (hends : Token.EndsPiece Sign rest) (hrest : ∀ c ∈ rest, InAlphabet c) :
      Refused (before.text ++ term ++ rest) err
  /-- No term is faulty, but the sum of their values is not finite. -/
  | overflow (s : Sum) (h : s.NoZeroDivisor) (hvalue : s.value.isFinite = false) :
      Refused s.text .overflow

/-! ## The alphabet -/

section Alphabet

variable {text before after : Text} {c : Char}

/-- The bytes of a text are those of the string of its characters. -/
theorem utf8Length_eq (text : Text) : utf8Length text = (String.ofList text).utf8ByteSize := by
  induction text with
  | nil => rfl
  | cons c rest ih =>
    rw [utf8Length_cons, ih, String.ofList_cons, String.utf8ByteSize_append,
      String.utf8ByteSize_singleton]

/-- The characters that are let through are the alphabet of expressions. -/
theorem isExpressionChar_iff : isExpressionChar c = true ↔ InAlphabet c := by
  have hfactorOp : (FactorOp.ofChar? c).isSome = true ↔ ∃ o : FactorOp, c = o.symbol := by
    rw [Option.isSome_iff_exists]
    exact exists_congr fun o => FactorOp.ofChar?_eq_some_iff
  have hsign : (Sign.ofChar? c).isSome = true ↔ ∃ s : Sign, c = s.symbol := by
    rw [Option.isSome_iff_exists]
    exact exists_congr fun s => Sign.ofChar?_eq_some_iff
  rw [InAlphabet, IsTermChar, IsFactorChar, ← hfactorOp, ← hsign]
  simp [isExpressionChar, Operator.ofChar?, or_assoc, or_comm]

theorem inAlphabet_of_all (h : text.all isExpressionChar = true) : ∀ c ∈ text, InAlphabet c :=
  fun c hc => isExpressionChar_iff.1 (List.all_eq_true.1 h c hc)

/-- A text of the alphabet is let through, unless it is empty. -/
theorem alphabetError?_eq_none (hne : text ≠ []) (h : ∀ c ∈ text, InAlphabet c) :
    alphabetError? text = none := by
  have hdrop : text.dropWhile isExpressionChar = [] :=
    List.dropWhile_eq_nil_iff.2 fun c hc => isExpressionChar_iff.2 (h c hc)
  rw [alphabetError?, hdrop]
  exact if_neg hne

/-- The first character outside the alphabet is refused, with the bytes in front of it. -/
theorem alphabetError?_eq_unexpectedChar (hbefore : ∀ d ∈ before, InAlphabet d)
    (hc : ¬ InAlphabet c) :
    alphabetError? (before ++ c :: after) =
      some (.unexpectedChar c (String.ofList before).utf8ByteSize) := by
  have hpos : ∀ d ∈ before, isExpressionChar d = true := fun d hd =>
    isExpressionChar_iff.2 (hbefore d hd)
  have hneg : isExpressionChar c = false :=
    Bool.eq_false_iff.2 fun h => hc (isExpressionChar_iff.1 h)
  rw [alphabetError?, dropWhile_append_cons hpos hneg, takeWhile_append_cons hpos hneg,
    utf8Length_eq]

/-- A text is in the alphabet, or it has a first character that is not. -/
theorem inAlphabet_or_exists_first (text : Text) :
    (∀ c ∈ text, InAlphabet c) ∨
      ∃ before c after, text = before ++ c :: after ∧ (∀ d ∈ before, InAlphabet d) ∧
        ¬ InAlphabet c := by
  cases hfind : text.find? fun c => !isExpressionChar c with
  | none =>
    left
    intro c hc
    simpa [isExpressionChar_iff] using List.find?_eq_none.1 hfind c hc
  | some c =>
    obtain ⟨hc, before, after, rfl, hbefore⟩ := List.find?_eq_some_iff_append.1 hfind
    refine Or.inr ⟨before, c, after, rfl, fun d hd => ?_, ?_⟩
    · simpa [isExpressionChar_iff] using hbefore d hd
    · simpa [← isExpressionChar_iff] using hc

end Alphabet

/-! ## Looking for the faulty term -/

/-- What can stand before a term: signs alone, or a sum that divides by no zero. -/
inductive Beginning : List (Token Sign) → Prop where
  | signs (signs : List Sign) : Beginning (signs.map .op)
  | sum (s : Sum) (h : s.NoZeroDivisor) : Beginning s.tokens

section Terms

variable {s : Sum} {tokens before after : List (Token Sign)} {term text : Text} {err : EvalError}

/-- A sum without trailing signs ends with a term. -/
theorem Sum.exists_tokens_eq_append_piece (h : s.trailing = []) :
    ∃ init text, s.tokens = init ++ [.piece text] := by
  rcases List.eq_nil_or_concat s.rest with hrest | ⟨init, t, hrest⟩
  · exact ⟨s.lead.map .op, s.first.text, by simp [Sum.tokens, h, hrest]⟩
  · refine ⟨s.lead.map .op ++ .piece s.first.text :: init.flatMap SignedTerm.tokens ++
      t.ignored.map .op ++ [.op t.sign], t.term.text, ?_⟩
    simp [Sum.tokens, SignedTerm.tokens, h, hrest]

/-- A sum with trailing signs ends with a sign. -/
theorem Sum.exists_tokens_eq_append_op (h : s.trailing ≠ []) :
    ∃ init sign, s.tokens = init ++ [.op sign] := by
  obtain ⟨init, last, hlast⟩ := (List.eq_nil_or_concat s.trailing).resolve_left h
  refine ⟨s.lead.map .op ++ .piece s.first.text :: s.rest.flatMap SignedTerm.tokens ++
    init.map .op, last, ?_⟩
  simp [Sum.tokens, hlast]

/-- A sign after a beginning makes a longer one. -/
theorem Beginning.append_op (h : Beginning tokens) (sign : Sign) :
    Beginning (tokens ++ [.op sign]) := by
  cases h with
  | signs signs =>
    rw [← List.map_singleton, ← List.map_append]
    exact .signs (signs ++ [sign])
  | sum s h =>
    have htokens : s.tokens ++ [.op sign] =
        { s with trailing := s.trailing ++ [sign] : Sum }.tokens := by
      rw [Sum.tokens, List.append_assoc, ← List.map_singleton, ← List.map_append]
      rfl
    rw [htokens]
    exact .sum _ ⟨h.first, h.rest⟩

/-- A term that divides by no zero makes a sum of what stands before it, where a term can stand. -/
theorem Beginning.append_piece (h : Beginning tokens) (p : Product)
    (hp : Product.NoZeroDivisor p.rest) (hcanonical : Token.Canonical (tokens ++ [.piece p.text])) :
    Beginning (tokens ++ [.piece p.text]) := by
  cases h with
  | signs signs =>
    have htokens : signs.map Token.op ++ [.piece p.text] = (Sum.mk signs p [] []).tokens := by
      simp [Sum.tokens]
    rw [htokens]
    exact .sum _ ⟨hp, by simp⟩
  | sum s h =>
    rcases List.eq_nil_or_concat s.trailing with hnil | ⟨ignored, sign, hsigns⟩
    · -- two terms do not stand side by side
      obtain ⟨init, text, htokens⟩ := Sum.exists_tokens_eq_append_piece hnil
      obtain ⟨_, _, hseam⟩ := Token.canonical_append_iff.1 hcanonical
      exact (hseam (.piece text) (by simp [htokens]) _ rfl).elim
    · have htokens : s.tokens ++ [.piece p.text] =
          (Sum.mk s.lead s.first (s.rest ++ [⟨ignored, sign, p⟩]) []).tokens := by
        simp [Sum.tokens, SignedTerm.tokens, hsigns]
      rw [htokens]
      refine .sum _ ⟨h.first, fun t ht => ?_⟩
      rcases List.mem_append.1 ht with ht | ht
      · exact h.rest t ht
      · obtain rfl := List.mem_singleton.1 ht
        exact hp

/-- The tokens of a text in the alphabet are a beginning as a whole, or up to a faulty term. -/
theorem beginning_or_fault (hcanonical : Token.Canonical tokens)
    (hchars : ∀ c ∈ Token.concat tokens, InAlphabet c) :
    Beginning tokens ∨ ∃ before term after err,
      tokens = before ++ .piece term :: after ∧ Beginning before ∧ TermFault term err := by
  -- the induction adds tokens at the end, so that a fault found once stays the leftmost
  induction tokens using List.reverseRecOn with
  | nil => exact Or.inl (.signs [])
  | append_singleton init token ih =>
    obtain ⟨hinit, _⟩ := Token.canonical_append_iff.1 hcanonical
    rw [Token.concat_append] at hchars
    rcases ih hinit fun c hc => hchars c (List.mem_append_left _ hc) with hbefore | hfault
    · cases token with
      | op sign => exact Or.inl (hbefore.append_op sign)
      | piece term =>
        -- a term of the alphabet that holds no sign: it is a product or it has a fault
        have hpiece := hcanonical.isPiece term (List.mem_append_right _ (List.mem_singleton_self _))
        have hterm : ∀ c ∈ term, IsTermChar c := by
          intro c hc
          have hmem : c ∈ Token.concat [(.piece term : Token Sign)] :=
            List.mem_append_left _ hc
          exact (hchars c (List.mem_append_right _ hmem)).isTermChar (hpiece.2 c hc)
        rcases Term.product_or_fault hpiece.1 hterm with ⟨p, rfl, hp⟩ | ⟨err, hfault⟩
        · exact Or.inl (hbefore.append_piece p hp hcanonical)
        · exact Or.inr ⟨init, term, [], err, rfl, hbefore, hfault⟩
    · obtain ⟨before, term, after, err, rfl, hbefore, hfault⟩ := hfault
      refine Or.inr ⟨before, term, after ++ [token], err, ?_, hbefore, hfault⟩
      rw [List.append_assoc, List.cons_append]

/-- A term with a fault is not empty. -/
theorem TermFault.ne_nil (h : TermFault term err) : term ≠ [] := by
  cases h with
  | noFirst o rest => exact List.cons_ne_nil _ _
  | malformedFirst factor rest hfactor hrest =>
    exact List.append_ne_nil_of_left_ne_nil hfactor.ne_nil _
  | step before hbefore hfault =>
    exact List.append_ne_nil_of_left_ne_nil (Product.isPiece before).1 _

/-- A fault of a term is no character outside the alphabet. -/
theorem TermFault.ne_unexpectedChar {c : Char} {offset : Nat} (h : TermFault term err) :
    err ≠ .unexpectedChar c offset := by
  rintro rfl
  cases h with
  | step before hbefore hfault => cases hfault

/-- No term is at fault for being empty. -/
theorem TermFault.ne_empty (h : TermFault term err) : err ≠ .empty := by
  rintro rfl
  cases h with
  | step before hbefore hfault => cases hfault

/-- Only the empty text is refused as empty. -/
theorem Refused.eq_nil_of_empty (h : Refused text .empty) : text = [] := by
  cases h with
  | empty => rfl
  | firstTerm _ _ hfault _ _ => exact absurd rfl hfault.ne_empty
  | laterTerm _ _ _ _ hfault _ _ => exact absurd rfl hfault.ne_empty

/-- A text is refused for a character only if that is in it and not in the alphabet. -/
theorem Refused.not_inAlphabet {c : Char} {offset : Nat}
    (h : Refused text (.unexpectedChar c offset)) : c ∈ text ∧ ¬ InAlphabet c := by
  cases h with
  | unexpectedChar before c after hbefore hc =>
    exact ⟨List.mem_append_right _ (List.mem_cons_self ..), hc⟩
  | firstTerm signs hterm hfault hends hrest => exact absurd rfl hfault.ne_unexpectedChar
  | laterTerm before hbefore hsigns hterm hfault hends hrest =>
    exact absurd rfl hfault.ne_unexpectedChar

/-- A term with a fault is one piece between signs, if its characters are those of terms. -/
theorem TermFault.isPiece (h : TermFault term err) (hterm : ∀ c ∈ term, IsTermChar c) :
    Token.IsPiece Sign term :=
  ⟨h.ne_nil, fun c hc => (hterm c hc).ofChar?_sign⟩

/-- The beginning of an expression is written in its alphabet. -/
theorem Beginning.inAlphabet (h : Beginning tokens) : ∀ c ∈ Token.concat tokens, InAlphabet c := by
  cases h with
  | signs signs =>
    intro c hc
    rw [concat_map_op] at hc
    obtain ⟨sign, _, rfl⟩ := List.mem_map.1 hc
    exact Or.inr ⟨sign, rfl⟩
  | sum s h =>
    rw [s.concat_tokens]
    exact s.inAlphabet

theorem canonical_signs_append_piece (signs : List Sign) (hpiece : Token.IsPiece Sign term) :
    Token.Canonical (signs.map Token.op ++ [.piece term]) :=
  Token.canonical_map_op_append_iff.2
    (Token.canonical_piece_cons_iff.2 ⟨hpiece, Token.canonical_nil, by simp⟩)

/-- A term can follow a sum that ends with a sign. -/
theorem Sum.canonical_append_piece (hsigns : s.trailing ≠ []) (hpiece : Token.IsPiece Sign term) :
    Token.Canonical (s.tokens ++ [.piece term]) := by
  -- a sign separates what stands before it from what comes after
  have hsum := s.canonical_tokens
  obtain ⟨init, sign, htokens⟩ := Sum.exists_tokens_eq_append_op hsigns
  rw [htokens, Token.canonical_append_op_cons_iff] at hsum
  rw [htokens, List.append_assoc]
  refine Token.canonical_append_op_cons_iff.2 ⟨hsum.1, ?_⟩
  exact Token.canonical_piece_cons_iff.2 ⟨hpiece, Token.canonical_nil, by simp⟩

/-- A faulty term after a beginning, in the alphabet, is a reason to refuse the text. -/
theorem refused_of_fault (hbefore : Beginning before)
    (hcanonical : Token.Canonical (before ++ .piece term :: after))
    (hchars : ∀ c ∈ Token.concat (before ++ .piece term :: after), InAlphabet c)
    (hfault : TermFault term err) :
    Refused (Token.concat (before ++ .piece term :: after)) err := by
  obtain ⟨_, hafter, hseam⟩ := Token.canonical_append_iff.1 hcanonical
  obtain ⟨hpiece, hafter, hstart⟩ := Token.canonical_piece_cons_iff.1 hafter
  have hends := (Token.endsPiece_concat_iff hafter).2 hstart
  have hconcat : Token.concat (before ++ .piece term :: after) =
      Token.concat before ++ term ++ Token.concat after := by
    rw [Token.concat_append, List.append_assoc]
    rfl
  rw [hconcat] at hchars ⊢
  have hterm : ∀ c ∈ term, IsTermChar c := fun c hc =>
    (hchars c (List.mem_append_left _ (List.mem_append_right _ hc))).isTermChar (hpiece.2 c hc)
  have hrest : ∀ c ∈ Token.concat after, InAlphabet c := fun c hc =>
    hchars c (List.mem_append_right _ hc)
  cases hbefore with
  | signs signs =>
    rw [concat_map_op]
    exact .firstTerm signs hterm hfault hends hrest
  | sum s h =>
    rw [s.concat_tokens]
    refine .laterTerm s h (fun hnil => ?_) hterm hfault hends hrest
    -- without a sign at the end of the sum two terms would stand side by side
    obtain ⟨init, text, htokens⟩ := Sum.exists_tokens_eq_append_piece hnil
    exact (hseam (.piece text) (by simp [htokens]) _ rfl).elim

/-- Any text is the text of a sum that divides by no zero, or it is refused for some reason. -/
theorem sum_or_refused (text : Text) :
    (∃ s : Sum, s.text = text ∧ s.NoZeroDivisor) ∨ ∃ err, Refused text err := by
  rcases inAlphabet_or_exists_first text with hchars | ⟨before, c, after, rfl, hbefore, hc⟩
  · have hcanonical := Token.canonical_split (σ := Sign) text
    obtain ⟨tokens, htokens⟩ : ∃ tokens, Token.split (σ := Sign) text = tokens := ⟨_, rfl⟩
    obtain rfl : Token.concat tokens = text := by rw [← htokens, Token.concat_split]
    rw [htokens] at hcanonical
    rcases beginning_or_fault hcanonical hchars with hbeginning | hfault
    · cases hbeginning with
      | signs signs =>
        rw [concat_map_op]
        rcases List.eq_nil_or_concat signs with rfl | ⟨init, last, rfl⟩
        · exact Or.inr ⟨_, .empty⟩
        · rw [List.concat_eq_append, List.map_append]
          exact Or.inr ⟨_, .signsOnly init last⟩
      | sum s h => exact Or.inl ⟨s, s.concat_tokens.symm, h⟩
    · obtain ⟨before, term, after, err, rfl, hbefore, hfault⟩ := hfault
      exact Or.inr ⟨err, refused_of_fault hbefore hcanonical hchars hfault⟩
  · exact Or.inr ⟨_, .unexpectedChar before c after hbefore hc⟩

end Terms

end FourFunction
