import FourFunction.Proofs.Token

/-!
# Splitting in one pass

A text can also be split from left to right, by counting bytes: of the pending piece only the place
where it starts is kept, and it is cut out of the text when an operator or the end is reached. No
cut falls inside a character, and the tokens are those of `Token.split`.

Splitting and concatenating undo each other, for signs and for factor operators alike, and so the
pass finds the one canonical list of tokens that writes the text.

## Main results

* `Token.scan_eq_split`: the pass gives the tokens that splitting gives;
* `Token.split_concat_inverse`: splitting is the inverse of concatenating canonical lists.
-/

namespace FourFunction.Token

variable {σ : Type} [Separator σ]

/-- A pass over a text, as far as it got. -/
structure Scan (σ : Type) where
  /-- The tokens before the pending piece. -/
  tokens : List (Token σ) := []
  /-- The place where the pending piece starts. -/
  start : Nat := 0
  /-- The place that was reached. -/
  place : Nat := 0

namespace Scan

/-- The tokens up to the place that was reached. The pending piece is cut out of the text, unless it
is empty. -/
def flush (text : Text) (scan : Scan σ) : Option (List (Token σ)) :=
  if scan.start < scan.place then
    (slice? text scan.start scan.place).map fun part => scan.tokens ++ [piece part]
  else some scan.tokens

/-- Takes the next character of the text into a pass. An operator ends the pending piece, and
another one starts behind it. -/
def next (text : Text) (scan : Scan σ) (c : Char) : Option (Scan σ) :=
  let place := scan.place + c.utf8Size
  match Separator.ofChar? c with
  | some o => (scan.flush text).map fun tokens => ⟨tokens ++ [op o], place, place⟩
  | none => some { scan with place }

end Scan

/-- Splits a text in one pass, none if a cut falls inside a character. -/
def scan (text : Text) : Option (List (Token σ)) := do
  let last ← text.foldlM (Scan.next text) {}
  last.flush text

/-! ## The pass -/

namespace Scan

variable {scan : Scan σ} {before pending : Text}

/-- What a pass knows of the text that it has read: `pending` is what follows the last operator. -/
structure HasRead (scan : Scan σ) (before pending : Text) : Prop where
  tokens_eq : scan.tokens = split before
  start_eq : scan.start = utf8Length before
  place_eq : scan.place = utf8Length (before ++ pending)
  /-- The text before the pending piece is empty or ends in an operator. -/
  split_before : ∀ rest, split (σ := σ) (before ++ rest) = split before ++ split rest
  no_operator : ∀ c ∈ pending, (Separator.ofChar? c : Option σ) = none

theorem hasRead_nil : ({} : Scan σ).HasRead [] [] where
  tokens_eq := split_nil.symm
  start_eq := utf8Length_nil.symm
  place_eq := utf8Length_nil.symm
  split_before rest := by rw [List.nil_append, split_nil, List.nil_append]
  no_operator := by simp

/-- The pending piece can be cut out of any text that goes on from what was read. -/
theorem HasRead.flush (h : scan.HasRead before pending) (rest : Text) :
    scan.flush (before ++ pending ++ rest) = some (split (before ++ pending)) := by
  rw [Scan.flush, h.split_before, ← h.tokens_eq, h.start_eq, h.place_eq]
  by_cases hpending : pending = []
  · subst hpending
    rw [List.append_nil, if_neg (lt_irrefl _), split_nil, List.append_nil]
  · have hlt : utf8Length before < utf8Length (before ++ pending) := by
      rw [utf8Length_append]
      exact Nat.lt_add_of_pos_right (utf8Length_pos hpending)
    rw [if_pos hlt, slice?_append, Option.map_some, split_piece ⟨hpending, h.no_operator⟩]

/-- One character more is read, and the pass goes on. -/
theorem HasRead.next (h : scan.HasRead before pending) (c : Char) (rest : Text) :
    ∃ scan' before' pending', scan.next (before ++ pending ++ c :: rest) c = some scan' ∧
      scan'.HasRead before' pending' ∧ before' ++ pending' = before ++ pending ++ [c] := by
  have hplace : scan.place + c.utf8Size = utf8Length (before ++ pending ++ [c]) := by
    rw [h.place_eq, utf8Length_append (before ++ pending), utf8Length_cons, utf8Length_nil,
      Nat.add_zero]
  rw [Scan.next, h.flush, hplace]
  cases hc : (Separator.ofChar? c : Option σ) with
  | some o =>
    -- the operator ends what was read, and nothing is pending behind it
    obtain rfl := Separator.ofChar?_eq_some_iff.1 hc
    refine ⟨_, before ++ pending ++ [Separator.symbol o], [], rfl, ⟨?_, rfl, ?_, ?_, ?_⟩, ?_⟩
    · rw [split_append_symbol, split_nil]
    · rw [List.append_nil]
    · intro rest
      rw [List.append_assoc, List.singleton_append, split_append_symbol, split_append_symbol,
        split_nil, List.append_assoc, List.singleton_append]
    · simp
    · rw [List.append_nil]
  | none =>
    refine ⟨_, before, pending ++ [c], rfl, ⟨h.tokens_eq, h.start_eq, ?_, h.split_before, ?_⟩, ?_⟩
    · rw [← List.append_assoc]
    · simpa [or_imp, forall_and, hc] using h.no_operator
    · rw [List.append_assoc]

/-- All that is left of a text is read. -/
theorem HasRead.foldlM (h : scan.HasRead before pending) (rest : Text) :
    ∃ last before' pending', rest.foldlM (Scan.next (before ++ pending ++ rest)) scan = some last ∧
      last.HasRead before' pending' ∧ before' ++ pending' = before ++ pending ++ rest := by
  induction rest generalizing scan before pending with
  | nil => exact ⟨scan, before, pending, rfl, h, (List.append_nil _).symm⟩
  | cons c rest ih =>
    obtain ⟨scan', before', pending', hnext, hread, htext⟩ := h.next c rest
    obtain ⟨last, before'', pending'', hlast, hread', htext'⟩ := ih hread
    rw [htext, List.append_assoc, List.singleton_append] at hlast htext'
    refine ⟨last, before'', pending'', ?_, hread', htext'⟩
    rw [List.foldlM_cons, hnext]
    exact hlast

end Scan

/-- The pass finds the tokens that splitting gives, and no cut falls inside a character. -/
theorem scan_eq_split (text : Text) : scan (σ := σ) text = some (split text) := by
  obtain ⟨last, before, pending, hlast, hread, htext⟩ :=
    (Scan.hasRead_nil (σ := σ)).foldlM text
  rw [List.append_nil, List.nil_append] at hlast htext
  have hflush := hread.flush []
  rw [List.append_nil, htext] at hflush
  rw [scan, hlast]
  exact hflush

/-! ## The inverse of concatenation -/

/-- A text is a piece if it is not empty and holds none of the operators' characters. -/
theorem isPiece_iff {text : Text} :
    IsPiece σ text ↔ text ≠ [] ∧ ∀ o : σ, Separator.symbol o ∉ text := by
  refine and_congr_right fun _ => ⟨?_, ?_⟩
  · intro h o ho
    have hnone := h _ ho
    rw [Separator.ofChar?_symbol] at hnone
    cases hnone
  · intro h c hc
    by_contra hsome
    obtain ⟨o, ho⟩ := Option.ne_none_iff_exists'.1 hsome
    rw [Separator.ofChar?_eq_some_iff.1 ho] at hc
    exact h o hc

theorem isPiece_sign_iff {text : Text} :
    IsPiece Sign text ↔ text ≠ [] ∧ '+' ∉ text ∧ '-' ∉ text := by
  refine isPiece_iff.trans (and_congr_right fun _ => ⟨fun h => ⟨h .plus, h .minus⟩, ?_⟩)
  rintro ⟨hplus, hminus⟩ sign
  cases sign with
  | plus => exact hplus
  | minus => exact hminus

theorem isPiece_factorOp_iff {text : Text} :
    IsPiece FactorOp text ↔ text ≠ [] ∧ '*' ∉ text ∧ '/' ∉ text := by
  refine isPiece_iff.trans (and_congr_right fun _ => ⟨fun h => ⟨h .times, h .divide⟩, ?_⟩)
  rintro ⟨htimes, hdivide⟩ o
  cases o with
  | times => exact htimes
  | divide => exact hdivide

/-- Splitting is the inverse of concatenating. A text is split into a canonical list that writes it,
which one pass over the text finds, and a canonical list is what its text is split into. So it is
with the signs, where a piece holds no `+` and no `-`, and with the factor operators, where it holds
no `*` and no `/`. -/
theorem split_concat_inverse :
    ((∀ text : Text, Canonical (split (σ := Sign) text) ∧
          concat (split (σ := Sign) text) = text ∧ scan (σ := Sign) text = some (split text)) ∧
        (∀ tokens : List (Token Sign), Canonical tokens → split (concat tokens) = tokens) ∧
        ∀ text, IsPiece Sign text ↔ text ≠ [] ∧ '+' ∉ text ∧ '-' ∉ text) ∧
      (∀ text : Text, Canonical (split (σ := FactorOp) text) ∧
          concat (split (σ := FactorOp) text) = text ∧
          scan (σ := FactorOp) text = some (split text)) ∧
        (∀ tokens : List (Token FactorOp), Canonical tokens → split (concat tokens) = tokens) ∧
        ∀ text, IsPiece FactorOp text ↔ text ≠ [] ∧ '*' ∉ text ∧ '/' ∉ text := by
  have hsplit : ∀ (σ : Type) [Separator σ] (text : Text), Canonical (split (σ := σ) text) ∧
      concat (split (σ := σ) text) = text ∧ scan (σ := σ) text = some (split text) := by
    intro σ _ text
    exact ⟨canonical_split text, concat_split text, scan_eq_split text⟩
  refine ⟨⟨hsplit Sign, ?_, ?_⟩, hsplit FactorOp, ?_, ?_⟩
  · intro tokens h
    exact split_concat h
  · intro text
    exact isPiece_sign_iff
  · intro tokens h
    exact split_concat h
  · intro text
    exact isPiece_factorOp_iff

/-- Signs in a row, with a term after them, and factor operators at either end of a factor. -/
theorem split_concat_inverse_signs :
    (Canonical [op Sign.plus, op .minus, piece "3*4".toList] ∧
        split (concat [op Sign.plus, op .minus, piece "3*4".toList]) =
          [op Sign.plus, op .minus, piece "3*4".toList]) ∧
      Canonical [op FactorOp.divide, piece "5.".toList, op .times] ∧
        split (concat [op FactorOp.divide, piece "5.".toList, op .times]) =
          [op FactorOp.divide, piece "5.".toList, op .times] := by
  obtain ⟨⟨-, hsigns, hterm⟩, -, hfactors, hfactor⟩ := split_concat_inverse
  have hsum : Canonical [op Sign.plus, op .minus, piece "3*4".toList] := by
    rw [canonical_op_cons_iff, canonical_op_cons_iff, canonical_piece_cons_iff]
    exact ⟨(hterm _).2 (by decide), canonical_nil, not_startsWithPiece_nil⟩
  have hproduct : Canonical [op FactorOp.divide, piece "5.".toList, op .times] := by
    rw [canonical_op_cons_iff, canonical_piece_cons_iff, canonical_op_cons_iff]
    exact ⟨(hfactor _).2 (by decide), canonical_nil, not_startsWithPiece_op_cons⟩
  exact ⟨⟨hsum, hsigns _ hsum⟩, hproduct, hfactors _ hproduct⟩

end FourFunction.Token
