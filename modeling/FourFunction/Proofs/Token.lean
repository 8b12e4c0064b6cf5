import FourFunction.Token
import Mathlib.Data.List.Chain
import Mathlib.Order.Basic

/-!
# Canonical lists of tokens

Splitting drops the empty pieces and keeps every operator, so of the many lists of tokens that
write one text it gives a particular one: every piece is some text without an operator, and no two
pieces stand side by side.

## Main results

* `Token.canonical_split`: splitting gives a canonical list;
* `Token.split_eq_iff`: it is the one canonical list that writes the text.
-/

namespace FourFunction.Token

variable {σ : Type} [Separator σ] {o : σ} {c : Char} {text rest : Text}
  {tokens before after : List (Token σ)}

/-- The text is not empty and no operator of the kind `σ` is in it. -/
def IsPiece (σ : Type) [Separator σ] (text : Text) : Prop :=
  text ≠ [] ∧ ∀ c ∈ text, (Separator.ofChar? c : Option σ) = none

/-- The text is empty or begins with an operator of the kind `σ`, so that a piece ends before it. -/
def EndsPiece (σ : Type) [Separator σ] (rest : Text) : Prop :=
  ∀ c ∈ rest.head?, (Separator.ofChar? c : Option σ) ≠ none

/-- The first token is a piece. -/
def StartsWithPiece (tokens : List (Token σ)) : Prop :=
  ∃ text rest, tokens = piece text :: rest

/-- One of the two tokens is an operator. -/
def Separated : Token σ → Token σ → Prop
  | piece _, piece _ => False
  | _, _ => True

/-- The pieces of the list are pieces, and no two of them stand side by side. -/
structure Canonical (tokens : List (Token σ)) : Prop where
  isPiece : ∀ text, piece text ∈ tokens → IsPiece σ text
  separated : tokens.IsChain Separated

section Kinds

omit [Separator σ]

@[simp]
theorem not_startsWithPiece_nil : ¬ StartsWithPiece ([] : List (Token σ)) := by
  simp [StartsWithPiece]

/-- A list that starts with an operator does not start with a piece. -/
@[simp]
theorem not_startsWithPiece_op_cons : ¬ StartsWithPiece (op o :: tokens) := by
  simp [StartsWithPiece]

@[simp]
theorem startsWithPiece_piece_cons : StartsWithPiece (piece text :: tokens) := ⟨text, tokens, rfl⟩

/-- A list behind operators can only start with a piece if there are no operators. -/
theorem startsWithPiece_map_op_append {operators : List σ} :
    StartsWithPiece (operators.map op ++ tokens) → StartsWithPiece tokens := by
  cases operators with
  | nil => exact id
  | cons o rest => exact fun h => absurd h not_startsWithPiece_op_cons

@[simp]
theorem separated_op_left (token : Token σ) : Separated (op o) token := trivial

@[simp]
theorem separated_op_right (token : Token σ) : Separated token (op o) := by
  cases token <;> trivial

end Kinds

/-! ## Building and taking apart -/

theorem canonical_nil : Canonical ([] : List (Token σ)) where
  isPiece := by simp
  separated := List.IsChain.nil

/-- A list is canonical if its parts are and two pieces do not meet between them. -/
theorem canonical_append_iff :
    Canonical (before ++ after) ↔ Canonical before ∧ Canonical after ∧
      ∀ x ∈ before.getLast?, ∀ y ∈ after.head?, Separated x y := by
  constructor
  · intro h
    -- a chain is two chains with a condition on the two tokens at the seam
    obtain ⟨hbefore, hafter, hseam⟩ := List.isChain_append.1 h.separated
    refine ⟨⟨fun text ht => ?_, hbefore⟩, ⟨fun text ht => ?_, hafter⟩, hseam⟩
    · exact h.isPiece text (List.mem_append_left _ ht)
    · exact h.isPiece text (List.mem_append_right _ ht)
  · rintro ⟨hbefore, hafter, hseam⟩
    refine ⟨fun text ht => ?_, List.isChain_append.2 ⟨hbefore.2, hafter.2, hseam⟩⟩
    rcases List.mem_append.1 ht with ht | ht
    · exact hbefore.isPiece text ht
    · exact hafter.isPiece text ht

/-- An operator can stand in front of any canonical list. -/
theorem canonical_op_cons_iff : Canonical (op o :: tokens) ↔ Canonical tokens := by
  have hop : Canonical [op o] := ⟨by simp, List.isChain_singleton _⟩
  rw [← List.singleton_append, canonical_append_iff]
  simp [hop]

/-- A piece can stand in front of a canonical list that starts with no piece. -/
theorem canonical_piece_cons_iff :
    Canonical (piece text :: tokens) ↔
      IsPiece σ text ∧ Canonical tokens ∧ ¬ StartsWithPiece tokens := by
  have hpiece : Canonical [(piece text : Token σ)] ↔ IsPiece σ text := by
    refine ⟨fun h => h.isPiece text (List.mem_singleton_self _), fun h => ⟨?_, ?_⟩⟩
    · simpa using h
    · exact List.isChain_singleton _
  rw [← List.singleton_append, canonical_append_iff, hpiece]
  refine and_congr_right fun _ => and_congr_right fun _ => ?_
  constructor
  · rintro h ⟨other, rest, rfl⟩
    exact h (piece text) rfl (piece other) rfl
  · intro h x hx y hy
    obtain rfl : piece text = x := by simpa using hx
    cases y with
    | op o => exact separated_op_right _
    | piece other => exact absurd ⟨other, List.head?_eq_some_iff.1 hy⟩ h

/-- An operator can join any two canonical lists. -/
theorem canonical_append_op_cons_iff :
    Canonical (before ++ op o :: after) ↔ Canonical before ∧ Canonical after := by
  rw [canonical_append_iff, canonical_op_cons_iff]
  simp

theorem canonical_map_op_append_iff {operators : List σ} :
    Canonical (operators.map op ++ tokens) ↔ Canonical tokens := by
  induction operators with
  | nil => rfl
  | cons o rest ih => rw [List.map_cons, List.cons_append, canonical_op_cons_iff, ih]

theorem concat_append : concat (before ++ after) = concat before ++ concat after :=
  List.flatMap_append

/-! ## Splitting -/

/-- An operator in front becomes a token of its own. -/
@[simp]
theorem prepend_symbol (o : σ) (tokens : List (Token σ)) :
    prepend (Separator.symbol o) tokens = op o :: tokens := by
  unfold prepend
  rw [Separator.ofChar?_symbol]

/-- A character in front of a piece joins it. -/
theorem prepend_piece (hc : (Separator.ofChar? c : Option σ) = none) :
    prepend c (piece text :: tokens) = piece (c :: text) :: tokens := by
  unfold prepend
  rw [hc]

/-- A character in front of an operator, or of nothing, begins a piece. -/
theorem prepend_of_not_startsWithPiece (hc : (Separator.ofChar? c : Option σ) = none)
    (h : ¬ StartsWithPiece tokens) : prepend c tokens = piece [c] :: tokens := by
  unfold prepend
  rw [hc]
  cases tokens with
  | nil => rfl
  | cons token tokens =>
    cases token with
    | op o => rfl
    | piece other => exact absurd startsWithPiece_piece_cons h

/-- A character that is no operator joins the piece in front, or becomes one. -/
theorem canonical_prepend (c : Char) (h : Canonical tokens) : Canonical (prepend c tokens) := by
  cases hc : (Separator.ofChar? c : Option σ) with
  | some o =>
    rw [Separator.ofChar?_eq_some_iff.1 hc, prepend_symbol]
    exact canonical_op_cons_iff.2 h
  | none =>
    by_cases hstart : StartsWithPiece tokens
    · obtain ⟨text, rest, rfl⟩ := hstart
      obtain ⟨⟨_, hnone⟩, hrest⟩ := canonical_piece_cons_iff.1 h
      rw [prepend_piece hc]
      exact canonical_piece_cons_iff.2
        ⟨⟨List.cons_ne_nil _ _, List.forall_mem_cons.2 ⟨hc, hnone⟩⟩, hrest⟩
    · rw [prepend_of_not_startsWithPiece hc hstart]
      exact canonical_piece_cons_iff.2 ⟨⟨List.cons_ne_nil _ _, by simpa using hc⟩, h, hstart⟩

/-- Splitting gives a canonical list. -/
theorem canonical_split (text : Text) : Canonical (split (σ := σ) text) := by
  induction text with
  | nil => exact canonical_nil
  | cons c rest ih => exact canonical_prepend c ih

/-- A text that is not empty has tokens. -/
theorem split_ne_nil (hne : text ≠ []) : split (σ := σ) text ≠ [] := by
  intro hnil
  have hconcat := concat_split (σ := σ) text
  rw [hnil] at hconcat
  exact hne hconcat.symm

/-- A character that is no operator is in some piece. -/
theorem exists_piece_mem_split (hc : c ∈ text) (hnone : (Separator.ofChar? c : Option σ) = none) :
    ∃ other, (piece other : Token σ) ∈ split text := by
  rw [← concat_split (σ := σ) text, concat, List.mem_flatMap] at hc
  obtain ⟨token, htoken, hc⟩ := hc
  cases token with
  | op o =>
    obtain rfl := List.mem_singleton.1 hc
    rw [Separator.ofChar?_symbol] at hnone
    cases hnone
  | piece other => exact ⟨other, htoken⟩

/-- The first token is an operator, or there is none, where a piece ends. -/
theorem not_startsWithPiece_split_iff :
    ¬ StartsWithPiece (split (σ := σ) rest) ↔ EndsPiece σ rest := by
  cases rest with
  | nil => simp [EndsPiece]
  | cons c rest =>
    rw [split_cons]
    cases hc : (Separator.ofChar? c : Option σ) with
    | some o =>
      rw [Separator.ofChar?_eq_some_iff.1 hc, prepend_symbol]
      simp [EndsPiece]
    | none =>
      -- any other character ends up in a piece, whatever follows
      have hpiece : StartsWithPiece (prepend c (split (σ := σ) rest)) := by
        by_cases hstart : StartsWithPiece (split (σ := σ) rest)
        · obtain ⟨text, tokens, htokens⟩ := hstart
          rw [htokens, prepend_piece hc]
          exact startsWithPiece_piece_cons
        · rw [prepend_of_not_startsWithPiece hc hstart]
          exact startsWithPiece_piece_cons
      simp [EndsPiece, hpiece, hc]

/-- A piece in front of an operator, or of nothing, is the first token. -/
theorem split_piece_append (hpiece : IsPiece σ text) (hrest : EndsPiece σ rest) :
    split (σ := σ) (text ++ rest) = piece text :: split rest := by
  obtain ⟨hne, hnone⟩ := hpiece
  -- the last character of the piece begins a token, and the others join it
  induction text with
  | nil => exact absurd rfl hne
  | cons c text ih =>
    obtain ⟨hc, htext⟩ := List.forall_mem_cons.1 hnone
    rw [List.cons_append, split_cons]
    cases text with
    | nil => exact prepend_of_not_startsWithPiece hc (not_startsWithPiece_split_iff.2 hrest)
    | cons d text => rw [ih (List.cons_ne_nil _ _) htext, prepend_piece hc]

/-- A piece alone is one token. -/
theorem split_piece (hpiece : IsPiece σ text) : split (σ := σ) text = [piece text] := by
  have hnil : EndsPiece σ [] := by simp [EndsPiece]
  rw [← List.append_nil text, split_piece_append hpiece hnil, split_nil, List.append_nil]

/-- A canonical list is what its text is split into. -/
theorem split_concat (h : Canonical tokens) : split (concat tokens) = tokens := by
  induction tokens with
  | nil => rfl
  | cons token tokens ih =>
    cases token with
    | op o =>
      have hrest := ih (canonical_op_cons_iff.1 h)
      calc split (concat (op o :: tokens))
          = prepend (Separator.symbol o) (split (concat tokens)) := rfl
        _ = op o :: tokens := by rw [prepend_symbol, hrest]
    | piece text =>
      obtain ⟨hpiece, htokens, hstart⟩ := canonical_piece_cons_iff.1 h
      have hrest := ih htokens
      rw [← hrest, not_startsWithPiece_split_iff] at hstart
      calc split (concat (piece text :: tokens))
          = split (text ++ concat tokens) := rfl
        _ = piece text :: split (concat tokens) :=
          split_piece_append hpiece hstart
        _ = piece text :: tokens := by rw [hrest]

/-- A text is split into the one canonical list that writes it. -/
theorem split_eq_iff : split text = tokens ↔ Canonical tokens ∧ concat tokens = text := by
  constructor
  · rintro rfl
    exact ⟨canonical_split text, concat_split text⟩
  · rintro ⟨h, rfl⟩
    exact split_concat h

/-- A piece ends before an operator. -/
theorem endsPiece_symbol_cons (o : σ) (rest : Text) : EndsPiece σ (Separator.symbol o :: rest) := by
  rintro c ⟨⟩
  exact Option.ne_none_iff_exists'.2 ⟨o, Separator.ofChar?_symbol o⟩

/-- Where a canonical list does not start with a piece, its text ends one. -/
theorem endsPiece_concat_iff (h : Canonical tokens) :
    EndsPiece σ (concat tokens) ↔ ¬ StartsWithPiece tokens := by
  rw [← not_startsWithPiece_split_iff, split_concat h]

/-- Two texts are split apart from each other where the second begins with an operator. -/
theorem split_append (hrest : EndsPiece σ rest) :
    split (σ := σ) (text ++ rest) = split text ++ split rest := by
  refine split_eq_iff.2
    ⟨canonical_append_iff.2 ⟨canonical_split text, canonical_split rest, ?_⟩, ?_⟩
  · -- the first token of the second text is no piece, so any token can stand before it
    intro x _ y hy
    cases y with
    | op o => exact separated_op_right x
    | piece other =>
      obtain ⟨tokens, htokens⟩ := List.head?_eq_some_iff.1 hy
      exact absurd ⟨other, tokens, htokens⟩ (not_startsWithPiece_split_iff.2 hrest)
  · rw [concat_append, concat_split, concat_split]

/-- The operator between two texts is the token between their tokens. -/
theorem split_append_symbol (text rest : Text) (o : σ) :
    split (text ++ Separator.symbol o :: rest) = split text ++ op o :: split rest := by
  rw [split_append (endsPiece_symbol_cons o rest), split_cons, prepend_symbol]

end FourFunction.Token
