import FourFunction.Proofs.Token
import Mathlib.Data.List.DropRight

/-!
# Reading a listing back

The journal shows the tokens of a text with nothing escaped: a piece may hold brackets and spaces
of its own, so there are lists of tokens that are shown alike. Of a text that was split, though, no
piece holds an operator and no two pieces stand side by side. Every operator of the listing is then
a token, and what it shows between two operators is one piece in brackets, or none. So the listing
can be read back: it is split at its operators like any other text, and of what stands between them
the outermost brackets are opened.

## Main results

* `Token.unlisted_listing_split`: the text is read back from the listing of its tokens;
* `Token.listing_split_eq_iff`: texts of which the same listing is shown are the same.
-/

namespace FourFunction.Token

variable {σ : Type} [Separator σ] {o : σ} {text rest : Text} {tokens : List (Token σ)}

/-- The text in the outermost square brackets, nothing where there are none. -/
def bracketed (text : Text) : Text :=
  ((text.dropWhile (· ≠ '[')).tail.rdropWhile (· ≠ ']')).dropLast

/-- The text that a token of a listing stands for. -/
def unshown : Token σ → Text
  | op o => [Separator.symbol o]
  | piece text => bracketed text

/-- The text of which a listing shows the tokens. -/
def unlisted (σ : Type) [Separator σ] (text : Text) : Text :=
  (split (σ := σ) text).flatMap unshown

/-- None of the characters that a listing adds to the tokens is an operator. -/
structure LayoutApart (σ : Type) [Separator σ] : Prop where
  space : (Separator.ofChar? ' ' : Option σ) = none
  opening : (Separator.ofChar? '[' : Option σ) = none
  closing : (Separator.ofChar? ']' : Option σ) = none

theorem layoutApart_sign : LayoutApart Sign := ⟨rfl, rfl, rfl⟩

theorem layoutApart_factorOp : LayoutApart FactorOp := ⟨rfl, rfl, rfl⟩

/-! ## Listings, token by token -/

/-- What a listing has between a token and the tokens after it. -/
def IsGap (gap : Text) : Prop := gap = [] ∨ gap = [' ']

/-- A token is shown in front of the others, with a gap between them. -/
theorem exists_listing_cons (token : Token σ) (tokens : List (Token σ)) :
    ∃ gap, IsGap gap ∧ listing (token :: tokens) = shown token ++ gap ++ listing tokens := by
  cases tokens with
  | nil => exact ⟨[], Or.inl rfl, by simp [listing]⟩
  | cons next tokens => exact ⟨[' '], Or.inr rfl, by simp [listing]⟩

/-- A listing in which no piece comes first begins with an operator, if with anything. -/
theorem endsPiece_listing (h : ¬ StartsWithPiece tokens) : EndsPiece σ (listing tokens) := by
  cases tokens with
  | nil => simp [EndsPiece, listing]
  | cons token tokens =>
    cases token with
    | op o =>
      obtain ⟨gap, -, hlisting⟩ := exists_listing_cons (op o) tokens
      rw [hlisting]
      exact endsPiece_symbol_cons o _
    | piece text => exact absurd startsWithPiece_piece_cons h

/-! ## Opening brackets -/

/-- What is shown of a piece is in the outermost brackets, whatever brackets the piece holds. -/
theorem bracketed_shown (text : Text) {gap : Text} (hgap : IsGap gap) :
    bracketed (shown (piece text : Token σ) ++ gap) = text := by
  have hdrop : (text ++ [']'] ++ gap).rdropWhile (· ≠ ']') = text ++ [']'] := by
    rcases hgap with rfl | rfl
    · simp
    · rw [List.rdropWhile_concat_pos _ _ _ (by decide)]
      simp
  calc bracketed (shown (piece text : Token σ) ++ gap)
      = ((text ++ [']'] ++ gap).rdropWhile (· ≠ ']')).dropLast := by simp [bracketed, shown]
    _ = text := by rw [hdrop, List.dropLast_concat]

/-- A part without an operator is one token, of which the brackets are opened. -/
theorem unlisted_of_no_operator (h : ∀ c ∈ text, (Separator.ofChar? c : Option σ) = none) :
    unlisted σ text = bracketed text := by
  by_cases hne : text = []
  · rw [hne]
    rfl
  · rw [unlisted, split_piece ⟨hne, h⟩]
    exact List.append_nil _

/-! ## Reading back -/

theorem unlisted_symbol_cons (o : σ) (rest : Text) :
    unlisted σ (Separator.symbol o :: rest) = Separator.symbol o :: unlisted σ rest := by
  rw [unlisted, split_cons, prepend_symbol]
  rfl

/-- What stands before an operator is read apart from the rest. -/
theorem unlisted_append (hrest : EndsPiece σ rest) :
    unlisted σ (text ++ rest) = unlisted σ text ++ unlisted σ rest := by
  rw [unlisted, split_append hrest, List.flatMap_append]
  rfl

/-- A gap stands outside all brackets. -/
theorem unlisted_gap_append (hσ : LayoutApart σ) {gap : Text} (hgap : IsGap gap) (text : Text) :
    unlisted σ (gap ++ text) = unlisted σ text := by
  rcases hgap with rfl | rfl
  · rfl
  rw [unlisted, unlisted, List.singleton_append, split_cons]
  by_cases hstart : StartsWithPiece (split (σ := σ) text)
  · obtain ⟨part, tokens, htokens⟩ := hstart
    rw [htokens, prepend_piece hσ.space]
    rfl
  · rw [prepend_of_not_startsWithPiece hσ.space hstart]
    rfl

/-- A piece is read from the brackets that it is shown in. -/
theorem unlisted_shown (hσ : LayoutApart σ) (hpiece : IsPiece σ text) {gap : Text}
    (hgap : IsGap gap) : unlisted σ (shown (piece text : Token σ) ++ gap) = text := by
  have hnone : ∀ c ∈ shown (piece text : Token σ) ++ gap,
      (Separator.ofChar? c : Option σ) = none := by
    intro c hc
    have hchar : c ∈ text ∨ c = ' ' ∨ c = '[' ∨ c = ']' := by
      rcases hgap with rfl | rfl <;> grind [shown]
    rcases hchar with htext | rfl | rfl | rfl
    · exact hpiece.2 c htext
    · exact hσ.space
    · exact hσ.opening
    · exact hσ.closing
  rw [unlisted_of_no_operator hnone, bracketed_shown text hgap]

/-- The listing of a canonical list of tokens is read as the text that they write. -/
theorem unlisted_listing (hσ : LayoutApart σ) (h : Canonical tokens) :
    unlisted σ (listing tokens) = concat tokens := by
  induction tokens with
  | nil => rfl
  | cons token tokens ih =>
    obtain ⟨gap, hgap, hlisting⟩ := exists_listing_cons token tokens
    rw [hlisting]
    cases token with
    | op o =>
      calc unlisted σ (Separator.symbol o :: (gap ++ listing tokens))
          = Separator.symbol o :: unlisted σ (listing tokens) := by
            rw [unlisted_symbol_cons, unlisted_gap_append hσ hgap]
        _ = Separator.symbol o :: concat tokens := by rw [ih (canonical_op_cons_iff.1 h)]
    | piece text =>
      -- no piece follows, so an operator or the end closes the part with the brackets
      obtain ⟨hpiece, htokens, hstart⟩ := canonical_piece_cons_iff.1 h
      rw [unlisted_append (endsPiece_listing hstart), unlisted_shown hσ hpiece hgap, ih htokens]
      rfl

/-- The text is read back from the listing of its tokens. -/
theorem unlisted_listing_split (hσ : LayoutApart σ) (text : Text) :
    unlisted σ (listing (split (σ := σ) text)) = text := by
  rw [unlisted_listing hσ (canonical_split text), concat_split]

/-- Texts with the same listing are the same. -/
theorem listing_split_injective (hσ : LayoutApart σ) :
    Function.Injective fun text => listing (split (σ := σ) text) :=
  Function.LeftInverse.injective (unlisted_listing_split hσ)

/-- The listing of its tokens tells which text was split, both at signs and at factor operators. -/
theorem listing_split_eq_iff (text other : Text) :
    (listing (split (σ := Sign) text) = listing (split (σ := Sign) other) ↔ text = other) ∧
      (listing (split (σ := FactorOp) text) = listing (split (σ := FactorOp) other) ↔
        text = other) :=
  ⟨(listing_split_injective layoutApart_sign).eq_iff,
    (listing_split_injective layoutApart_factorOp).eq_iff⟩

/-- Other lists of tokens can be shown alike: two pieces side by side, and one piece that holds the
brackets between them. -/
example : listing [piece "3".toList, (piece "4".toList : Token Sign)] =
    listing [(piece "3] [4".toList : Token Sign)] := by decide

end FourFunction.Token
