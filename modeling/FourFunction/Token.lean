import FourFunction.Operator
import FourFunction.Text

/-!
# Tokens

A text is split at every operator of one kind: a sum into signs and terms, a term into factor
operators and factors. Splitting checks nothing. Two operators in a row have no piece between
them, and a piece is never empty, so the text is the concatenation of its tokens.
-/

namespace FourFunction

/-- A token of a text split at operators of the kind `σ`. -/
inductive Token (σ : Type) where
  /-- An operator. -/
  | op (o : σ)
  /-- The text between two operators. -/
  | piece (text : Text)
deriving DecidableEq, Repr

namespace Token

variable {σ : Type} [Separator σ]

/-- Puts a character in front of split text: an operator is a token of its own, any other
character joins the piece that it touches. -/
def prepend (c : Char) (tokens : List (Token σ)) : List (Token σ) :=
  match Separator.ofChar? c with
  | some o => op o :: tokens
  | none =>
    match tokens with
    | piece text :: rest => piece (c :: text) :: rest
    | rest => piece [c] :: rest

/-- Splits a text at every operator. -/
def split (text : Text) : List (Token σ) :=
  text.foldr prepend []

/-- The text of a token. -/
def chars : Token σ → Text
  | op o => [Separator.symbol o]
  | piece text => text

/-- The text of a list of tokens. -/
def concat (tokens : List (Token σ)) : Text :=
  tokens.flatMap chars

/-- A token as the journal shows it: a piece in square brackets, an operator as it is. -/
def shown : Token σ → Text
  | op o => [Separator.symbol o]
  | piece text => '[' :: text ++ [']']

/-- A list of tokens as the journal shows it, one space between two tokens. -/
def listing (tokens : List (Token σ)) : Text :=
  List.intercalate [' '] (tokens.map shown)

@[simp]
theorem split_nil : split (σ := σ) [] = [] := rfl

/-- Splitting works character by character from the end. -/
@[simp]
theorem split_cons (c : Char) (text : Text) :
    split (σ := σ) (c :: text) = prepend c (split text) := rfl

/-- A character put in front of tokens is put in front of their text. -/
@[simp]
theorem concat_prepend (c : Char) (tokens : List (Token σ)) :
    concat (prepend c tokens) = c :: concat tokens := by
  unfold prepend
  split
  · next o h => simp [concat, chars, Separator.ofChar?_eq_some_iff.1 h]
  · split <;> simp [concat, chars]

/-- A text is the concatenation of its tokens. -/
@[simp]
theorem concat_split (text : Text) : concat (split (σ := σ) text) = text := by
  induction text with
  | nil => rfl
  | cons c rest ih => rw [split_cons, concat_prepend, ih]

end Token

end FourFunction
