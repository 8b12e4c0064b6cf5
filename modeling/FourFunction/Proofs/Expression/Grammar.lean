import FourFunction.Expression.Value
import FourFunction.Proofs.Decimal.Digits
import FourFunction.Proofs.Token

/-!
# The grammar of expressions

With `d` a digit, a sum is `S* T (S+ T)* S*` with `S` a sign, a term is `T = F (O F)*` with `O` a
factor operator, and a factor is `F = d+`, `d+.d*` or `.d+`. The syntax trees here can only be
built in that shape. Each has its text, the tokens of that text, and a value: terms are reduced
from left to right, then they are added to zero or subtracted from left to right, as the last sign
in front of each says.

## Main results

* `Product.split_text`, `Sum.split_text`: the text of a tree is split into the tree's own tokens.
-/

namespace FourFunction

/-! ## The trees -/

/-- Digits with at most one point before, between or after them, and at least one digit. -/
structure Factor where
  whole : Text
  /-- The digits after the point; none if there is no point. -/
  fraction : Option Text
  allDigits_whole : AllDigits whole
  allDigits_fraction : ∀ digits ∈ fraction, AllDigits digits
  ne_nil : whole ++ fraction.getD [] ≠ []

/-- Factors joined by factor operators: the first one, and the others each with its operator. -/
structure Product where
  first : Factor
  rest : List (FactorOp × Factor)

/-- A term with signs in front, of which only the last counts. -/
structure SignedTerm where
  ignored : List Sign
  sign : Sign
  term : Product

/-- Terms with signs between them, and perhaps in front of the first and after the last. -/
structure Sum where
  lead : List Sign
  first : Product
  rest : List SignedTerm
  trailing : List Sign

/-! ## Their text -/

/-- The text of a factor: its digits, with the point in its place. -/
def Factor.text (f : Factor) : Text := f.whole ++ f.fraction.elim [] fun digits => '.' :: digits

def Product.stepText (step : FactorOp × Factor) : Text := step.1.symbol :: step.2.text

/-- The text of a term: its factors, each but the first behind its operator. -/
def Product.text (p : Product) : Text := p.first.text ++ p.rest.flatMap stepText

/-- The text of a term with all signs in front of it. -/
def SignedTerm.text (t : SignedTerm) : Text :=
  t.ignored.map Sign.symbol ++ t.sign.symbol :: t.term.text

/-- The text of a sum, from its first sign to its last. -/
def Sum.text (s : Sum) : Text :=
  s.lead.map Sign.symbol ++ s.first.text ++ s.rest.flatMap SignedTerm.text ++
    s.trailing.map Sign.symbol

/-! ## Their value -/

/-- The exact value of a factor: its digits as a whole number, divided by a power of ten. -/
def Factor.value (f : Factor) : ℚ :=
  digitsValue (f.whole ++ f.fraction.getD []) / 10 ^ (f.fraction.getD []).length

/-- The double that a factor is read as. -/
def Factor.double (f : Factor) : Binary64 := Binary64.round false f.value

/-- What a factor operator does with two doubles. -/
def FactorOp.eval : FactorOp → Binary64 → Binary64 → Binary64
  | times, x, y => x * y
  | divide, x, y => x / y

/-- What a sign does with the total so far and a term. -/
def Sign.eval : Sign → Binary64 → Binary64 → Binary64
  | plus, x, y => x + y
  | minus, x, y => x - y

/-- Multiplies and divides from left to right. -/
def Product.applySteps (x : Binary64) (steps : List (FactorOp × Factor)) : Binary64 :=
  steps.foldl (fun sofar step => step.1.eval sofar step.2.double) x

/-- The value of a term, reduced from left to right. -/
def Product.value (p : Product) : Binary64 := applySteps p.first.double p.rest

/-- The sum starts from positive zero, and its first term is added if no sign is in front. -/
def Sum.value (s : Sum) : Binary64 :=
  s.rest.foldl (fun total t => t.sign.eval total t.term.value)
    ((s.lead.getLast?.getD .plus).eval Binary64.zero s.first.value)

/-- No factor after a division sign is read as zero. -/
def Product.NoZeroDivisor (steps : List (FactorOp × Factor)) : Prop :=
  ∀ step ∈ steps, step.1 = .divide → step.2.double.isZero = false

/-- No term divides by a factor that is read as zero. -/
structure Sum.NoZeroDivisor (s : Sum) : Prop where
  first : Product.NoZeroDivisor s.first.rest
  rest : ∀ t ∈ s.rest, Product.NoZeroDivisor t.term.rest

/-! ## The alphabets -/

/-- A character of a factor. -/
def IsFactorChar (c : Char) : Prop := c.isDigit = true ∨ c = '.'

/-- A character of a term. -/
def IsTermChar (c : Char) : Prop := IsFactorChar c ∨ ∃ o : FactorOp, c = o.symbol

/-- A character of an expression: a digit, the point, or one of the four operators. -/
def InAlphabet (c : Char) : Prop := IsTermChar c ∨ ∃ s : Sign, c = s.symbol

section Alphabets

variable {c : Char}

/-- A character of a factor is no factor operator, so that a term is not cut inside a factor. -/
theorem IsFactorChar.ofChar?_factorOp (h : IsFactorChar c) : FactorOp.ofChar? c = none := by
  rcases h with h | rfl
  · rw [isDigit_iff_le] at h
    rw [FactorOp.ofChar?, if_neg, if_neg] <;> rintro rfl <;> simp at h
  · rfl

/-- A character of a term is no sign, so that a sum is not cut inside a term. -/
theorem IsTermChar.ofChar?_sign (h : IsTermChar c) : Sign.ofChar? c = none := by
  rcases h with (h | rfl) | ⟨o, rfl⟩
  · rw [isDigit_iff_le] at h
    rw [Sign.ofChar?, if_neg, if_neg] <;> rintro rfl <;> simp at h
  · rfl
  · cases o <;> rfl

/-- A character of a term that is no factor operator is one of a factor. -/
theorem IsTermChar.isFactorChar (h : IsTermChar c) (ho : FactorOp.ofChar? c = none) :
    IsFactorChar c := by
  rcases h with h | ⟨o, rfl⟩
  · exact h
  · cases o <;> cases ho

/-- A character of an expression that is no sign is one of a term. -/
theorem InAlphabet.isTermChar (h : InAlphabet c) (hs : Sign.ofChar? c = none) : IsTermChar c := by
  rcases h with h | ⟨s, rfl⟩
  · exact h
  · cases s <;> cases hs

end Alphabets

/-! ## Factors -/

namespace Factor

variable {f : Factor}

/-- A factor is written with digits and points. -/
theorem isFactorChar (f : Factor) : ∀ c ∈ f.text, IsFactorChar c := by
  intro c hc
  obtain ⟨whole, fraction, hwhole, hfraction, _⟩ := f
  cases fraction with
  | none =>
    rw [text, Option.elim_none, List.append_nil] at hc
    exact Or.inl (hwhole c hc)
  | some digits =>
    rw [text, Option.elim_some, List.mem_append, List.mem_cons] at hc
    rcases hc with hc | hc | hc
    · exact Or.inl (hwhole c hc)
    · exact Or.inr hc
    · exact Or.inl (hfraction digits rfl c hc)

/-- A factor has at least one digit. -/
theorem text_ne_nil (f : Factor) : f.text ≠ [] := by
  obtain ⟨whole, fraction, _, _, hne⟩ := f
  cases fraction with
  | none => simpa [text] using hne
  | some digits => simp [text]

/-- What follows the point is digits, or nothing where there is no point. -/
theorem allDigits_fraction_getD (f : Factor) : AllDigits (f.fraction.getD []) := by
  obtain ⟨_, fraction, _, hfraction, _⟩ := f
  cases fraction with
  | none => exact AllDigits.nil
  | some digits => exact hfraction digits rfl

/-- A factor is one piece between factor operators. -/
theorem isPiece (f : Factor) : Token.IsPiece FactorOp f.text :=
  ⟨f.text_ne_nil, fun c hc => (f.isFactorChar c hc).ofChar?_factorOp⟩

end Factor

/-! ## Products -/

namespace Product

/-- The tokens of an operator and the factor after it. -/
def stepTokens (step : FactorOp × Factor) : List (Token FactorOp) :=
  [.op step.1, .piece step.2.text]

/-- The tokens of a term: a piece for each factor, an operator before each but the first. -/
def tokens (p : Product) : List (Token FactorOp) :=
  .piece p.first.text :: p.rest.flatMap stepTokens

theorem concat_stepTokens (step : FactorOp × Factor) :
    Token.concat (stepTokens step) = stepText step := by
  rw [stepText, ← List.append_nil step.2.text]
  rfl

/-- The tokens of the steps write their text. -/
theorem concat_steps (steps : List (FactorOp × Factor)) :
    Token.concat (steps.flatMap stepTokens) = steps.flatMap stepText := by
  rw [Token.concat, List.flatMap_assoc]
  exact congrArg steps.flatMap (funext concat_stepTokens)

/-- The tokens of a term write its text. -/
theorem concat_tokens (p : Product) : Token.concat p.tokens = p.text := by
  rw [text, ← concat_steps]
  rfl

/-- The tokens of the steps start with an operator. -/
theorem not_startsWithPiece_steps {steps : List (FactorOp × Factor)} :
    ¬ Token.StartsWithPiece (steps.flatMap stepTokens) := by
  cases steps <;> simp [stepTokens]

/-- No two factors stand side by side in the steps. -/
theorem canonical_steps (steps : List (FactorOp × Factor)) :
    Token.Canonical (steps.flatMap stepTokens) := by
  induction steps with
  | nil => exact Token.canonical_nil
  | cons step steps ih =>
    rw [List.flatMap_cons]
    exact Token.canonical_op_cons_iff.2
      (Token.canonical_piece_cons_iff.2 ⟨step.2.isPiece, ih, not_startsWithPiece_steps⟩)

/-- The tokens of a term are what a split can give. -/
theorem canonical_tokens (p : Product) : Token.Canonical p.tokens :=
  Token.canonical_piece_cons_iff.2
    ⟨p.first.isPiece, canonical_steps p.rest, not_startsWithPiece_steps⟩

/-- The text of a product is split into its factors and their operators. -/
theorem split_text (p : Product) : Token.split p.text = p.tokens :=
  Token.split_eq_iff.2 ⟨p.canonical_tokens, p.concat_tokens⟩

/-- A term is written with the characters of factors and factor operators. -/
theorem isTermChar (p : Product) : ∀ c ∈ p.text, IsTermChar c := by
  intro c hc
  rw [text, List.mem_append, List.mem_flatMap] at hc
  rcases hc with hc | ⟨⟨o, f⟩, _, hc⟩
  · exact Or.inl (p.first.isFactorChar c hc)
  · rcases List.mem_cons.1 hc with rfl | hc
    · exact Or.inr ⟨o, rfl⟩
    · exact Or.inl (f.isFactorChar c hc)

/-- A term is one piece between signs. -/
theorem isPiece (p : Product) : Token.IsPiece Sign p.text := by
  refine ⟨?_, fun c hc => (p.isTermChar c hc).ofChar?_sign⟩
  rw [text]
  exact List.append_ne_nil_of_left_ne_nil p.first.text_ne_nil _

end Product

/-! ## Sums -/

/-- Signs are tokens of one character each. -/
theorem concat_map_op (signs : List Sign) :
    Token.concat (signs.map Token.op) = signs.map Sign.symbol := by
  rw [Token.concat, List.flatMap_map, List.map_eq_flatMap]
  rfl

/-- The tokens of a term with signs: an operator for each sign, then one piece. -/
def SignedTerm.tokens (t : SignedTerm) : List (Token Sign) :=
  t.ignored.map .op ++ [.op t.sign, .piece t.term.text]

theorem SignedTerm.concat_tokens (t : SignedTerm) : Token.concat t.tokens = t.text := by
  rw [tokens, Token.concat_append, concat_map_op, text]
  simp [Token.concat, Token.chars]
  rfl

namespace Sum

/-- The tokens of a sum. -/
def tokens (s : Sum) : List (Token Sign) :=
  s.lead.map .op ++ .piece s.first.text :: s.rest.flatMap SignedTerm.tokens ++ s.trailing.map .op

/-- The tokens of a sum write its text. -/
theorem concat_tokens (s : Sum) : Token.concat s.tokens = s.text := by
  have hrest :
      Token.concat (s.rest.flatMap SignedTerm.tokens) = s.rest.flatMap SignedTerm.text := by
    rw [Token.concat, List.flatMap_assoc]
    exact congrArg s.rest.flatMap (funext SignedTerm.concat_tokens)
  have hfirst : Token.concat (.piece s.first.text :: s.rest.flatMap SignedTerm.tokens) =
      s.first.text ++ Token.concat (s.rest.flatMap SignedTerm.tokens) := rfl
  rw [tokens, Token.concat_append, Token.concat_append, concat_map_op, concat_map_op, hfirst,
    hrest, ← List.append_assoc, text]

/-- After a term come signs, or nothing. -/
theorem not_startsWithPiece_rest {rest : List SignedTerm} {trailing : List Sign} :
    ¬ Token.StartsWithPiece (rest.flatMap SignedTerm.tokens ++ trailing.map Token.op) := by
  intro h
  -- the signs of the next term, or those at the end, come first
  cases rest with
  | nil => cases trailing <;> simp at h
  | cons t rest =>
    rw [List.flatMap_cons, SignedTerm.tokens, List.append_assoc, List.append_assoc] at h
    exact Token.not_startsWithPiece_op_cons (Token.startsWithPiece_map_op_append h)

/-- After the first term no two terms stand side by side. -/
theorem canonical_rest (rest : List SignedTerm) (trailing : List Sign) :
    Token.Canonical (rest.flatMap SignedTerm.tokens ++ trailing.map Token.op) := by
  induction rest with
  | nil =>
    rw [List.flatMap_nil, List.nil_append, ← List.append_nil (trailing.map _)]
    exact Token.canonical_map_op_append_iff.2 Token.canonical_nil
  | cons t rest ih =>
    rw [List.flatMap_cons, SignedTerm.tokens, List.append_assoc, List.append_assoc]
    refine Token.canonical_map_op_append_iff.2 (Token.canonical_op_cons_iff.2 ?_)
    exact Token.canonical_piece_cons_iff.2 ⟨t.term.isPiece, ih, not_startsWithPiece_rest⟩

/-- The tokens of a sum are what a split can give. -/
theorem canonical_tokens (s : Sum) : Token.Canonical s.tokens := by
  rw [tokens, List.append_assoc, List.cons_append]
  refine Token.canonical_map_op_append_iff.2 ?_
  exact Token.canonical_piece_cons_iff.2
    ⟨s.first.isPiece, canonical_rest s.rest s.trailing, not_startsWithPiece_rest⟩

/-- The text of a sum is split into its terms and their signs. -/
theorem split_text (s : Sum) : Token.split s.text = s.tokens :=
  Token.split_eq_iff.2 ⟨s.canonical_tokens, s.concat_tokens⟩

/-- A sum is written in the alphabet of expressions. -/
theorem inAlphabet (s : Sum) : ∀ c ∈ s.text, InAlphabet c := by
  have hsigns : ∀ signs : List Sign, ∀ c ∈ signs.map Sign.symbol, InAlphabet c := by
    intro signs c hc
    obtain ⟨sign, _, rfl⟩ := List.mem_map.1 hc
    exact Or.inr ⟨sign, rfl⟩
  intro c hc
  simp only [text, List.mem_append, List.mem_flatMap] at hc
  rcases hc with ((hc | hc) | ⟨t, _, hc⟩) | hc
  · exact hsigns _ c hc
  · exact Or.inl (s.first.isTermChar c hc)
  · rw [SignedTerm.text, List.mem_append, List.mem_cons] at hc
    rcases hc with hc | rfl | hc
    · exact hsigns _ c hc
    · exact Or.inr ⟨t.sign, rfl⟩
    · exact Or.inl (t.term.isTermChar c hc)
  · exact hsigns _ c hc

end Sum

end FourFunction
