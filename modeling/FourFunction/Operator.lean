/-!
# Operators

The four operators on two levels: a sign adds or subtracts a term, a factor operator multiplies or
divides within one. An operator is written as one character.
-/

namespace FourFunction

/-- What joins the terms of a sum. -/
inductive Sign where
  /-- Adds the next term. -/
  | plus
  /-- Subtracts the next term. -/
  | minus
deriving DecidableEq, Repr

/-- What joins the factors of a term. -/
inductive FactorOp where
  /-- Multiplies by the next factor. -/
  | times
  /-- Divides by the next factor. -/
  | divide
deriving DecidableEq, Repr

/-- Any of the four operators. -/
inductive Operator where
  /-- An operator between terms. -/
  | sign (s : Sign)
  /-- An operator between factors. -/
  | factor (o : FactorOp)
deriving DecidableEq, Repr

/-- A kind of operator that separates pieces of text: every operator is one character, and is read
from that character alone. -/
class Separator (σ : Type) where
  /-- The character that stands for an operator. -/
  symbol : σ → Char
  /-- The operator that a character stands for. -/
  ofChar? : Char → Option σ
  /-- A character is read as an operator exactly when it is that operator's symbol. -/
  ofChar?_eq_some_iff : ∀ {c : Char} {o : σ}, ofChar? c = some o ↔ c = symbol o

/-- An operator is read back from its symbol. -/
@[simp]
theorem Separator.ofChar?_symbol {σ : Type} [Separator σ] (o : σ) :
    ofChar? (symbol o) = some o :=
  ofChar?_eq_some_iff.2 rfl

namespace Sign

/-- The character of a sign. -/
def symbol : Sign → Char
  | plus => '+'
  | minus => '-'

/-- The sign of a character. -/
def ofChar? (c : Char) : Option Sign :=
  if c = '+' then some plus else if c = '-' then some minus else none

/-- A character is a sign exactly when it is that sign's symbol. -/
theorem ofChar?_eq_some_iff {c : Char} {s : Sign} : ofChar? c = some s ↔ c = s.symbol := by
  cases s <;> grind [ofChar?, Sign.symbol]

instance : Separator Sign := ⟨symbol, ofChar?, ofChar?_eq_some_iff⟩

end Sign

namespace FactorOp

/-- The character of a factor operator. -/
def symbol : FactorOp → Char
  | times => '*'
  | divide => '/'

/-- The factor operator of a character. -/
def ofChar? (c : Char) : Option FactorOp :=
  if c = '*' then some times else if c = '/' then some divide else none

/-- A character is a factor operator exactly when it is that operator's symbol. -/
theorem ofChar?_eq_some_iff {c : Char} {o : FactorOp} : ofChar? c = some o ↔ c = o.symbol := by
  cases o <;> grind [ofChar?, FactorOp.symbol]

instance : Separator FactorOp := ⟨symbol, ofChar?, ofChar?_eq_some_iff⟩

end FactorOp

namespace Operator

/-- The character of an operator. -/
def symbol : Operator → Char
  | sign s => s.symbol
  | factor o => o.symbol

/-- The operator of a character. -/
def ofChar? (c : Char) : Option Operator :=
  (Sign.ofChar? c).map sign <|> (FactorOp.ofChar? c).map factor

end Operator

end FourFunction
