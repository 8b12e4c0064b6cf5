import FourFunction.Operator
import FourFunction.Text

/-!
# Why an expression is refused

One constructor for each cause. The user sees none of this, only that there was an error; the
wording is for the journal.
-/

namespace FourFunction

/-- Why an expression has no value. -/
inductive EvalError where
  /-- The expression has no characters. -/
  | empty
  /-- The first character outside the alphabet of expressions, and how many bytes of UTF-8 stand
  before it. -/
  | unexpectedChar (c : Char) (offset : Nat)
  /-- An operator that misses a factor beside it, or the last of signs without any term. -/
  | missingOperand (o : Operator)
  /-- A factor that is no literal. -/
  | badLiteral (text : Text)
  /-- A division by a factor that is read as zero. -/
  | divisionByZero
  /-- The value is not finite. -/
  | overflow
deriving DecidableEq, Repr

namespace EvalError

/-- The wording of an error. -/
def message : EvalError → Text
  | empty => "Entrée vide".toList
  | unexpectedChar c offset =>
    "caractère inattendu: '".toList ++ c :: "' (position ".toList ++ Nat.toDigits 10 offset ++ [')']
  | missingOperand o => "opérande manquant autour de '".toList ++ [o.symbol, '\'']
  | badLiteral text => "nombre invalide: \"".toList ++ text ++ ['"']
  | divisionByZero => "division par zéro".toList
  | overflow => "dépassement de capacité (résultat non fini)".toList

end EvalError

end FourFunction
