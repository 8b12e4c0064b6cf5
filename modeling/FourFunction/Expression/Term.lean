import FourFunction.Binary64.Arithmetic
import FourFunction.Decimal.Literal
import FourFunction.Expression.Error
import FourFunction.Token

/-!
# Terms

A term is factors joined by `*` and `/`, reduced from left to right in doubles. At each operator
the next factor is read first; then a division checks that it is not zero. So the leftmost fault
of a term decides its error.
-/

namespace FourFunction

/-- Reads a factor: the double nearest to the literal. -/
def readFactor (text : Text) : Except EvalError Binary64 :=
  match Literal.ofText? text with
  | some literal => .ok (Binary64.round false literal.value)
  | none => .error (.badLiteral text)

/-- Applies a factor operator. A divisor of zero is refused. -/
def FactorOp.apply : FactorOp → Binary64 → Binary64 → Except EvalError Binary64
  | times, x, y => .ok (x * y)
  | divide, x, y => if y.isZero then .error .divisionByZero else .ok (x / y)

namespace Term

/-- Continues the reduction of a term that has the value `sofar` up to the given tokens. In a text
that was split, an operator stands between two factors, so that the last case does not arise. -/
def reduceFrom (sofar : Binary64) : List (Token FactorOp) → Except EvalError Binary64
  | [] => .ok sofar
  | .op o :: .piece text :: rest => do
    let factor ← readFactor text
    let product ← o.apply sofar factor
    reduceFrom product rest
  | .op o :: _ => .error (.missingOperand (.factor o))
  | .piece text :: _ => .error (.badLiteral text)

/-- Reduces the tokens of a term, of which there is one at least. -/
def reduce : List (Token FactorOp) → Except EvalError Binary64
  | [] => .error .empty
  | .op o :: _ => .error (.missingOperand (.factor o))
  | .piece text :: rest => do
    let factor ← readFactor text
    reduceFrom factor rest

/-- The value of a term. -/
def value (text : Text) : Except EvalError Binary64 :=
  reduce (Token.split text)

end Term

end FourFunction
