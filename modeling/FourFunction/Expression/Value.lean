import FourFunction.Expression.Term

/-!
# The value of an expression

An expression is a flat sum of terms, without parentheses: precedence comes from reducing a term
as a whole before it is added. The sum starts from positive zero and takes each term with the last
sign read before it, so that of several signs in a row the last one counts and a sign at the end
counts for nothing. The first term that fails decides the error. Overflow is tested once, on the
final sum.
-/

namespace FourFunction

/-- A digit, the point or an operator: the alphabet of expressions. -/
def isExpressionChar (c : Char) : Bool :=
  c.isDigit || c == '.' || (Operator.ofChar? c).isSome

/-- The error of a text that cannot be an expression before any of it is read as one: there is no
text, or it has a character outside the alphabet. -/
def alphabetError? (text : Text) : Option EvalError :=
  match text.dropWhile isExpressionChar with
  | c :: _ => some (.unexpectedChar c (utf8Length (text.takeWhile isExpressionChar)))
  | [] => if text = [] then some .empty else none

/-- A sum that is being added up, term by term. -/
structure RunningSum where
  /-- The sum so far. -/
  total : Binary64 := Binary64.zero
  /-- The last sign read, which the next term takes. -/
  sign : Sign := .plus
  /-- That sign, as long as no term has taken it. -/
  pending : Option Sign := none
  /-- At least one term was added. -/
  hasTerm : Bool := false
deriving DecidableEq

namespace RunningSum

/-- Keeps a sign for the next term. -/
def readSign (sum : RunningSum) (sign : Sign) : RunningSum :=
  { sum with sign, pending := some sign }

/-- Adds a term of the given value, or subtracts it, as the last sign says. -/
def addTerm (sum : RunningSum) (value : Binary64) : RunningSum :=
  match sum.sign with
  | .plus => { sum with total := sum.total + value, pending := none, hasTerm := true }
  | .minus => { sum with total := sum.total - value, pending := none, hasTerm := true }

/-- Takes the next token into a sum. -/
def next (sum : RunningSum) : Token Sign → Except EvalError RunningSum
  | .op sign => .ok (sum.readSign sign)
  | .piece term => do
    let value ← Term.value term
    return sum.addTerm value

/-- Why a sum without a term has no value: the pending sign misses its term. Without one there were
no tokens at all, but a text that is split has some. -/
def noTerm (sum : RunningSum) : EvalError :=
  match sum.pending with
  | some sign => .missingOperand (.sign sign)
  | none => .empty

/-- The value of a finished sum. -/
def result (sum : RunningSum) : Except EvalError Binary64 :=
  if !sum.hasTerm then .error sum.noTerm
  else if sum.total.isFinite then .ok sum.total
  else .error .overflow

/-- A sign keeps the sum and is the last one read. -/
@[simp]
theorem next_op (sum : RunningSum) (sign : Sign) : sum.next (.op sign) = .ok (sum.readSign sign) :=
  rfl

/-- A sign takes the place of the one before it. -/
@[simp]
theorem readSign_readSign (sum : RunningSum) (first last : Sign) :
    (sum.readSign first).readSign last = sum.readSign last :=
  rfl

/-- Only a finite double is the value of a sum. -/
theorem isFinite_of_result {sum : RunningSum} {x : Binary64} (h : sum.result = .ok x) :
    x.isFinite = true := by
  grind [result]

end RunningSum

/-- The value of the tokens of an expression. -/
def sumOf (tokens : List (Token Sign)) : Except EvalError Binary64 := do
  let sum ← tokens.foldlM RunningSum.next {}
  sum.result

/-- The value of an expression, or why it has none. -/
def valueOf (text : Text) : Except EvalError Binary64 :=
  match alphabetError? text with
  | some e => .error e
  | none => sumOf (Token.split text)

end FourFunction
