import FourFunction.Binary64.Basic
import FourFunction.Expression.Error
import FourFunction.Journal.Level
import FourFunction.Token

/-!
# Journal records

What the calculator writes to its journal, as data: how an expression and each of its terms were
split, and how a calculation ended. The level, the message and the named fields of a record are
functions of it.
-/

namespace FourFunction

/-- The value of a field of a record. -/
inductive FieldValue where
  /-- A text, shown as it is. -/
  | text (text : Text)
  /-- A double, kept exactly. -/
  | double (value : Binary64)
deriving DecidableEq

/-- A record of the journal. -/
inductive Record where
  /-- An expression was split into signs and terms. -/
  | sumSplit (tokens : List (Token Sign))
  /-- A term was split into factor operators and factors, before it was reduced. -/
  | termSplit (term : Text) (tokens : List (Token FactorOp))
  /-- An expression had a value, shown as `shown`. -/
  | calculated (expression : Text) (value : Binary64) (shown : Text)
  /-- An expression had no value. -/
  | refused (expression : Text) (error : EvalError)
deriving DecidableEq

namespace Record

/-- The level of a record: splitting is a step, the end of a calculation is for developers. -/
def level : Record → Level
  | sumSplit _ => .trace
  | termSplit _ _ => .trace
  | calculated _ _ _ => .debug
  | refused _ _ => .debug

/-- The message of a record. -/
def message : Record → String
  | sumSplit _ => "découpe additive"
  | termSplit _ _ => "découpe multiplicative"
  | calculated _ _ _ => "calcul"
  | refused _ _ => "évaluation refusée"

/-- The named fields of a record. -/
def fields : Record → List (String × FieldValue)
  | sumSplit tokens => [("jetons", .text (Token.listing tokens))]
  | termSplit term tokens => [("terme", .text term), ("jetons", .text (Token.listing tokens))]
  | calculated expression value shown =>
    [("expression", .text expression), ("valeur", .double value), ("affichage", .text shown)]
  | refused expression error =>
    [("expression", .text expression), ("erreur", .text error.message)]

end Record

end FourFunction
