import FourFunction.Expression.Value
import FourFunction.Journal.Logged

/-!
# Evaluation with a journal

Evaluating an expression computes its value and keeps a journal of how it was split: one record
for the split into signs and terms, then one for each term, written before the term is reduced.
After the first term that fails there are no more. The main statement, `value_evaluate`, says that
the journal changes nothing: evaluation gives the value of the expression.
-/

namespace FourFunction

/-- Computations that may be refused, with a journal that is kept also when they are. -/
abbrev Evaluation := ExceptT EvalError Logged

/-- Takes the next token into a sum. A term is recorded before it is reduced. -/
def RunningSum.step (sum : RunningSum) (token : Token Sign) : Evaluation RunningSum := do
  match token with
  | .op _ => pure ()
  | .piece term => record (.termSplit term (Token.split term))
  sum.next token

/-- Evaluates a text in the alphabet of expressions. -/
def evaluateSum (text : Text) : Evaluation Binary64 := do
  let tokens : List (Token Sign) := Token.split text
  record (.sumSplit tokens)
  let sum ← tokens.foldlM RunningSum.step {}
  sum.result

/-- Evaluates an expression, with its journal. -/
def evaluate (text : Text) : Logged (Except EvalError Binary64) :=
  match alphabetError? text with
  | some e => pure (.error e)
  | none => (evaluateSum text).run

/-- A step comes to what the token adds to the sum. -/
@[simp]
theorem RunningSum.value_step (sum : RunningSum) (token : Token Sign) :
    (sum.step token).run.value = sum.next token := by
  cases token <;> rfl

/-- A run of steps comes to what the tokens add to the sum. -/
theorem RunningSum.value_foldlM_step (tokens : List (Token Sign)) (sum : RunningSum) :
    (tokens.foldlM RunningSum.step sum).run.value = tokens.foldlM RunningSum.next sum := by
  induction tokens generalizing sum with
  | nil => rfl
  | cons token rest ih =>
    simp only [List.foldlM_cons, ExceptT.run_bind, Logged.value_bind, RunningSum.value_step]
    cases sum.next token with
    | error e => rfl
    | ok next => exact ih next

/-- The journal changes nothing: evaluation gives the value of the expression. -/
@[simp]
theorem value_evaluate (text : Text) : (evaluate text).value = valueOf text := by
  unfold evaluate valueOf
  cases alphabetError? text with
  | some e => rfl
  | none =>
    have steps := RunningSum.value_foldlM_step (Token.split text) {}
    change (ExceptT.run (List.foldlM RunningSum.step {} (Token.split text) >>= fun sum => _)).value
      = sumOf _
    rw [sumOf, ← steps, ExceptT.run_bind, Logged.value_bind]
    cases (List.foldlM RunningSum.step {} (Token.split text)).run.value <;> rfl

end FourFunction
