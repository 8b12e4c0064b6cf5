import FourFunction.Text

/-!
# Levels and thresholds

How much detail a record is, and how much detail is kept.
-/

namespace FourFunction

/-- How much detail a record is, from least to most. -/
inductive Level where
  /-- A failure. -/
  | error
  /-- Something suspicious. -/
  | warn
  /-- What the user would want to know. -/
  | info
  /-- What a developer would want to know. -/
  | debug
  /-- Every step. -/
  | trace
deriving DecidableEq, Repr

namespace Level

/-- The place of a level, from one for the least detail to five for the most. -/
def verbosity : Level → Nat
  | error => 1
  | warn => 2
  | info => 3
  | debug => 4
  | trace => 5

/-- The name of a level in capitals, as a journal shows it. -/
def name : Level → String
  | error => "ERROR"
  | warn => "WARN"
  | info => "INFO"
  | debug => "DEBUG"
  | trace => "TRACE"

end Level

/-- The most detail that is kept: nothing at all, or records up to a level. -/
inductive Threshold where
  /-- Nothing is kept. -/
  | off
  /-- Records of at most this much detail are kept. -/
  | upTo (level : Level)
deriving DecidableEq, Repr

namespace Threshold

/-- A record of the given level is kept. -/
def keeps : Threshold → Level → Bool
  | off, _ => false
  | upTo most, level => level.verbosity ≤ most.verbosity

/-- All thresholds with their names, in order: a threshold's place is its number. -/
def named : List (String × Threshold) := [
  ("off", off), ("error", upTo .error), ("warn", upTo .warn), ("info", upTo .info),
  ("debug", upTo .debug), ("trace", upTo .trace)]

/-- The threshold of a number, which a plus sign may precede. -/
def ofNumber? (word : Text) : Option Threshold :=
  let digits := if word.head? = some '+' then word.tail else word
  if digits ≠ [] ∧ digits.all Char.isDigit then
    named[Nat.ofDigitChars 10 digits 0]?.map Prod.snd
  else none

/-- The threshold of a word: its number, or its name in any case. -/
def ofText? (word : Text) : Option Threshold :=
  ofNumber? word <|> named.lookup (String.ofList (word.map Char.toLower))

end Threshold

end FourFunction
