import FourFunction.Operator

/-!
# Commands

What the user can tell the calculator to do, whether by a button or by the keyboard.
-/

namespace FourFunction

/-- A command of the user. -/
inductive Command where
  /-- Types a digit or the point. Nothing is checked here: any character can be typed. -/
  | digit (c : Char)
  /-- Types an operator. -/
  | operator (o : Operator)
  /-- Calculates the entry. -/
  | equals
  /-- Empties the entry. -/
  | clear
  /-- Takes away the last character. -/
  | delete
deriving DecidableEq, Repr

namespace Command

/-- The command of a typed character: digits, the point, the four operators and the equals sign
have one, every other character is ignored. -/
def ofChar? (c : Char) : Option Command :=
  if c.isDigit || c == '.' then some (digit c)
  else if c = '=' then some equals
  else (Operator.ofChar? c).map operator

end Command

/-- A key that is not typed text. -/
inductive Key where
  /-- The enter key. -/
  | enter
  /-- The backspace key. -/
  | backspace
  /-- The escape key. -/
  | escape
  /-- Any other key. -/
  | other
deriving DecidableEq, Repr

namespace Key

/-- The key of a name. -/
def ofName (name : String) : Key :=
  if name = "Enter" then enter
  else if name = "Backspace" then backspace
  else if name = "Escape" then escape
  else other

/-- The command of a key when it is pressed: enter calculates, backspace deletes, escape clears,
and every other key is ignored. -/
def command? : Key → Option Command
  | enter => some .equals
  | backspace => some .delete
  | escape => some .clear
  | other => none

end Key

end FourFunction
