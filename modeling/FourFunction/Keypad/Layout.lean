import FourFunction.Keypad.Command

/-!
# The keypad

Eighteen buttons in rows of four, the last row incomplete. A button's colours follow from its
command; its place follows from the order of the buttons.
-/

namespace FourFunction

/-- A colour, by its three components. -/
structure Colour where
  /-- The share of red. -/
  red : UInt8
  /-- The share of green. -/
  green : UInt8
  /-- The share of blue. -/
  blue : UInt8
deriving DecidableEq, Repr

namespace Colour

/-- Black. -/
def black : Colour := ⟨0, 0, 0⟩

/-- White. -/
def white : Colour := ⟨255, 255, 255⟩

/-- Pure blue. -/
def pureBlue : Colour := ⟨0, 0, 255⟩

/-- Light grey. -/
def lightGrey : Colour := ⟨200, 200, 200⟩

/-- Dark grey. -/
def darkGrey : Colour := ⟨150, 150, 150⟩

end Colour

/-- A button of the keypad. -/
structure Button where
  /-- What is written on it. -/
  label : String
  /-- What a click on it does. -/
  command : Command
deriving DecidableEq, Repr

namespace Button

/-- The colour that fills a button: light for digits and deletion, dark for operators, blue for
clearing and calculating. -/
def fill (button : Button) : Colour :=
  match button.command with
  | .digit _ | .delete => .lightGrey
  | .operator _ => .darkGrey
  | .clear | .equals => .pureBlue

/-- The colour of a button's label. -/
def ink (button : Button) : Colour :=
  match button.command with
  | .equals => .white
  | _ => .black

end Button

namespace Keypad

/-- The number of buttons in a full row. -/
def columns : Nat := 4

/-- The buttons, row by row. -/
def buttons : List Button := [
  ⟨"7", .digit '7'⟩, ⟨"8", .digit '8'⟩, ⟨"9", .digit '9'⟩, ⟨"/", .operator (.factor .divide)⟩,
  ⟨"4", .digit '4'⟩, ⟨"5", .digit '5'⟩, ⟨"6", .digit '6'⟩, ⟨"*", .operator (.factor .times)⟩,
  ⟨"1", .digit '1'⟩, ⟨"2", .digit '2'⟩, ⟨"3", .digit '3'⟩, ⟨"-", .operator (.sign .minus)⟩,
  ⟨"Del", .delete⟩, ⟨"0", .digit '0'⟩, ⟨".", .digit '.'⟩, ⟨"+", .operator (.sign .plus)⟩,
  ⟨"C", .clear⟩, ⟨"=", .equals⟩]

/-- A button and where it stands. -/
structure Place where
  /-- The row, from zero at the top. -/
  row : Nat
  /-- The column, from zero at the left. -/
  column : Nat
  /-- The button there. -/
  button : Button
deriving DecidableEq, Repr

/-- The button with a given label and its place. -/
def place? (label : String) : Option Place :=
  (buttons.zipIdx.find? fun (button, _) => button.label == label).map
    fun (button, i) => ⟨i / columns, i % columns, button⟩

/-- What a click on the button with a given label does. -/
def command? (label : String) : Option Command :=
  (place? label).map (·.button.command)

end Keypad

end FourFunction
