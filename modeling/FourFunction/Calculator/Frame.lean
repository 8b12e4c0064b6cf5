import FourFunction.Calculator.Basic
import FourFunction.Keypad.Layout

/-!
# Frames

The window is drawn frame by frame. A frame has the keyboard's events since the last one and at
most one click. The keyboard's commands come first, then the display is painted, then the click's
command is obeyed, which the next frame paints.
-/

namespace FourFunction

/-- An event of the keyboard. -/
inductive KeyEvent where
  /-- Text was typed. -/
  | typed (text : Text)
  /-- A key went down or up; a key that is held down repeats. -/
  | key (key : Key) (pressed : Bool) (repeated : Bool)
deriving DecidableEq, Repr

namespace KeyEvent

/-- The commands of an event: one for each typed character that has one, and one for a key that
goes down, repeated or not. -/
def commands : KeyEvent → List Command
  | typed text => text.filterMap Command.ofChar?
  | key k pressed _ => if pressed then k.command?.toList else []

end KeyEvent

/-- What happened since the last frame. -/
structure Frame where
  /-- The keyboard's events, in order. -/
  events : List KeyEvent := []
  /-- The label of the clicked button. -/
  click : Option String := none
deriving DecidableEq, Repr

namespace Frame

/-- The commands of the keyboard in a frame. -/
def keyCommands (frame : Frame) : List Command := frame.events.flatMap KeyEvent.commands

/-- The command of the click in a frame, if there is one. -/
def clickCommands (frame : Frame) : List Command := (frame.click.bind Keypad.command?).toList

end Frame

namespace Calculator

/-- What a frame leaves: the text that it painted, and the calculator after it. -/
structure Painted where
  /-- The text that was on the display when the frame was painted. -/
  text : Text
  /-- The calculator at the end of the frame. -/
  after : Calculator
deriving DecidableEq, Repr

/-- Runs one frame. -/
def run (calculator : Calculator) (frame : Frame) : Logged Painted := do
  let typed ← calculator.pressAll frame.keyCommands
  let clicked ← typed.pressAll frame.clickCommands
  return ⟨typed.display, clicked⟩

/-- Runs frames one after the other. -/
def runAll (calculator : Calculator) : List Frame → Logged (List Painted)
  | [] => pure []
  | frame :: rest => do
    let painted ← calculator.run frame
    let others ← painted.after.runAll rest
    return painted :: others

end Calculator

end FourFunction
