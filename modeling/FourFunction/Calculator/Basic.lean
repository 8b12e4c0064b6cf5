import FourFunction.Entry
import FourFunction.Keypad.Command

/-!
# The calculator

An entry and the text on the display. Every command but calculating shows the entry; calculating
shows the result, or the word `Error` while the entry stays as it was. Only calculating writes to
the journal.
-/

namespace FourFunction

/-- The text on the display when a calculation is refused. -/
def errorText : Text := "Error".toList

/-- The state of the calculator. -/
@[ext]
structure Calculator where
  /-- The expression being typed. -/
  entry : Entry := {}
  /-- The text on the display. -/
  display : Text := []
deriving DecidableEq, Repr, Inhabited

namespace Calculator

/-- A calculator whose display shows its entry. -/
def showing (entry : Entry) : Calculator := ⟨entry, entry.text⟩

/-- Types text at the end of the entry. -/
def type (calculator : Calculator) (text : Text) : Calculator :=
  showing (calculator.entry.append text)

/-- Empties the entry. -/
def clear (_ : Calculator) : Calculator := showing .empty

/-- Takes away the last character of the entry. -/
def delete (calculator : Calculator) : Calculator := showing calculator.entry.deleteLast

/-- Calculates the entry. -/
def equals (calculator : Calculator) : Logged Calculator := do
  match ← calculator.entry.calculate with
  | (.ok shown, entry) => return ⟨entry, shown⟩
  | (.error e, entry) =>
    record (.refused entry.text e)
    return ⟨entry, errorText⟩

/-- Obeys a command. -/
def press (calculator : Calculator) : Command → Logged Calculator
  | .digit c => pure (calculator.type [c])
  | .operator o => pure (calculator.type [o.symbol])
  | .equals => calculator.equals
  | .clear => pure calculator.clear
  | .delete => pure calculator.delete

/-- Obeys commands in order. -/
def pressAll (calculator : Calculator) (commands : List Command) : Logged Calculator :=
  commands.foldlM press calculator

/-- A value is shown and becomes the entry. -/
theorem value_equals_of_ok {calculator : Calculator} {x : Binary64}
    (h : (evaluate calculator.entry.text).value = .ok x) :
    calculator.equals.value = ⟨⟨x.display⟩, x.display⟩ := by
  rw [equals, Logged.value_bind, Entry.value_calculate_of_ok h]
  rfl

/-- A refused entry stays, and the display says that there was an error. -/
theorem value_equals_of_error {calculator : Calculator} {e : EvalError}
    (h : (evaluate calculator.entry.text).value = .error e) :
    calculator.equals.value = ⟨calculator.entry, errorText⟩ := by
  rw [equals, Logged.value_bind, Entry.value_calculate_of_error h]
  rfl

/-- No command leaves the calculator as it is. -/
@[simp]
theorem pressAll_nil (calculator : Calculator) : calculator.pressAll [] = pure calculator := rfl

/-- Commands are obeyed one after the other. -/
@[simp]
theorem pressAll_cons (calculator : Calculator) (command : Command) (commands : List Command) :
    calculator.pressAll (command :: commands) =
      calculator.press command >>= fun next => next.pressAll commands := rfl

/-- Obeying two lists of commands one after the other is obeying their concatenation. -/
theorem pressAll_append (calculator : Calculator) (first second : List Command) :
    calculator.pressAll (first ++ second) =
      calculator.pressAll first >>= fun next => next.pressAll second :=
  List.foldlM_append ..

theorem value_pressAll_append (calculator : Calculator) (first second : List Command) :
    (calculator.pressAll (first ++ second)).value =
      ((calculator.pressAll first).value.pressAll second).value := by
  rw [pressAll_append, Logged.value_bind]

/-- The last of some commands is obeyed after the others. -/
theorem value_pressAll_concat (calculator : Calculator) (commands : List Command)
    (command : Command) :
    (calculator.pressAll (commands ++ [command])).value =
      ((calculator.pressAll commands).value.press command).value := by
  rw [value_pressAll_append]
  rfl

end Calculator

end FourFunction
