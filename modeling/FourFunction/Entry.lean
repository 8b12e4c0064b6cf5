import FourFunction.Display
import FourFunction.Expression.Evaluate

/-!
# The entry

The expression being typed. Nothing is checked while it is typed. A calculation that succeeds
leaves the shown result as the whole entry, so that the next calculation goes on from it; one that
is refused leaves the entry as it was, so that it can be corrected.
-/

namespace FourFunction

/-- The expression being typed. -/
@[ext]
structure Entry where
  /-- Its characters. -/
  text : Text := []
deriving DecidableEq, Repr, Inhabited

namespace Entry

/-- Adds text at the end. -/
def append (entry : Entry) (text : Text) : Entry := ⟨entry.text ++ text⟩

/-- Takes away the last character, if there is one. -/
def deleteLast (entry : Entry) : Entry := ⟨entry.text.dropLast⟩

/-- The empty entry. -/
def empty : Entry := {}

/-- Calculates the entry. The result is the shown text, which also replaces the entry. -/
def calculate (entry : Entry) : Logged (Except EvalError Text × Entry) := do
  match ← evaluate entry.text with
  | .error e => return (.error e, entry)
  | .ok value =>
    let shown := value.display
    record (.calculated entry.text value shown)
    return (.ok shown, ⟨shown⟩)

/-- A value is shown, and what is shown becomes the entry. -/
theorem value_calculate_of_ok {entry : Entry} {x : Binary64}
    (h : (evaluate entry.text).value = .ok x) :
    entry.calculate.value = (.ok x.display, ⟨x.display⟩) := by
  rw [calculate, Logged.value_bind, h]
  rfl

/-- A refused entry stays as it was. -/
theorem value_calculate_of_error {entry : Entry} {e : EvalError}
    (h : (evaluate entry.text).value = .error e) : entry.calculate.value = (.error e, entry) := by
  rw [calculate, Logged.value_bind, h]
  rfl

@[simp]
theorem text_append (entry : Entry) (text : Text) : (entry.append text).text = entry.text ++ text :=
  rfl

@[simp]
theorem text_deleteLast (entry : Entry) : entry.deleteLast.text = entry.text.dropLast := rfl

@[simp]
theorem text_empty : empty.text = [] := rfl

/-- Deleting takes back one appended character. -/
@[simp]
theorem deleteLast_append_singleton (entry : Entry) (c : Char) :
    (entry.append [c]).deleteLast = entry := by
  ext1
  simp

end Entry

end FourFunction
