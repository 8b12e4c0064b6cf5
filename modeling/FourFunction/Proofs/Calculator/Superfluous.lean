import FourFunction.Calculator.Basic
import FourFunction.Proofs.Expression.Continuation
import FourFunction.Proofs.ReadBack
import Mathlib.Logic.Relation

/-!
# Superfluous calculations

No command looks at the display: what it does depends on the entry alone. So a calculation that
leaves the entry as it is can be erased from a history, and nothing that comes after it changes. A
refused calculation leaves the entry alone. So does one that follows another one at once: the shown
result is read as a double of which the same is shown.

## Main results

* `Calculator.value_pressAll_congr`: what commands do depends on the entry alone;
* `Calculator.value_equals_equals`: calculating twice is calculating once;
* `Calculator.erase_superfluous`: superfluous calculations can be erased from any history.
-/

namespace FourFunction

/-- What is shown of the value of a text, and so becomes the entry, has a value of which the same is
shown. -/
theorem exists_evaluate_display_of_ok {text : Text} {x : Binary64}
    (h : (evaluate text).value = .ok x) :
    ∃ y, (evaluate x.display).value = .ok y ∧ y.display = x.display := by
  rw [value_evaluate] at h
  obtain ⟨-, hfinite, -⟩ := foldlM_of_valueOf h
  cases x with
  | finite negative m =>
    obtain ⟨n, hn⟩ := exists_displayScaled_eq m.shortest_nonneg
    obtain ⟨m', hread, -⟩ := Magnitude.exists_reads_displayScaled hn
    exact ⟨_, Binary64.evaluate_display hn hread negative,
      Binary64.display_of_reads hn hread negative⟩
  | infinity negative => cases hfinite
  | nan => cases hfinite

namespace Calculator

variable {calculator other : Calculator} {before later : List Command}

/-! ## What commands depend on -/

theorem value_press_congr (h : calculator.entry = other.entry) (command : Command) :
    (calculator.press command).value = (other.press command).value := by
  obtain ⟨entry, display⟩ := calculator
  obtain rfl : entry = other.entry := h
  cases command <;> rfl

/-- Commands that are obeyed with the same entry leave the same calculator, whatever was on the
display, and if there are none, they leave the same entry. -/
theorem value_pressAll_congr (h : calculator.entry = other.entry) (commands : List Command) :
    (calculator.pressAll commands).value.entry = (other.pressAll commands).value.entry ∧
      (commands ≠ [] → (calculator.pressAll commands).value = (other.pressAll commands).value) := by
  cases commands with
  | nil => exact ⟨h, nofun⟩
  | cons command commands =>
    have hvalue : (calculator.pressAll (command :: commands)).value =
        (other.pressAll (command :: commands)).value := by
      rw [pressAll_cons, pressAll_cons, Logged.value_bind, Logged.value_bind, value_press_congr h]
    exact ⟨congrArg entry hvalue, fun _ => hvalue⟩

/-! ## Calculating twice -/

/-- Calculating twice is calculating once, whether there is a value or not. -/
theorem value_equals_equals (calculator : Calculator) :
    calculator.equals.value.equals.value = calculator.equals.value := by
  cases hvalue : (evaluate calculator.entry.text).value with
  | ok x =>
    obtain ⟨y, hy, hdisplay⟩ := exists_evaluate_display_of_ok hvalue
    rw [value_equals_of_ok hvalue, value_equals_of_ok hy, hdisplay]
  | error err =>
    -- the entry stays, and so it is refused again
    rw [value_equals_of_error hvalue]
    exact value_equals_of_error hvalue

/-! ## Erasing -/

/-- A calculation at the end of the history is superfluous: the entry has no value, or a calculation
has just been made. -/
def Superfluous (calculator : Calculator) (before : List Command) : Prop :=
  (∃ err, (evaluate (calculator.pressAll before).value.entry.text).value = .error err) ∨
    before.getLast? = some .equals

/-- The second history is the first one without a superfluous calculation. -/
inductive Erases (calculator : Calculator) : List Command → List Command → Prop where
  | intro (before later : List Command) (h : calculator.Superfluous before) :
      Erases calculator (before ++ .equals :: later) (before ++ later)

/-- A superfluous calculation leaves the entry as it is. -/
theorem Superfluous.entry_equals (h : calculator.Superfluous before) :
    (calculator.pressAll before).value.equals.value.entry =
      (calculator.pressAll before).value.entry := by
  rcases h with ⟨err, hvalue⟩ | hlast
  · rw [value_equals_of_error hvalue]
  · obtain ⟨init, rfl⟩ := List.getLast?_eq_some_iff.1 hlast
    rw [value_pressAll_concat]
    exact congrArg entry (value_equals_equals _)

theorem Superfluous.value_pressAll (h : calculator.Superfluous before) (later : List Command) :
    (calculator.pressAll (before ++ .equals :: later)).value.entry =
        (calculator.pressAll (before ++ later)).value.entry ∧
      (later ≠ [] → (calculator.pressAll (before ++ .equals :: later)).value =
        (calculator.pressAll (before ++ later)).value) := by
  rw [pressAll_append, pressAll_append]
  exact value_pressAll_congr h.entry_equals later

/-- A superfluous calculation can be erased from any history: the entry is the same at every later
point, and so is the display after every later command. Any number of them can be erased one after
the other. In particular, calculating twice is calculating once. -/
theorem erase_superfluous (calculator : Calculator) :
    (∀ before later, calculator.Superfluous before →
        (calculator.pressAll (before ++ .equals :: later)).value.entry =
            (calculator.pressAll (before ++ later)).value.entry ∧
          (later ≠ [] → (calculator.pressAll (before ++ .equals :: later)).value.display =
            (calculator.pressAll (before ++ later)).value.display)) ∧
      (∀ history shorter, Relation.ReflTransGen calculator.Erases history shorter →
        (calculator.pressAll history).value.entry = (calculator.pressAll shorter).value.entry ∧
          ∀ command, (calculator.pressAll (history ++ [command])).value.display =
            (calculator.pressAll (shorter ++ [command])).value.display) ∧
      (calculator.pressAll [.equals, .equals]).value = (calculator.pressAll [.equals]).value := by
  refine ⟨?_, ?_, ?_⟩
  · intro before later h
    obtain ⟨hentry, hvalue⟩ := h.value_pressAll later
    exact ⟨hentry, fun hne => congrArg display (hvalue hne)⟩
  · intro history shorter h
    have hentry : (calculator.pressAll history).value.entry =
        (calculator.pressAll shorter).value.entry := by
      induction h with
      | refl => rfl
      | tail _ hstep ih =>
        obtain ⟨before, later, hsuperfluous⟩ := hstep
        exact ih.trans (hsuperfluous.value_pressAll later).1
    refine ⟨hentry, fun command => ?_⟩
    rw [value_pressAll_concat, value_pressAll_concat, value_press_congr hentry]
  · exact value_equals_equals calculator

/-- A third, calculated twice and then multiplied by three, and a division by zero that is refused
before it is corrected. -/
theorem erase_superfluous_third :
    (pressAll (.showing ⟨"1/3".toList⟩)
          [.equals, .equals, .operator (.factor .times), .digit '3', .equals]).value.display =
        (pressAll (.showing ⟨"1/3".toList⟩)
          [.equals, .operator (.factor .times), .digit '3', .equals]).value.display ∧
      (pressAll (.showing ⟨"9/0".toList⟩) [.equals, .delete, .digit '3', .equals]).value.display =
        (pressAll (.showing ⟨"9/0".toList⟩) [.delete, .digit '3', .equals]).value.display := by
  obtain ⟨hthird, -, -⟩ := erase_superfluous (.showing ⟨"1/3".toList⟩)
  obtain ⟨hninth, -, -⟩ := erase_superfluous (.showing ⟨"9/0".toList⟩)
  have hrefused : Superfluous (.showing ⟨"9/0".toList⟩) [] :=
    Or.inl ⟨.divisionByZero, by decide +kernel⟩
  exact ⟨(hthird [.equals] _ (Or.inr rfl)).2 (List.cons_ne_nil _ _),
    (hninth [] _ hrefused).2 (List.cons_ne_nil _ _)⟩

end Calculator

end FourFunction
