import FourFunction.Calculator.Basic
import Mathlib.Data.List.Basic

/-!
# What the display says

The display shows the entry. Only just after a calculation that was refused does it show the word
`Error` instead, and then the entry is the one that was refused, so that it can be corrected. This
holds whatever is done to a new calculator, since every operation leaves a display that says one of
the two, whatever it said before.

## Main results

* `Calculator.perform_cases`: what an operation leaves on the display;
* `Calculator.display_of_performAll`: what is on the display after any history.
-/

namespace FourFunction

/-- What can be done to a calculator: obeying a command, or one of the operations that the commands
come to, of which typing takes any text. -/
inductive Operation where
  | press (command : Command)
  | type (text : Text)
  | equals
  | clear
  | delete

/-- The operation calculates the entry. -/
def Operation.Calculates (operation : Operation) : Prop :=
  operation = .equals ∨ operation = .press .equals

namespace Calculator

variable {calculator : Calculator} {operation : Operation}

/-- Performs an operation. -/
def perform (calculator : Calculator) : Operation → Calculator
  | .press command => (calculator.press command).value
  | .type text => calculator.type text
  | .equals => calculator.equals.value
  | .clear => calculator.clear
  | .delete => calculator.delete

/-- Performs operations in order. -/
def performAll (calculator : Calculator) (operations : List Operation) : Calculator :=
  operations.foldl perform calculator

theorem performAll_concat (calculator : Calculator) (before : List Operation)
    (operation : Operation) :
    calculator.performAll (before ++ [operation]) =
      (calculator.performAll before).perform operation := by
  rw [performAll, List.foldl_append]
  rfl

theorem perform_of_calculates (h : operation.Calculates) (calculator : Calculator) :
    calculator.perform operation = calculator.equals.value := by
  rcases h with rfl | rfl <;> rfl

/-- Every operation that does not calculate shows the entry that it leaves. -/
theorem exists_perform_eq_showing (h : ¬ operation.Calculates) (calculator : Calculator) :
    ∃ entry, calculator.perform operation = showing entry := by
  cases operation with
  | press command =>
    cases command with
    | equals => exact absurd (Or.inr rfl) h
    | _ => exact ⟨_, rfl⟩
  | equals => exact absurd (Or.inl rfl) h
  | _ => exact ⟨_, rfl⟩

/-- An operation leaves the display showing the entry, or it is a calculation that was refused, and
left the entry as it was. -/
theorem perform_cases (calculator : Calculator) (operation : Operation) :
    (calculator.perform operation).display = (calculator.perform operation).entry.text ∨
      operation.Calculates ∧ calculator.perform operation = ⟨calculator.entry, errorText⟩ ∧
        ∃ err, (evaluate calculator.entry.text).value = .error err := by
  by_cases h : operation.Calculates
  · rw [perform_of_calculates h]
    cases hvalue : (evaluate calculator.entry.text).value with
    | ok x =>
      left
      rw [value_equals_of_ok hvalue]
    | error err => exact Or.inr ⟨h, value_equals_of_error hvalue, err, rfl⟩
  · left
    obtain ⟨entry, hentry⟩ := exists_perform_eq_showing h calculator
    rw [hentry]
    rfl

/-- Whatever is done to a new calculator, its display shows the entry, or it says that there was an
error: then the last thing done was a calculation of the entry, which has no value and stayed as it
was. A calculation shows the value of the entry and makes what it shows the entry; without a value
it leaves the entry alone. -/
theorem display_of_performAll (operations : List Operation) :
    let calculator := performAll {} operations
    (calculator.display = calculator.entry.text ∨
      calculator.display = errorText ∧
        ∃ before operation, operations = before ++ [operation] ∧ operation.Calculates ∧
          calculator.entry = (performAll {} before).entry ∧
            ∃ err, (evaluate calculator.entry.text).value = .error err) ∧
      ∀ operation : Operation, operation.Calculates →
        (∀ x, (evaluate calculator.entry.text).value = .ok x →
          performAll {} (operations ++ [operation]) = ⟨⟨x.display⟩, x.display⟩) ∧
        ∀ err, (evaluate calculator.entry.text).value = .error err →
          performAll {} (operations ++ [operation]) = ⟨calculator.entry, errorText⟩ := by
  intro calculator
  constructor
  · -- only the last operation counts, and before the first the display is as empty as the entry
    rcases List.eq_nil_or_concat' operations with rfl | ⟨before, operation, rfl⟩
    · exact Or.inl rfl
    have hlast : calculator = (performAll {} before).perform operation :=
      performAll_concat {} before operation
    rw [hlast]
    apply (perform_cases _ operation).imp_right
    rintro ⟨hcalculates, hperform, hrefused⟩
    rw [hperform]
    exact ⟨rfl, before, operation, rfl, hcalculates, rfl, hrefused⟩
  · intro operation hcalculates
    rw [performAll_concat, perform_of_calculates hcalculates]
    exact ⟨fun x => value_equals_of_ok, fun err => value_equals_of_error⟩

/-- A division by zero is refused, corrected and calculated. -/
theorem display_of_performAll_one_divided_by_zero :
    performAll {} [.type "1/0".toList, .press .equals] = ⟨⟨"1/0".toList⟩, errorText⟩ ∧
      (performAll {} [.type "1/0".toList, .press .equals, .delete]).display = "1/".toList ∧
        performAll {} [.type "1/0".toList, .press .equals, .delete, .press (.digit '2'), .equals] =
          ⟨⟨"0.5".toList⟩, "0.5".toList⟩ := by
  have hrefused : (evaluate (performAll {} [.type "1/0".toList]).entry.text).value =
      .error .divisionByZero := by
    decide +kernel
  have hvalue : (evaluate (performAll {} [.type "1/0".toList, .press .equals, .delete,
      .press (.digit '2')]).entry.text).value = .ok (.round false (1 / 2)) := by
    decide +kernel
  obtain ⟨-, hequals⟩ := display_of_performAll [.type "1/0".toList]
  obtain ⟨hdisplay, -⟩ := display_of_performAll [.type "1/0".toList, .press .equals, .delete]
  obtain ⟨-, hequals'⟩ := display_of_performAll
    [.type "1/0".toList, .press .equals, .delete, .press (.digit '2')]
  refine ⟨(hequals _ (.inr rfl)).2 _ hrefused, ?_, ?_⟩
  · rcases hdisplay with hentry | ⟨-, before, operation, heq, hcalculates, -⟩
    · rw [hentry]
      decide +kernel
    · have hlast := congrArg List.getLast? heq
      rw [List.getLast?_concat] at hlast
      obtain rfl := Option.some.inj hlast
      rcases hcalculates with h | h <;> cases h
  · exact ((hequals' _ (.inl rfl)).1 _ hvalue).trans (by decide +kernel)

end Calculator

end FourFunction
