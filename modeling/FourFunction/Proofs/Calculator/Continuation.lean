import FourFunction.Calculator.Basic
import FourFunction.Proofs.Expression.Continuation

/-!
# Calculating halfway

What is typed behind a sign is added to the value of what stands before it. So it makes no
difference to calculate before the sign is typed, as long as the shown result is read as the value
itself: the next calculation shows the same, and leaves the same entry if it succeeds.

## Main results

* `Calculator.entry_pressAll`: commands that type characters put them at the end of the entry;
* `Calculator.equals_before_sign`: calculating before a sign makes no difference;
* `prefix_counts_by_value`: what stands before a sign counts by its value alone.
-/

namespace FourFunction

/-- The character that a command types. -/
def Command.char? : Command → Option Char
  | digit c => some c
  | operator o => some o.symbol
  | equals => none
  | clear => none
  | delete => none

/-- The commands type the text, one character each. -/
def Types (commands : List Command) (text : Text) : Prop :=
  commands.map Command.char? = text.map some

instance (commands : List Command) (text : Text) : Decidable (Types commands text) :=
  inferInstanceAs (Decidable (_ = _))

namespace Calculator

variable {calculator other : Calculator} {command : Command} {commands : List Command}
  {text rest : Text} {c : Char} {x : Binary64}

theorem press_of_char? (h : command.char? = some c) (calculator : Calculator) :
    calculator.press command = pure (calculator.type [c]) := by
  cases command with
  | digit d =>
    obtain rfl := Option.some.inj h
    rfl
  | operator o =>
    obtain rfl := Option.some.inj h
    rfl
  | equals => cases h
  | clear => cases h
  | delete => cases h

/-- Typed text is put at the end of the entry. -/
theorem entry_pressAll (h : Types commands text) (calculator : Calculator) :
    (calculator.pressAll commands).value.entry = calculator.entry.append text := by
  -- each character goes behind those typed before it
  induction commands generalizing calculator text with
  | nil =>
    obtain rfl : text = [] := List.map_eq_nil_iff.1 h.symm
    ext1
    simp
  | cons command commands ih =>
    cases text with
    | nil => simp [Types] at h
    | cons c text =>
      obtain ⟨hc, htext⟩ : command.char? = some c ∧ Types commands text := by
        simpa [Types] using h
      rw [pressAll_cons, press_of_char? hc, Logged.value_bind, Logged.value_pure, ih htext]
      ext1
      simp [type, showing]

/-- Two entries of the same value show the same when they are calculated, and if there is a value,
it becomes the entry of both. -/
theorem equals_of_evaluate_eq
    (h : (evaluate calculator.entry.text).value = (evaluate other.entry.text).value) :
    calculator.equals.value.display = other.equals.value.display ∧
      ((∃ x, (evaluate calculator.entry.text).value = .ok x) →
        calculator.equals.value.entry = other.equals.value.entry) := by
  cases hvalue : (evaluate calculator.entry.text).value with
  | ok x =>
    rw [value_equals_of_ok hvalue, value_equals_of_ok (h ▸ hvalue)]
    exact ⟨rfl, fun _ => rfl⟩
  | error err =>
    rw [value_equals_of_error hvalue, value_equals_of_error (h ▸ hvalue)]
    exact ⟨rfl, nofun⟩

/-- Calculating before a sign is typed makes no difference to the next calculation, if the result
that is shown is read as the value itself. -/
theorem equals_before_sign {sign : Sign} (hvalue : (evaluate calculator.entry.text).value = .ok x)
    (hread : (evaluate x.display).value = .ok x) (hrest : ∀ c ∈ rest, InAlphabet c)
    (htypes : Types commands (sign.symbol :: rest)) :
    (calculator.pressAll (.equals :: commands ++ [.equals])).value.display =
        (calculator.pressAll (commands ++ [.equals])).value.display ∧
      ((∃ y, (evaluate (calculator.entry.text ++ sign.symbol :: rest)).value = .ok y) →
        (calculator.pressAll (.equals :: commands ++ [.equals])).value.entry =
          (calculator.pressAll (commands ++ [.equals])).value.entry) := by
  have hshown : (calculator.pressAll (.equals :: commands)).value.entry.text =
      x.display ++ sign.symbol :: rest := by
    have hpress : (calculator.press .equals).value = ⟨⟨x.display⟩, x.display⟩ :=
      value_equals_of_ok hvalue
    rw [pressAll_cons, Logged.value_bind, entry_pressAll htypes, hpress]
    rfl
  have htyped : (calculator.pressAll commands).value.entry.text =
      calculator.entry.text ++ sign.symbol :: rest := by
    rw [entry_pressAll htypes]
    rfl
  -- both entries are the same value, continued in the same way
  rw [value_evaluate] at hvalue hread
  have heval : (evaluate (calculator.pressAll commands).value.entry.text).value =
      (evaluate (calculator.pressAll (.equals :: commands)).value.entry.text).value := by
    rw [hshown, htyped, value_evaluate, value_evaluate, valueOf_append_sign hvalue hrest,
      valueOf_append_sign hread hrest]
  rw [value_pressAll_concat, value_pressAll_concat, ← htyped, heval]
  exact equals_of_evaluate_eq heval.symm

end Calculator

/-- What stands before a sign counts by its value alone. A part that has the same value can replace
it, also the shown result if that is read as the value, and a part that is refused has the whole
refused, for the same reason unless that is overflow. -/
theorem prefix_counts_by_value {text rest : Text} (htext : ∀ c ∈ text, InAlphabet c)
    (hrest : ∀ c ∈ rest, InAlphabet c) (sign : Sign) :
    (∀ other x, (evaluate text).value = .ok x → (evaluate other).value = .ok x →
        (evaluate (text ++ sign.symbol :: rest)).value =
          (evaluate (other ++ sign.symbol :: rest)).value) ∧
      (∀ (calculator : Calculator) commands x, calculator.entry.text = text →
        (evaluate text).value = .ok x → (evaluate x.display).value = .ok x →
        Types commands (sign.symbol :: rest) →
          (calculator.pressAll (.equals :: commands ++ [.equals])).value.display =
              (calculator.pressAll (commands ++ [.equals])).value.display ∧
            ((∃ y, (evaluate (text ++ sign.symbol :: rest)).value = .ok y) →
              (calculator.pressAll (.equals :: commands ++ [.equals])).value.entry =
                (calculator.pressAll (commands ++ [.equals])).value.entry)) ∧
      ∀ err, (∃ c ∈ text, Sign.ofChar? c = none) → (evaluate text).value = .error err →
        ∃ err', (evaluate (text ++ sign.symbol :: rest)).value = .error err' ∧
          (err ≠ .overflow → err' = err) := by
  refine ⟨?_, ?_, ?_⟩
  · intro other x hvalue hother
    rw [value_evaluate] at *
    rw [value_evaluate, valueOf_append_sign hvalue hrest, valueOf_append_sign hother hrest]
  · intro calculator commands x hentry hvalue hread htypes
    subst hentry
    exact Calculator.equals_before_sign hvalue hread hrest htypes
  · intro err hterm herr
    rw [value_evaluate] at *
    exact valueOf_append_sign_of_error htext hterm herr hrest sign

/-- Three quarters, less six, in either order of calculating, and a division by zero, less six. -/
theorem prefix_counts_by_value_less_six :
    (evaluate "0.5+0.25-3*2".toList).value = (evaluate "3/4--3*2".toList).value ∧
      (Calculator.pressAll (.showing ⟨"0.5+0.25".toList⟩)
          [.equals, .operator (.sign .minus), .digit '6', .equals]).value =
        (Calculator.pressAll (.showing ⟨"0.5+0.25".toList⟩)
          [.operator (.sign .minus), .digit '6', .equals]).value ∧
      (evaluate "3/0-6".toList).value = .error .divisionByZero := by
  have hvalue : (evaluate "0.5+0.25".toList).value = .ok (Binary64.round false (3 / 4)) := by
    decide +kernel
  have hother : (evaluate "3/4-".toList).value = .ok (Binary64.round false (3 / 4)) := by
    decide +kernel
  have hread : (evaluate (Binary64.round false (3 / 4)).display).value =
      .ok (Binary64.round false (3 / 4)) := by
    decide +kernel
  obtain ⟨hsame, -, -⟩ := @prefix_counts_by_value "0.5+0.25".toList "3*2".toList
    (inAlphabet_of_all (by decide)) (inAlphabet_of_all (by decide)) .minus
  obtain ⟨-, hpress, -⟩ := @prefix_counts_by_value "0.5+0.25".toList "6".toList
    (inAlphabet_of_all (by decide)) (inAlphabet_of_all (by decide)) .minus
  obtain ⟨-, -, herror⟩ := @prefix_counts_by_value "3/0".toList "6".toList
    (inAlphabet_of_all (by decide)) (inAlphabet_of_all (by decide)) .minus
  refine ⟨hsame "3/4-".toList _ hvalue hother, ?_, ?_⟩
  · obtain ⟨hdisplay, hentry⟩ := hpress (.showing ⟨"0.5+0.25".toList⟩)
      [.operator (.sign .minus), .digit '6'] _ rfl hvalue hread (by decide)
    exact Calculator.ext (hentry ⟨-Binary64.round false (21 / 4), by decide +kernel⟩) hdisplay
  · obtain ⟨err, herr, hsame⟩ := herror .divisionByZero ⟨'3', by decide, rfl⟩ (by decide +kernel)
    rw [hsame (by decide)] at herr
    exact herr

end FourFunction
