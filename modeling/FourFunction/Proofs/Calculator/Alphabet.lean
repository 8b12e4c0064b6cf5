import FourFunction.Proofs.Calculator.Continuation
import FourFunction.Proofs.Calculator.Frame
import FourFunction.Proofs.Calculator.Superfluous

/-!
# The alphabet of the entry

Nothing is checked when an entry is typed, and yet it is always in the alphabet of expressions: the
keyboard and the keypad have commands for the characters of the alphabet alone, and what is shown of
a value, which becomes the entry, is in the alphabet too since every value is finite.

## Main results

* `Frame.typesAlphabet`: the commands of a frame type characters of the alphabet;
* `Calculator.Evaluable.pressAll`: such commands keep the entry in the alphabet;
* `Calculator.evaluable_of_frames`: the entry and the display at every point of a run.
-/

namespace FourFunction

/-! ## What commands type -/

/-- The character that the command types, if it types one, is in the alphabet of expressions. -/
def Command.TypesAlphabet (command : Command) : Prop :=
  ∀ c, command.char? = some c → InAlphabet c

theorem Operator.inAlphabet_symbol (o : Operator) : InAlphabet o.symbol := by
  cases o with
  | sign sign => exact Or.inr ⟨sign, rfl⟩
  | factor o => exact Or.inl (Or.inr ⟨o, rfl⟩)

/-- Of typed characters, only those of the alphabet are typed into the entry. -/
theorem Command.typesAlphabet_of_ofChar? {c : Char} {command : Command}
    (h : ofChar? c = some command) : command.TypesAlphabet := by
  intro d hd
  unfold ofChar? at h
  split at h
  · next hc =>
    obtain rfl := Option.some.inj h
    obtain rfl := Option.some.inj hd
    exact Or.inl (Or.inl (by simpa [IsFactorChar] using hc))
  · split at h
    · obtain rfl := Option.some.inj h
      cases hd
    · obtain ⟨o, _, rfl⟩ := Option.map_eq_some_iff.1 h
      obtain rfl := Option.some.inj hd
      exact o.inAlphabet_symbol

/-- Whatever the keyboard sends types in the alphabet. -/
theorem KeyEvent.typesAlphabet (event : KeyEvent) :
    ∀ command ∈ event.commands, command.TypesAlphabet := by
  intro command hcommand
  cases event with
  | typed text =>
    obtain ⟨c, _, hc⟩ := List.mem_filterMap.1 hcommand
    exact Command.typesAlphabet_of_ofChar? hc
  | key key pressed repeated =>
    -- the keys that have a command type nothing
    have hnone : command.char? = none := by
      cases key <;> cases pressed <;> simp_all [commands, Key.command?, Command.char?]
    intro c hc
    rw [hnone] at hc
    cases hc

/-- Every button types in the alphabet. -/
theorem Keypad.typesAlphabet {button : Button} (h : button ∈ buttons) :
    button.command.TypesAlphabet := by
  have hall : ∀ button ∈ buttons, button.command.char?.all isExpressionChar = true := by decide
  intro c hc
  have hchar := hall button h
  rw [hc, Option.all_some] at hchar
  exact isExpressionChar_iff.1 hchar

/-- A command that a label stands for is that of a button. -/
theorem Keypad.exists_button_of_command? {label : String} {command : Command}
    (h : command? label = some command) : ∃ button ∈ buttons, button.command = command := by
  obtain ⟨place, hplace, rfl⟩ := Option.map_eq_some_iff.1 h
  obtain ⟨⟨button, i⟩, hfind, rfl⟩ := Option.map_eq_some_iff.1 hplace
  exact ⟨button, List.fst_mem_of_mem_zipIdx (List.mem_of_find?_eq_some hfind), rfl⟩

/-- Neither the keyboard nor the keypad types anything else than the alphabet of expressions. -/
theorem Frame.typesAlphabet (frame : Frame) :
    ∀ command ∈ frame.commands, command.TypesAlphabet := by
  intro command hcommand
  rcases List.mem_append.1 hcommand with hkey | hclick
  · obtain ⟨event, _, hevent⟩ := List.mem_flatMap.1 hkey
    exact event.typesAlphabet command hevent
  · obtain ⟨label, _, hlabel⟩ := Option.bind_eq_some_iff.1 (Option.mem_toList.1 hclick)
    obtain ⟨button, hbutton, rfl⟩ := Keypad.exists_button_of_command? hlabel
    exact Keypad.typesAlphabet hbutton

/-! ## What commands leave -/

/-- What is shown of a value is in the alphabet of expressions. -/
theorem inAlphabet_display_of_ok {text : Text} {x : Binary64}
    (h : (evaluate text).value = .ok x) : ∀ c ∈ x.display, InAlphabet c := by
  obtain ⟨y, hy, -⟩ := exists_evaluate_display_of_ok h
  rw [value_evaluate] at hy
  exact (foldlM_of_valueOf hy).1

/-- The text is in the alphabet of expressions, or it is the word `Error`. -/
def IsShowable (text : Text) : Prop := (∀ c ∈ text, InAlphabet c) ∨ text = errorText

namespace Calculator

variable {calculator : Calculator} {command : Command} {commands : List Command}

/-- The entry is in the alphabet of expressions, and the display too, unless it shows `Error`. -/
structure Evaluable (calculator : Calculator) : Prop where
  entry : ∀ c ∈ calculator.entry.text, InAlphabet c
  display : IsShowable calculator.display

/-- A calculator that shows an entry of the alphabet is evaluable. -/
theorem evaluable_showing {entry : Entry} (h : ∀ c ∈ entry.text, InAlphabet c) :
    (showing entry).Evaluable :=
  ⟨h, Or.inl h⟩

/-- Calculating leaves an entry in the alphabet, whether there is a value or not. -/
theorem Evaluable.equals (h : calculator.Evaluable) : calculator.equals.value.Evaluable := by
  cases hvalue : (evaluate calculator.entry.text).value with
  | ok x =>
    rw [value_equals_of_ok hvalue]
    exact evaluable_showing (inAlphabet_display_of_ok hvalue)
  | error err =>
    rw [value_equals_of_error hvalue]
    exact ⟨h.entry, Or.inr rfl⟩

/-- A command that types in the alphabet keeps the calculator evaluable. -/
theorem Evaluable.press (h : calculator.Evaluable) (hcommand : command.TypesAlphabet) :
    (calculator.press command).value.Evaluable := by
  have htype : ∀ c, InAlphabet c → (calculator.type [c]).Evaluable := by
    intro c hc
    apply evaluable_showing
    intro d hd
    rcases List.mem_append.1 hd with hd | hd
    · exact h.entry d hd
    · rwa [List.mem_singleton.1 hd]
  cases command with
  | digit c => exact htype c (hcommand c rfl)
  | operator o => exact htype o.symbol (hcommand o.symbol rfl)
  | equals => exact h.equals
  | clear => exact evaluable_showing (by simp)
  | delete => exact evaluable_showing fun c hc => h.entry c (List.mem_of_mem_dropLast hc)

/-- So does a run of such commands. -/
theorem Evaluable.pressAll (h : calculator.Evaluable)
    (hcommands : ∀ command ∈ commands, command.TypesAlphabet) :
    (calculator.pressAll commands).value.Evaluable := by
  induction commands generalizing calculator with
  | nil => exact h
  | cons command commands ih =>
    obtain ⟨hcommand, hrest⟩ := List.forall_mem_cons.1 hcommands
    exact ih (h.press hcommand) hrest

/-- Every text that is painted can be shown, and the calculator is evaluable after each frame. -/
theorem Evaluable.runAll (h : calculator.Evaluable) (frames : List Frame) :
    ∀ painted ∈ (calculator.runAll frames).value,
      IsShowable painted.text ∧ painted.after.Evaluable := by
  induction frames generalizing calculator with
  | nil =>
    intro painted hpainted
    cases hpainted
  | cons frame frames ih =>
    have hafter := h.pressAll frame.typesAlphabet
    have hkeys : ∀ command ∈ frame.keyCommands, command.TypesAlphabet := fun command hcommand =>
      frame.typesAlphabet command (List.mem_append_left _ hcommand)
    rw [value_runAll_cons, List.forall_mem_cons, value_run]
    exact ⟨⟨(h.pressAll hkeys).display, hafter⟩, ih hafter⟩

theorem evaluable_new : Evaluable {} where
  entry := by simp
  display := Or.inl (by simp)

/-- Any first part of the commands of some frames leaves an entry in the alphabet. -/
theorem evaluable_at_point {frames : List Frame}
    (h : commands <+: frames.flatMap Frame.commands) :
    (pressAll {} commands).value.Evaluable := by
  apply evaluable_new.pressAll
  intro command hcommand
  obtain ⟨frame, _, hframe⟩ := List.mem_flatMap.1 (h.subset hcommand)
  exact frame.typesAlphabet command hframe

end Calculator

/-! ## What the alphabet excludes -/

section Exclusion

variable {text : Text} {c : Char} {offset : Nat} {x : Binary64}

/-- No character of the alphabet is refused. -/
theorem evaluate_ne_unexpectedChar (h : ∀ c ∈ text, InAlphabet c) :
    (evaluate text).value ≠ .error (.unexpectedChar c offset) := by
  intro hvalue
  rw [value_evaluate] at hvalue
  rcases sum_or_refused text with ⟨s, rfl, hs⟩ | ⟨err, hrefused⟩
  · -- a sum that divides by no zero is refused for overflow only
    rw [valueOf_sum s hs] at hvalue
    split at hvalue <;> cases hvalue
  · rw [valueOf_of_refused hrefused] at hvalue
    obtain rfl := Except.error.inj hvalue
    obtain ⟨hmem, hc⟩ := hrefused.not_inAlphabet
    exact hc (h c hmem)

/-- The names of the infinities and of NaN are not in the alphabet. -/
theorem exists_not_inAlphabet_display (hx : x.isFinite = false) :
    ∃ c ∈ x.display, ¬ InAlphabet c := by
  have hletters : ¬ InAlphabet 'I' ∧ ¬ InAlphabet 'N' := by
    rw [← isExpressionChar_iff, ← isExpressionChar_iff]
    decide
  cases x with
  | finite negative m => cases hx
  | infinity negative => exact ⟨'I', by cases negative <;> decide, hletters.1⟩
  | nan => exact ⟨'N', by decide, hletters.2⟩

/-- The names of infinities and of NaN are no part of a text in the alphabet. -/
theorem not_infix_display (h : ∀ c ∈ text, InAlphabet c) (hx : x.isFinite = false) :
    ¬ x.display <:+: text := by
  intro hpart
  obtain ⟨c, hmem, hc⟩ := exists_not_inAlphabet_display hx
  exact hc (h c (hpart.subset hmem))

end Exclusion

namespace Calculator

/-- Whatever frames a new calculator runs, with whatever is typed and clicked: after any number of
their commands the entry is in the alphabet of expressions, and the display too, unless it shows
`Error`. So a calculation at that point is not refused for a character, and no name of an infinity
or of NaN has got into the entry. What the frames paint is in the alphabet or `Error` as well. -/
theorem evaluable_of_frames (frames : List Frame) :
    (∀ commands, commands <+: frames.flatMap Frame.commands →
      let calculator := (pressAll {} commands).value
      calculator.Evaluable ∧
        (∀ c offset,
          (evaluate calculator.entry.text).value ≠ .error (.unexpectedChar c offset)) ∧
        ∀ x : Binary64, x.isFinite = false → ¬ x.display <:+: calculator.entry.text) ∧
      ∀ painted ∈ (runAll {} frames).value,
        IsShowable painted.text ∧ painted.after.Evaluable := by
  constructor
  · intro commands hpoint calculator
    have h : calculator.Evaluable := evaluable_at_point hpoint
    refine ⟨h, ?_, ?_⟩
    · intro c offset
      exact evaluate_ne_unexpectedChar h.entry
    · intro x hx
      exact not_infix_display h.entry hx
  · exact evaluable_new.runAll frames

/-- One divided by zero, typed with a parenthesis in front, is painted without it, and refused when
it is calculated. -/
theorem evaluable_of_frames_one_divided_by_zero :
    (pressAll {} [.digit '1', .operator (.factor .divide), .digit '0', .equals]).value =
        ⟨⟨"1/0".toList⟩, errorText⟩ ∧
      Evaluable ⟨⟨"1/0".toList⟩, errorText⟩ ∧ ¬ "NaN".toList <:+: "1/0".toList ∧
      IsShowable "1/0".toList := by
  obtain ⟨hpoints, hpainted⟩ := evaluable_of_frames [⟨[.typed "(1/0".toList], some "="⟩]
  have hvalue : (pressAll {} [.digit '1', .operator (.factor .divide), .digit '0', .equals]).value =
      ⟨⟨"1/0".toList⟩, errorText⟩ := by
    decide +kernel
  obtain ⟨hevaluable, -, hnames⟩ :=
    hpoints [.digit '1', .operator (.factor .divide), .digit '0', .equals] (by decide)
  rw [hvalue] at hevaluable hnames
  obtain ⟨hshown, -⟩ :=
    hpainted ⟨"1/0".toList, ⟨⟨"1/0".toList⟩, errorText⟩⟩ (by decide +kernel)
  exact ⟨hvalue, hevaluable, hnames .nan rfl, hshown⟩

end Calculator

end FourFunction
