import FourFunction.Proofs.Calculator.Continuation
import FourFunction.Proofs.Calculator.Operation
import FourFunction.Proofs.Calculator.Superfluous
import Mathlib.Data.List.Infix

/-!
# Corrections

Deleting takes back the last character that is left, and a calculation that is refused leaves the
entry alone. So commands that type characters and delete them all again leave the entry that they
found, in whatever order they do so, as long as they never delete more than they typed: the entry
that they found is a floor below which they do not go.

Commands that delete more take away from that entry, and once it is empty there is nothing more to
delete. What is left in the end depends on every end of the history, since a deletion takes back
nothing that is typed after it.

## Main results

* `Calculator.Corrects.exists_text_eq`: above the floor, what is typed and left stands behind the
  entry that was found;
* `Calculator.Corrects.length_le_iff`: how long the entry is after any history of corrections;
* `Calculator.corrections_restore_entry`: balanced corrections leave the entry as it was.
-/

namespace FourFunction

variable {before later commands : List Command} {command : Command} {c : Char}

/-- The number of characters that the commands type. -/
def typedCount (commands : List Command) : Nat :=
  commands.countP fun command => command.char?.isSome

/-- The number of characters that the commands are to delete. -/
def deletedCount (commands : List Command) : Nat :=
  commands.count .delete

/-- At no point have the commands deleted more characters than they typed. -/
def KeepsFloor (commands : List Command) : Prop :=
  ∀ before, before <+: commands → deletedCount before ≤ typedCount before

/-- The commands delete all the characters that they type, and nothing else. -/
structure Balanced (commands : List Command) : Prop where
  /-- A deletion always has a typed character to delete. -/
  keepsFloor : KeepsFloor commands
  /-- No typed character is left. -/
  total : deletedCount commands = typedCount commands

instance (commands : List Command) : Decidable (KeepsFloor commands) :=
  decidable_of_iff (∀ before ∈ commands.inits, deletedCount before ≤ typedCount before)
    (by simp only [List.mem_inits, KeepsFloor])

instance (commands : List Command) : Decidable (Balanced commands) :=
  decidable_of_iff (KeepsFloor commands ∧ deletedCount commands = typedCount commands)
    ⟨fun h => ⟨h.1, h.2⟩, fun h => ⟨h.1, h.2⟩⟩

/-- What deletes no more than was typed did so at every earlier moment. -/
theorem KeepsFloor.of_append (h : KeepsFloor (before ++ later)) : KeepsFloor before :=
  fun first hfirst => h first (hfirst.trans (List.prefix_append before later))

/-- In all no more is deleted than was typed. -/
theorem KeepsFloor.le (h : KeepsFloor commands) : deletedCount commands ≤ typedCount commands :=
  h commands List.prefix_rfl

/-! ## Counting -/

@[simp]
theorem typedCount_nil : typedCount [] = 0 := rfl

@[simp]
theorem deletedCount_nil : deletedCount [] = 0 := rfl

@[simp]
theorem typedCount_append (before later : List Command) :
    typedCount (before ++ later) = typedCount before + typedCount later :=
  List.countP_append

@[simp]
theorem deletedCount_append (before later : List Command) :
    deletedCount (before ++ later) = deletedCount before + deletedCount later :=
  List.count_append

@[simp]
theorem typedCount_delete : typedCount [.delete] = 0 := rfl

@[simp]
theorem deletedCount_delete : deletedCount [.delete] = 1 := rfl

@[simp]
theorem typedCount_equals : typedCount [.equals] = 0 := rfl

@[simp]
theorem deletedCount_equals : deletedCount [.equals] = 0 := rfl

/-- A command that types types one character. -/
theorem typedCount_of_char? (h : command.char? = some c) : typedCount [command] = 1 := by
  simp [typedCount, h]

/-- A command that types deletes nothing. -/
theorem deletedCount_of_char? (h : command.char? = some c) : deletedCount [command] = 0 := by
  have hne : command ≠ .delete := by
    rintro rfl
    cases h
  simp [deletedCount, hne]

/-- The last parts of a history are the empty one, and those of the history without its last command
with that command behind them. -/
theorem forall_suffix_concat_iff {p : List Command → Prop} :
    (∀ later, later <:+ before ++ [command] → p later) ↔
      p [] ∧ ∀ later, later <:+ before → p (later ++ [command]) := by
  simp only [List.suffix_concat_iff]
  constructor
  · intro h
    exact ⟨h [] (Or.inl rfl), fun later hlater => h _ (Or.inr ⟨later, rfl, hlater⟩)⟩
  · rintro ⟨hnil, hconcat⟩ later (rfl | ⟨later, rfl, hlater⟩)
    · exact hnil
    · exact hconcat later hlater

namespace Calculator

variable {calculator : Calculator}

/-- The commands correct the entry: each one types a character, deletes one, or calculates an entry
that is refused. -/
inductive Corrects (calculator : Calculator) : List Command → Prop where
  | nil : calculator.Corrects []
  | type {before : List Command} {command : Command} {c : Char} (h : calculator.Corrects before)
      (hc : command.char? = some c) : calculator.Corrects (before ++ [command])
  | delete {before : List Command} (h : calculator.Corrects before) :
      calculator.Corrects (before ++ [.delete])
  | refused {before : List Command} {err : EvalError} (h : calculator.Corrects before)
      (herr : (evaluate (calculator.pressAll before).value.entry.text).value = .error err) :
      calculator.Corrects (before ++ [.equals])

/-! ## One command -/

/-- One more command that types puts its character at the end. -/
theorem text_pressAll_concat_type (hc : command.char? = some c) :
    (calculator.pressAll (before ++ [command])).value.entry.text =
      (calculator.pressAll before).value.entry.text ++ [c] := by
  rw [value_pressAll_concat, press_of_char? hc]
  rfl

/-- One more deletion takes the last character away, if there is one. -/
theorem text_pressAll_concat_delete :
    (calculator.pressAll (before ++ [.delete])).value.entry.text =
      (calculator.pressAll before).value.entry.text.dropLast := by
  rw [value_pressAll_concat]
  rfl

/-- One more calculation leaves a text that is refused. -/
theorem text_pressAll_concat_refused {err : EvalError}
    (herr : (evaluate (calculator.pressAll before).value.entry.text).value = .error err) :
    (calculator.pressAll (before ++ [.equals])).value.entry.text =
      (calculator.pressAll before).value.entry.text := by
  rw [value_pressAll_concat]
  exact congrArg (fun next => next.entry.text) (value_equals_of_error herr)

/-! ## Above the floor -/

/-- Commands that never delete more than they typed leave the entry that they found, with as many
characters behind it as they typed and did not delete. -/
theorem Corrects.exists_text_eq (h : calculator.Corrects commands) (hfloor : KeepsFloor commands) :
    ∃ typed, (calculator.pressAll commands).value.entry.text = calculator.entry.text ++ typed ∧
      typed.length + deletedCount commands = typedCount commands := by
  induction h with
  | nil => exact ⟨[], by simp, rfl⟩
  | @type _ _ c _ hc ih =>
    obtain ⟨typed, htext, hlength⟩ := ih hfloor.of_append
    refine ⟨typed ++ [c], ?_, ?_⟩
    · rw [text_pressAll_concat_type hc, htext, List.append_assoc]
    · rw [typedCount_append, deletedCount_append, typedCount_of_char? hc, deletedCount_of_char? hc,
        List.length_append, List.length_singleton]
      omega
  | @delete before _ ih =>
    obtain ⟨typed, htext, hlength⟩ := ih hfloor.of_append
    -- the floor holds after the deletion too, so a typed character is left to delete
    have hcount : deletedCount before + 1 ≤ typedCount before := by
      simpa using hfloor.le
    have hpos : 0 < typed.length := by omega
    refine ⟨typed.dropLast, ?_, ?_⟩
    · rw [text_pressAll_concat_delete, htext,
        List.dropLast_append_of_ne_nil (List.length_pos_iff.1 hpos)]
    · rw [typedCount_append, deletedCount_append, typedCount_delete, deletedCount_delete,
        List.length_dropLast]
      omega
  | refused _ herr ih =>
    obtain ⟨typed, htext, hlength⟩ := ih hfloor.of_append
    refine ⟨typed, ?_, ?_⟩
    · rw [text_pressAll_concat_refused herr, htext]
    · simpa using hlength

/-- Balanced corrections leave the entry that they found. -/
theorem Corrects.entry_eq (h : calculator.Corrects commands) (hbalanced : Balanced commands) :
    (calculator.pressAll commands).value.entry = calculator.entry := by
  obtain ⟨typed, htext, hlength⟩ := h.exists_text_eq hbalanced.keepsFloor
  have hnil : typed = [] := by
    rw [hbalanced.total] at hlength
    exact List.length_eq_zero_iff.1 (by omega)
  ext1
  rw [htext, hnil, List.append_nil]

/-! ## Below the floor -/

/-- The entry is at most `n` characters long after corrections exactly if at most `n` of the
characters that were there or were typed are not deleted, and so for the characters typed in any
last part of the history. -/
theorem Corrects.length_le_iff (h : calculator.Corrects commands) (n : Nat) :
    (calculator.pressAll commands).value.entry.text.length ≤ n ↔
      calculator.entry.text.length + typedCount commands ≤ deletedCount commands + n ∧
        ∀ later, later <:+ commands → typedCount later ≤ deletedCount later + n := by
  induction h generalizing n with
  | nil => simp
  | type _ hc ih =>
    rw [text_pressAll_concat_type hc, forall_suffix_concat_iff]
    simp only [typedCount_append, deletedCount_append, typedCount_of_char? hc,
      deletedCount_of_char? hc, List.length_append, List.length_singleton]
    cases n with
    | zero =>
      -- the last command alone leaves a character
      refine iff_of_false (Nat.not_succ_le_zero _) ?_
      rintro ⟨-, -, hends⟩
      exact absurd (hends [] List.nil_suffix) (by simp)
    | succ n =>
      rw [Nat.add_le_add_iff_right, ih, typedCount_nil, and_iff_right (Nat.zero_le _)]
      exact and_congr (by omega) (forall₂_congr fun later _ => by omega)
  | @delete before _ ih =>
    rw [text_pressAll_concat_delete, forall_suffix_concat_iff, List.length_dropLast,
      Nat.sub_le_iff_le_add, ih, typedCount_nil, and_iff_right (Nat.zero_le _)]
    simp only [typedCount_append, deletedCount_append, typedCount_delete, deletedCount_delete]
    exact and_congr (by omega) (forall₂_congr fun later _ => by omega)
  | refused _ herr ih =>
    rw [text_pressAll_concat_refused herr, forall_suffix_concat_iff, ih]
    simp

/-- Corrections leave the entry empty exactly if they delete all that was there or was typed, and
all that is typed in any last part of the history. -/
theorem Corrects.entry_eq_empty_iff (h : calculator.Corrects commands) :
    (calculator.pressAll commands).value.entry = .empty ↔
      calculator.entry.text.length + typedCount commands ≤ deletedCount commands ∧
        ∀ later, later <:+ commands → typedCount later ≤ deletedCount later := by
  have hempty : (calculator.pressAll commands).value.entry = .empty ↔
      (calculator.pressAll commands).value.entry.text.length ≤ 0 := by
    rw [Nat.le_zero, List.length_eq_zero_iff, Entry.ext_iff, Entry.text_empty]
  exact hempty.trans (h.length_le_iff 0)

/-- Some deletion finds the entry empty. -/
def Exhausts (calculator : Calculator) (commands : List Command) : Prop :=
  ∃ before, before ++ [.delete] <+: commands ∧ (calculator.pressAll before).value.entry = .empty

/-- What has found the entry empty has done so whatever follows. -/
theorem Exhausts.append (h : calculator.Exhausts before) (later : List Command) :
    calculator.Exhausts (before ++ later) := by
  obtain ⟨first, hfirst, hempty⟩ := h
  exact ⟨first, hfirst.trans (List.prefix_append before later), hempty⟩

/-- Unless some deletion finds the entry empty, every deletion takes a character away. -/
theorem Corrects.length_eq_or_exhausts (h : calculator.Corrects commands) :
    (calculator.pressAll commands).value.entry.text.length + deletedCount commands =
        calculator.entry.text.length + typedCount commands ∨ calculator.Exhausts commands := by
  induction h with
  | nil => exact Or.inl rfl
  | type _ hc ih =>
    rcases ih with hlength | hempty
    · left
      rw [text_pressAll_concat_type hc, typedCount_append, deletedCount_append,
        typedCount_of_char? hc, deletedCount_of_char? hc, List.length_append, List.length_singleton]
      omega
    · exact Or.inr (hempty.append _)
  | @delete before _ ih =>
    rcases ih with hlength | hempty
    · by_cases hnil : (calculator.pressAll before).value.entry.text = []
      · exact Or.inr ⟨before, List.prefix_rfl, Entry.ext hnil⟩
      · left
        have hpos := List.length_pos_iff.2 hnil
        rw [text_pressAll_concat_delete, typedCount_append, deletedCount_append, typedCount_delete,
          deletedCount_delete, List.length_dropLast]
        omega
    · exact Or.inr (hempty.append _)
  | refused _ herr ih =>
    rcases ih with hlength | hempty
    · left
      rw [text_pressAll_concat_refused herr]
      simpa using hlength
    · exact Or.inr (hempty.append _)

/-- A deletion leaves an empty entry empty. -/
theorem entry_pressAll_delete_of_empty (h : (calculator.pressAll before).value.entry = .empty) :
    (calculator.pressAll (before ++ [.delete])).value.entry = .empty := by
  ext1
  rw [text_pressAll_concat_delete, h]
  rfl

/-- Every command but calculating shows the entry that it leaves. -/
theorem display_press (hne : command ≠ .equals) (calculator : Calculator) :
    (calculator.press command).value.display = (calculator.press command).value.entry.text := by
  have hcalculates : ¬ (Operation.press command).Calculates := by
    simpa [Operation.Calculates] using hne
  obtain ⟨entry, hentry⟩ := exists_perform_eq_showing hcalculates calculator
  have hpress : (calculator.press command).value = showing entry := hentry
  rw [hpress]
  rfl

/-- Corrections that delete as many characters as they type, and never more than they typed, leave
the entry that they found, so that any command after them does what it would have done before them.
After any corrections, every further command but calculating shows the entry that it leaves.

The entry is empty after corrections exactly if they delete all that was there or was typed, and all
that is typed in any last part of the history, since a deletion takes nothing back that is typed
after it. Where they delete more than there ever was, some deletion finds the entry empty, and
leaves it so. -/
theorem corrections_restore_entry (h : calculator.Corrects commands) :
    (Balanced commands →
        (calculator.pressAll commands).value.entry = calculator.entry ∧
          ∀ command, (calculator.pressAll (commands ++ [command])).value =
            (calculator.press command).value) ∧
      (∀ command, command ≠ .equals →
        (calculator.pressAll (commands ++ [command])).value.display =
          (calculator.pressAll (commands ++ [command])).value.entry.text) ∧
      ((calculator.pressAll commands).value.entry = .empty ↔
        calculator.entry.text.length + typedCount commands ≤ deletedCount commands ∧
          ∀ later, later <:+ commands → typedCount later ≤ deletedCount later) ∧
      (calculator.entry.text.length + typedCount commands < deletedCount commands →
        ∃ before, before ++ [.delete] <+: commands ∧
          (calculator.pressAll before).value.entry = .empty ∧
            (calculator.pressAll (before ++ [.delete])).value.entry = .empty) := by
  refine ⟨?_, ?_, h.entry_eq_empty_iff, ?_⟩
  · intro hbalanced
    have hentry := h.entry_eq hbalanced
    refine ⟨hentry, fun command => ?_⟩
    rw [value_pressAll_concat, value_press_congr hentry]
  · intro command hne
    rw [value_pressAll_concat]
    exact display_press hne _
  · intro hmore
    rcases h.length_eq_or_exhausts with hlength | ⟨before, hbefore, hempty⟩
    · omega
    · exact ⟨before, hbefore, hempty, entry_pressAll_delete_of_empty hempty⟩

/-- A division by zero and one by a letter are refused and taken back, with an error on the display
from the start, and a single digit is deleted three times. -/
theorem corrections_restore_entry_nine :
    (pressAll ⟨⟨"9".toList⟩, errorText⟩
        [.operator (.factor .divide), .digit '0', .equals, .delete, .digit 'é', .equals, .delete,
          .delete]).value.entry = ⟨"9".toList⟩ ∧
      (pressAll ⟨⟨"9".toList⟩, errorText⟩ [.delete, .delete, .delete]).value.entry = .empty := by
  have hzero : (evaluate (pressAll ⟨⟨"9".toList⟩, errorText⟩
      [.operator (.factor .divide), .digit '0']).value.entry.text).value =
        .error .divisionByZero := by
    decide +kernel
  have hletter : (evaluate (pressAll ⟨⟨"9".toList⟩, errorText⟩
      [.operator (.factor .divide), .digit '0', .equals, .delete,
        .digit 'é']).value.entry.text).value = .error (.unexpectedChar 'é' 2) := by
    decide +kernel
  have htyped : Corrects ⟨⟨"9".toList⟩, errorText⟩ [.operator (.factor .divide), .digit '0'] :=
    .type (.type .nil rfl) rfl
  have hrefused : Corrects ⟨⟨"9".toList⟩, errorText⟩
      [.operator (.factor .divide), .digit '0', .equals, .delete, .digit 'é', .equals, .delete,
        .delete] :=
    .delete (.delete (.refused (.type (.delete (.refused htyped hzero)) rfl) hletter))
  have hdeleted : Corrects ⟨⟨"9".toList⟩, errorText⟩ [.delete, .delete, .delete] :=
    .delete (.delete (.delete .nil))
  obtain ⟨hbalanced, -⟩ := corrections_restore_entry hrefused
  obtain ⟨-, -, hempty, -⟩ := corrections_restore_entry hdeleted
  refine ⟨(hbalanced (by decide)).1, hempty.2 ⟨by decide, fun later hlater => ?_⟩⟩
  have hends : ∀ later ∈ [.delete, .delete, (.delete : Command)].tails,
      typedCount later ≤ deletedCount later := by
    decide
  exact hends later ((List.mem_tails _ _).2 hlater)

end Calculator

end FourFunction
