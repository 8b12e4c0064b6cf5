import FourFunction.Calculator.Frame
import Mathlib.Logic.Relation

/-!
# Frames group commands

A frame obeys the commands of its keyboard events and then the command of its click. So frames are
only a grouping of one list of commands, which the calculator obeys one after the other, and each
frame paints what is on the display between the keyboard and the click. What frames leave depends on
the list alone: not on the events in which text was typed, nor on where a frame ends, nor on events
that have no command, nor on whether a button was clicked or its label typed.

## Main results

* `Calculator.map_afterAll_runAll`: running frames is obeying their commands;
* `Frame.Rewrites.commands_eq`: changes to frames that leave their commands;
* `Calculator.frames_group_commands`: what frames paint, and what they leave.
-/

namespace FourFunction

/-- The commands of a frame, in the order in which they are obeyed. -/
def Frame.commands (frame : Frame) : List Command := frame.keyCommands ++ frame.clickCommands

/-! ## Running frames -/

namespace Calculator

/-- The calculator after frames were painted; it is as before if there are none. -/
def afterAll (calculator : Calculator) (painted : List Painted) : Calculator :=
  (painted.getLast?.map Painted.after).getD calculator

theorem afterAll_cons (calculator : Calculator) (painted : Painted) (others : List Painted) :
    calculator.afterAll (painted :: others) = painted.after.afterAll others := by
  rw [afterAll, afterAll, List.getLast?_cons]
  cases others.getLast? <;> rfl

/-- A frame obeys its commands. -/
theorem map_after_run (calculator : Calculator) (frame : Frame) :
    Painted.after <$> calculator.run frame = calculator.pressAll frame.commands := by
  rw [run, Frame.commands, pressAll_append]
  simp only [map_bind, map_pure, bind_pure]

/-- A frame paints what is on the display when the keyboard's commands were obeyed. -/
theorem value_run (calculator : Calculator) (frame : Frame) : (calculator.run frame).value =
    ⟨(calculator.pressAll frame.keyCommands).value.display,
      (calculator.pressAll frame.commands).value⟩ := by
  rw [← map_after_run]
  rfl

/-- The first frame is run alone, the others from the calculator that its commands leave. -/
theorem value_runAll_cons (calculator : Calculator) (frame : Frame) (frames : List Frame) :
    (calculator.runAll (frame :: frames)).value = (calculator.run frame).value ::
      ((calculator.pressAll frame.commands).value.runAll frames).value := by
  rw [← map_after_run]
  rfl

/-- Frames that are run one after the other obey all their commands in order, with the journal of
these commands. -/
theorem map_afterAll_runAll (calculator : Calculator) (frames : List Frame) :
    calculator.afterAll <$> calculator.runAll frames =
      calculator.pressAll (frames.flatMap Frame.commands) := by
  induction frames generalizing calculator with
  | nil => rfl
  | cons frame frames ih =>
    calc calculator.afterAll <$> calculator.runAll (frame :: frames)
        = calculator.run frame >>= fun painted =>
            painted.after.afterAll <$> painted.after.runAll frames := by
          simp only [runAll, map_bind, bind_pure_comp, Functor.map_map, afterAll_cons]
      _ = Painted.after <$> calculator.run frame >>= fun next =>
            next.pressAll (frames.flatMap Frame.commands) := by
          simp only [ih, bind_map_left]
      _ = calculator.pressAll ((frame :: frames).flatMap Frame.commands) := by
          rw [map_after_run, List.flatMap_cons, pressAll_append]

/-- One text is painted for each frame. -/
theorem length_value_runAll (calculator : Calculator) (frames : List Frame) :
    (calculator.runAll frames).value.length = frames.length := by
  induction frames generalizing calculator with
  | nil => rfl
  | cons frame frames ih => rw [value_runAll_cons, List.length_cons, ih, List.length_cons]

/-- What a frame paints and leaves, after the commands of the frames before it. -/
theorem getElem?_value_runAll (calculator : Calculator) (before : List Frame) (frame : Frame)
    (after : List Frame) :
    (calculator.runAll (before ++ frame :: after)).value[before.length]? =
      some ⟨(calculator.pressAll (before.flatMap Frame.commands ++ frame.keyCommands)).value.display,
        (calculator.pressAll (before.flatMap Frame.commands ++ frame.commands)).value⟩ := by
  induction before generalizing calculator with
  | nil =>
    rw [List.nil_append, value_runAll_cons, value_run]
    rfl
  | cons first before ih =>
    rw [List.cons_append, value_runAll_cons, List.length_cons, List.getElem?_cons_succ, ih,
      List.flatMap_cons, List.append_assoc, List.append_assoc, value_pressAll_append calculator,
      value_pressAll_append calculator]

end Calculator

/-! ## Changes to frames -/

/-- The event that has the command of the button with a given label: its label is typed, or the key
that stands for it goes down. -/
def Keypad.typedLabel (label : String) : KeyEvent :=
  if label = "Del" then .key .backspace true false
  else if label = "C" then .key .escape true false
  else .typed label.toList

/-- A change to the events of the keyboard. -/
inductive KeyEvent.Rewrites : List KeyEvent → List KeyEvent → Prop where
  /-- Text is typed in two events. -/
  | split (front back : Text) : Rewrites [.typed (front ++ back)] [.typed front, .typed back]
  /-- An event without text is left out. -/
  | blank : Rewrites [.typed []] []
  /-- A character without a command is left out. -/
  | unmapped (front : Text) (c : Char) (back : Text) (h : Command.ofChar? c = none) :
      Rewrites [.typed (front ++ c :: back)] [.typed (front ++ back)]
  /-- The release of a key is left out. -/
  | release (key : Key) (repeated : Bool) : Rewrites [.key key false repeated] []
  /-- A key without a command is left out. -/
  | other (pressed repeated : Bool) : Rewrites [.key .other pressed repeated] []

/-- A change to a list of frames. -/
inductive Frame.Rewrites : List Frame → List Frame → Prop where
  /-- Some events of a frame are changed. -/
  | events (before after : List Frame) (first later : List KeyEvent) (click : Option String)
      {old new : List KeyEvent} (h : KeyEvent.Rewrites old new) :
      Rewrites (before ++ ⟨first ++ old ++ later, click⟩ :: after)
        (before ++ ⟨first ++ new ++ later, click⟩ :: after)
  /-- A frame without a click ends between two events. -/
  | boundary (before after : List Frame) (first later : List KeyEvent) (click : Option String) :
      Rewrites (before ++ ⟨first ++ later, click⟩ :: after)
        (before ++ ⟨first, none⟩ :: ⟨later, click⟩ :: after)
  /-- A button is not clicked, but its label is typed after the other events of the frame. -/
  | click (before after : List Frame) (events : List KeyEvent) (button : Button)
      (h : button ∈ Keypad.buttons) :
      Rewrites (before ++ ⟨events, some button.label⟩ :: after)
        (before ++ ⟨events ++ [Keypad.typedLabel button.label], none⟩ :: after)

/-- A rewriting of the key events of a frame keeps the commands. -/
theorem KeyEvent.Rewrites.commands_eq {old new : List KeyEvent} (h : Rewrites old new) :
    old.flatMap commands = new.flatMap commands := by
  cases h with
  | split front back => simp [commands]
  | blank => simp [commands]
  | unmapped front c back h => simp [commands, h]
  | release key repeated => simp [commands]
  | other pressed repeated => simp [commands, Key.command?]

/-- A click and the event that stands for it have the same command. -/
theorem Keypad.commands_typedLabel {button : Button} (h : button ∈ buttons) :
    (typedLabel button.label).commands = (command? button.label).toList := by
  revert h button
  decide

/-- A change to frames leaves the list of their commands as it is. -/
theorem Frame.Rewrites.commands_eq {old new : List Frame} (h : Rewrites old new) :
    old.flatMap commands = new.flatMap commands := by
  cases h with
  | events before after first later click h =>
    simp [commands, keyCommands, clickCommands, h.commands_eq]
  | boundary before after first later click =>
    simp [commands, keyCommands, clickCommands]
  | click before after events button h =>
    simp [commands, keyCommands, clickCommands, Keypad.commands_typedLabel h]

/-- Any number of rewritings, in either direction, keep the commands. -/
theorem Frame.commands_eq_of_eqvGen {old new : List Frame}
    (h : Relation.EqvGen Frame.Rewrites old new) :
    old.flatMap commands = new.flatMap commands := by
  induction h with
  | rel old new hrewrites => exact hrewrites.commands_eq
  | refl frames => rfl
  | symm old new _ ih => exact ih.symm
  | trans old mid new _ _ ih ih' => exact ih.trans ih'

namespace Calculator

/-- After its frames the calculator is as after all their commands. -/
theorem afterAll_value_runAll (calculator : Calculator) (frames : List Frame) :
    calculator.afterAll (calculator.runAll frames).value =
      (calculator.pressAll (frames.flatMap Frame.commands)).value := by
  rw [← map_afterAll_runAll, Logged.value_map]

/-- Frames are only a grouping of commands. They leave what their commands leave when they are
obeyed one after the other, and each paints the display as it is after its keyboard's commands and
before its click. So the calculator that they leave does not change when typed text is split, when a
frame ends somewhere else, when events without a command come or go, or when a label is typed that
was clicked. -/
theorem frames_group_commands (calculator : Calculator) (frames : List Frame) :
    calculator.afterAll (calculator.runAll frames).value =
        (calculator.pressAll (frames.flatMap Frame.commands)).value ∧
      (calculator.runAll frames).value.length = frames.length ∧
      (∀ before frame after, frames = before ++ frame :: after →
        (calculator.runAll frames).value[before.length]? = some
          ⟨(calculator.pressAll (before.flatMap Frame.commands ++ frame.keyCommands)).value.display,
            (calculator.pressAll (before.flatMap Frame.commands ++ frame.commands)).value⟩) ∧
      ∀ other, Relation.EqvGen Frame.Rewrites frames other →
        calculator.afterAll (calculator.runAll frames).value =
          calculator.afterAll (calculator.runAll other).value := by
  refine ⟨afterAll_value_runAll calculator frames, length_value_runAll calculator frames, ?_, ?_⟩
  · rintro before frame after rfl
    exact getElem?_value_runAll calculator before frame after
  · intro other h
    rw [afterAll_value_runAll, afterAll_value_runAll, Frame.commands_eq_of_eqvGen h]

/-- A click on the three paints what was typed before it. The same is left when text is typed in two
events, the first of which has a frame of its own, and the three is typed too. -/
theorem frames_group_commands_twelve_plus_three :
    (runAll {} [⟨[.typed "12+".toList], some "3"⟩]).value[0]? =
        some ⟨"12+".toList, .showing ⟨"12+3".toList⟩⟩ ∧
      afterAll {} (runAll {} [⟨[.typed "12+".toList], some "3"⟩]).value =
        afterAll {} (runAll {}
          [⟨[.typed "12".toList], none⟩, ⟨[.typed "+".toList, .typed "3".toList], none⟩]).value := by
  obtain ⟨-, -, hpainted, hrewrites⟩ :=
    frames_group_commands {} [⟨[.typed "12+".toList], some "3"⟩]
  refine ⟨hpainted [] _ [] rfl, hrewrites _ ?_⟩
  have hsplit : Frame.Rewrites [⟨[.typed "12+".toList], some "3"⟩]
      [⟨[.typed "12".toList, .typed "+".toList], some "3"⟩] :=
    .events [] [] [] [] _ (.split "12".toList "+".toList)
  have hboundary : Frame.Rewrites [⟨[.typed "12".toList, .typed "+".toList], some "3"⟩]
      [⟨[.typed "12".toList], none⟩, ⟨[.typed "+".toList], some "3"⟩] :=
    .boundary [] [] [.typed "12".toList] [.typed "+".toList] _
  have hclick : Frame.Rewrites [⟨[.typed "12".toList], none⟩, ⟨[.typed "+".toList], some "3"⟩]
      [⟨[.typed "12".toList], none⟩, ⟨[.typed "+".toList, .typed "3".toList], none⟩] :=
    .click [⟨[.typed "12".toList], none⟩] [] _ ⟨"3", .digit '3'⟩ (by decide)
  exact .trans _ _ _ (.rel _ _ hsplit) (.trans _ _ _ (.rel _ _ hboundary) (.rel _ _ hclick))

end Calculator

end FourFunction
