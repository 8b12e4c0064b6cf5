import FourFunction.Journal.Level
import FourFunction.Journal.Pattern
import FourFunction.Text.Blank

/-!
# Directives

A directive of a journal filter sets a threshold of detail, for all records or for some: those
whose target starts with a name, those inside a span, those with a field. Written in full it is
`target[span{field=value}]=level`, where every part may be missing; a threshold that stands alone
is for all records, any other word alone is a target.

Blanks at the ends of a directive are passed over while it is scanned, but the places found by the
scan, counted in bytes, are cut out of the text with its blanks. So blanks in front shift what
is cut, blanks at the end belong to the last part, and a cut may fall inside a character, which
is a fault of its own.
-/

namespace FourFunction

/-- Why a directive cannot be read. -/
inductive DirectiveFault where
  /-- It has not the form of a directive. -/
  | malformed
  /-- A part of it would begin or end inside a character. -/
  | splitCharacter
deriving DecidableEq, Repr

/-- A field that a record must have. -/
structure FieldTest where
  /-- The name of the field. -/
  name : Text
  /-- A value of the field is asked for too. -/
  hasValue : Bool
deriving DecidableEq, Repr

/-- Which records a threshold is for. A comma ends a directive, so there is at most one field. -/
structure Scope where
  /-- What the target of a record starts with. -/
  target : Option Text := none
  /-- The name of a span around the record. -/
  span : Option Text := none
  /-- A field of the record. -/
  field : Option FieldTest := none
deriving DecidableEq, Repr

/-- A threshold for the records in a scope. -/
structure Directive where
  /-- The records that it is for. -/
  scope : Scope
  /-- The most detail of them that is kept. -/
  threshold : Threshold
deriving DecidableEq, Repr

/-- Reads the test of a field: a name, and the pattern of a value after an equals sign. A second
equals sign ends the pattern. -/
def FieldTest.ofText? (text : Text) : Option FieldTest :=
  let name := text.takeWhile (· != '=')
  match text.dropWhile (· != '=') with
  | [] => if name = [] then none else some ⟨name, false⟩
  | _ :: value =>
    if Pattern.isReadable (value.takeWhile (· != '=')) then some ⟨name, true⟩ else none

namespace Directive

/-- A part of a directive, by the numbers of bytes before its first and after its last
character. -/
def part (whole : Text) (first last : Nat) : Except DirectiveFault Text :=
  match slice? whole first last with
  | some text => .ok text
  | none => .error .splitCharacter

/-- The threshold that stands at the end of a directive; nothing at all stands for all detail. -/
def lastPart (whole : Text) (first : Nat) : Except DirectiveFault Threshold :=
  match sliceFrom? whole first with
  | none => .error .splitCharacter
  | some [] => .ok (.upTo .trace)
  | some level =>
    match Threshold.ofText? level with
    | some threshold => .ok threshold
    | none => .error .malformed

/-- Reads what follows the closing bracket, `rest` from the byte `first` on: nothing, or an equals
sign and a threshold. -/
def afterScope (whole : Text) (scope : Scope) (rest : Text) (first : Nat) :
    Except DirectiveFault Directive :=
  match rest with
  | [] => .ok ⟨scope, .upTo .trace⟩
  | '=' :: _ => return ⟨scope, ← lastPart whole (first + 1)⟩
  | _ => .error .malformed

/-- Reads what follows an opening brace, `rest` from the byte `first` on: the test of a field and a
closing brace and bracket. -/
def afterBrace (whole : Text) (scope : Scope) (rest : Text) (first : Nat) :
    Except DirectiveFault Directive := do
  let last := first + utf8Length (rest.takeWhile (· != '}'))
  match rest.dropWhile (· != '}') with
  | [] => .error .malformed
  | _ :: more =>
    match FieldTest.ofText? (← part whole first last), more with
    | some field, ']' :: after => afterScope whole { scope with field } after (last + 2)
    | _, _ => .error .malformed

/-- Reads what follows an opening bracket, `rest` from the byte `first` on: the name of a span, then
the closing bracket or an opening brace. Before a brace the name may be missing. -/
def afterBracket (whole : Text) (target : Option Text) (rest : Text) (first : Nat) :
    Except DirectiveFault Directive := do
  let isName := fun c : Char => c != ']' && c != '{'
  let last := first + utf8Length (rest.takeWhile isName)
  match rest.dropWhile isName with
  | [] => .error .malformed
  | mark :: after =>
    let span ← part whole first last
    if mark = ']' then afterScope whole { target, span } after (last + 1)
    else if span = [] then afterBrace whole { target } after (last + 1)
    else afterBrace whole { target, span } after (last + 1)

/-- A character that may begin a target or a threshold: a letter, a number, or one of three
marks. -/
def isStart (c : Char) : Bool := c == '-' || c == ':' || c == '_' || isAlphanumeric c

/-- Reads a directive that is a word alone: a threshold for all records, or a target for all
detail. -/
def ofWord (word : Text) : Directive :=
  match Threshold.ofText? word with
  | some threshold => ⟨{}, threshold⟩
  | none => ⟨{ target := word }, .upTo .trace⟩

/-- Reads a directive. -/
def ofText (whole : Text) : Except DirectiveFault Directive :=
  match trimBlanks whole with
  | [] => .error .malformed
  | '[' :: rest => afterBracket whole none rest 1
  | first :: rest => do
    let isName := fun c : Char => c != '=' && c != '['
    if !isStart first then .error .malformed
    else
      let last := first.utf8Size + utf8Length (rest.takeWhile isName)
      match rest.dropWhile isName with
      | [] => .ok (ofWord whole)
      | mark :: after =>
        let target ← part whole 0 last
        if mark = '=' then return ⟨{ target }, ← lastPart whole (last + 1)⟩
        else afterBracket whole target after (last + 1)

end Directive

end FourFunction
