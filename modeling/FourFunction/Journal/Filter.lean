import FourFunction.Journal.Directive

/-!
# Journal filters

A filter is a list of directives, separated by commas, that say which records are kept. Of the
directives whose scope a record is in, the most specific decides: the one with the longest target,
then one with a field before one without. A record in no scope is dropped. A filter without
directives keeps errors only.

The records that are filtered here stand in no span, so that directives which name a span or ask
for a field's value never decide about them.
-/

namespace FourFunction

/-- What a filter looks at in a record. -/
structure Subject where
  /-- The part of the calculator that the record comes from. -/
  target : Text
  /-- The names of its fields. -/
  fields : List Text
  /-- Its level. -/
  level : Level
deriving DecidableEq, Repr

namespace Scope

/-- The scope may hold records that stand in no span. -/
def isSpanless (scope : Scope) : Bool :=
  scope.span.isNone && scope.field.all (!·.hasValue)

/-- A record that stands in no span is in the scope. -/
def holds (scope : Scope) (subject : Subject) : Bool :=
  scope.isSpanless && scope.target.all (·.isPrefixOf subject.target) &&
    scope.field.all (subject.fields.contains ·.name)

/-- The length of the target, in which no target at all comes before every target. -/
def targetRank (scope : Scope) : Nat :=
  match scope.target with
  | none => 0
  | some target => utf8Length target + 1

/-- The scope is at least as specific as another that holds the same record: its target is longer,
or as long and it has a field where the other has none. Two fields are in order of their names. -/
def refines (scope other : Scope) : Bool :=
  if scope.targetRank = other.targetRank then
    match scope.field, other.field with
    | _, none => true
    | none, some _ => false
    | some field, some otherField =>
      !(List.lex field.name otherField.name fun c d => c.toNat < d.toNat)
  else other.targetRank < scope.targetRank

end Scope

/-- Which records are kept. -/
abbrev JournalFilter := List Directive

namespace JournalFilter

/-- The pieces of a text between its commas, empty ones left out. -/
def pieces (text : Text) : List Text :=
  (text.splitOnP (· == ',')).filter (· ≠ [])

/-- Reads a filter. The first directive that cannot be read makes the whole text invalid. -/
def ofText (text : Text) : Except DirectiveFault JournalFilter :=
  (pieces text).mapM Directive.ofText

/-- Of a directive and a later one, the more specific, and the later if they are equally so. -/
def moreSpecific (first : Option Directive) (later : Directive) : Option Directive :=
  match first with
  | none => some later
  | some directive => if later.scope.refines directive.scope then some later else some directive

/-- The directive that decides about a record. -/
def decisive? (filter : JournalFilter) (subject : Subject) : Option Directive :=
  (filter.filter (·.scope.holds subject)).foldl moreSpecific none

/-- A record is kept. -/
def keeps (filter : JournalFilter) (subject : Subject) : Bool :=
  if filter.isEmpty then Threshold.keeps (.upTo .error) subject.level
  else match decisive? filter subject with
    | some directive => directive.threshold.keeps subject.level
    | none => false

end JournalFilter

end FourFunction
