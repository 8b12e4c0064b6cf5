import FourFunction.Journal.Filter

/-!
# Start-up

The calculator announces itself in the journal when it starts. The user's filter decides whether
the announcement is kept; without a filter, or with one that is malformed, a default does. A
filter that would be cut inside a character ends the program before the announcement.
-/

namespace FourFunction

/-- The title of the calculator's window. -/
def title : String := "Calculator"

/-- The target of the calculator's own records. -/
def ownTarget : Text := "calculatrice_base".toList

/-- The filter that is used when the user sets none: the calculator's own records, up to `info`. -/
def defaultFilter : JournalFilter := [⟨{ target := ownTarget }, .upTo .info⟩]

/-- A line of the journal as it is printed, without its time and target. -/
structure JournalLine where
  /-- The level of the record. -/
  level : Level
  /-- Its message and fields. -/
  text : String
deriving DecidableEq, Repr

/-- The announcement: its message, and the window's title in quotes. -/
def announcement : JournalLine := ⟨.info, "démarrage titre=\"" ++ title ++ "\""⟩

/-- What a filter sees of the announcement: it has a message and a title. -/
def announcementSubject : Subject :=
  ⟨ownTarget, ["message".toList, "titre".toList], announcement.level⟩

/-- The filter for a setting of the user; none where reading the setting ends the program. -/
def filterOf? (setting : Option Text) : Option JournalFilter :=
  match setting.map JournalFilter.ofText with
  | none => some defaultFilter
  | some (.ok filter) => some filter
  | some (.error .malformed) => some defaultFilter
  | some (.error .splitCharacter) => none

/-- The lines that the start-up prints under a setting of the user. -/
def startup (setting : Option Text) : List JournalLine :=
  match filterOf? setting with
  | some filter => if filter.keeps announcementSubject then [announcement] else []
  | none => []

end FourFunction
