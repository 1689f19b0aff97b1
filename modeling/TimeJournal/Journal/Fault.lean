import TimeJournal.Span
import TimeJournal.Calendar.Date

/-! # Faults in a journal text

A `ParseFault` is a cause and the span that it applies to. `describe` adds to the wording of the
cause what was expected in its place. -/

namespace TimeJournal

/-- The fields of the front matter. -/
inductive FieldKey where
  | date
  | start
  | stop
  deriving DecidableEq, Repr

namespace FieldKey

/-- How a field is written. -/
def name : FieldKey → String
  | .date => "date"
  | .start => "start"
  | .stop => "end"

/-- All fields. -/
def all : List FieldKey := [.date, .start, .stop]

end FieldKey

/-- The gaps in an entry that have to hold a blank. -/
inductive Gap where
  | afterDash
  | afterRange
  | named (place : String)
  deriving DecidableEq, Repr

/-- Where a gap is. -/
def Gap.place : Gap → String
  | .afterDash => "after '-'"
  | .afterRange => "after the time range"
  | .named place => place

/-- What is wrong with a journal text. -/
inductive ParseCause where
  | noOpeningDelimiter
  | unterminatedFrontMatter
  | unexpectedFrontMatterLine
  | badDate (fault : Date.Fault)
  | noDash
  | noBlank (gap : Gap)
  | malformedTime
  | noRangeDash
  | noDuration
  | badDuration (token : String)
  | malformedEntry
  | invalidFrontMatter
  | described (message : String)
  deriving DecidableEq, Repr

namespace ParseCause

/-- The wording of a cause. -/
def message : ParseCause → String
  | .noOpeningDelimiter => "Expected front matter opening delimiter"
  | .unterminatedFrontMatter => "Unterminated front matter"
  | .unexpectedFrontMatterLine => "Unexpected line in front matter"
  | .badDate fault => s!"Unrecognizable date: {fault.message}"
  | .noDash => "Expected '-'"
  | .noBlank gap => s!"Expected whitespace {gap.place}"
  | .malformedTime => "Malformed time"
  | .noRangeDash => "Expected '-' between start and end time"
  | .noDuration => "Expected a duration after at most two codes"
  | .badDuration token => s!"Unrecognizable duration: '{token}'"
  | .malformedEntry => "Malformed entry"
  | .invalidFrontMatter => "Invalid front matter"
  | .described message => message

/-- What could have stood in the place of the fault. -/
def expected : ParseCause → List String
  | .noOpeningDelimiter => ["---"]
  | .unterminatedFrontMatter => ["---"]
  | .unexpectedFrontMatterLine => FieldKey.all.map FieldKey.name
  | .badDate _ => ["YYYY-MM-DD"]
  | .noDash => ["-"]
  | .noBlank _ => []
  | .malformedTime => ["HH:MM"]
  | .noRangeDash => ["-"]
  | .noDuration => ["CODE", "DURATION"]
  | .badDuration _ => ["decimal hours"]
  | .malformedEntry => []
  | .invalidFrontMatter => []
  | .described _ => []

end ParseCause

/-- A fault in a journal text. -/
structure ParseFault where
  cause : ParseCause
  span : Span
  deriving DecidableEq, Repr

namespace ParseFault

/-- The wording of a fault. -/
def message (f : ParseFault) : String := f.cause.message

/-- What could have stood in the place of a fault. -/
def expected (f : ParseFault) : List String := f.cause.expected

/-- A text in single quotes. -/
def quoted (s : String) : String := s!"'{s}'"

/-- The wording of a fault with what was expected. -/
def describe (f : ParseFault) : String :=
  if f.expected.isEmpty then f.message
  else
    let list := String.intercalate ", " (f.expected.map quoted)
    s!"{f.message} (expected: {list})"

end ParseFault

end TimeJournal
