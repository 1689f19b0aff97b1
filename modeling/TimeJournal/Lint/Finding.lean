import TimeJournal.Calendar.TimeToken
import TimeJournal.Hours
import TimeJournal.Journal.Fault
import TimeJournal.Lint.Rule

/-! # Findings

A `Finding` is an issue and the span where it was found. The rule, the wording, the severity, the
text that would put things right and the related places all follow from the issue. -/

namespace TimeJournal

/-- What was found. -/
inductive Issue where
  | parse (fault : ParseFault)
  | dateMismatch (expected : Date)
  | startMismatch (expected : TimeToken)
  | stopMismatch (expected : TimeToken) (uri : String) (lastStop : Span)
  | missing (field : FieldKey)
  | invalidStart (fault : TimeFault)
  | invalidStop (fault : TimeFault)
  | timeJumped (previous : TimeToken) (uri : String) (previousStop : Span)
  | negativeRange (start : TimeToken)
  | incorrectDuration (seconds : Nat)
  deriving DecidableEq, Repr

/-- How bad a finding is. -/
inductive Severity where
  | error
  | warning
  deriving DecidableEq, Repr

/-- The word for a severity. -/
def Severity.name : Severity → String
  | .error => "error"
  | .warning => "warning"

/-- Another place that explains a finding. -/
structure Related where
  uri : String
  span : Span
  message : String
  deriving DecidableEq, Repr

namespace Issue

/-- The rule of an issue. -/
def rule : Issue → Rule
  | .parse _ => .parseError
  | .dateMismatch _ => .dateMismatch
  | .startMismatch _ => .startMismatch
  | .stopMismatch .. => .stopMismatch
  | .missing .date => .missingDate
  | .missing .start => .missingStart
  | .missing .stop => .missingStop
  | .invalidStart _ => .invalidStart
  | .invalidStop _ => .invalidStop
  | .timeJumped .. => .timeJumped
  | .negativeRange _ => .negativeRange
  | .incorrectDuration _ => .incorrectDuration

/-- The wording of an issue. -/
def message : Issue → String
  | .parse fault => s!"Parse error: {fault.describe}"
  | .dateMismatch expected =>
    s!"Date is different from the one in the filename: expected to be {expected}"
  | .startMismatch expected =>
    s!"Start time is different from the one of the first entry: expected to be {expected.raw}."
  | .stopMismatch expected _ _ =>
    "End time in the front-matter is different from the one of the last " ++
      s!"entry: expected to be {expected.raw}."
  | .missing field => s!"Field '{field.name}' is missing"
  | .invalidStart fault => s!"Invalid start time: {fault.message}"
  | .invalidStop fault => s!"Invalid end time: {fault.message}"
  | .timeJumped previous _ _ =>
    "The start time does not match the previous entry's end time, " ++
      s!"which is {previous.raw}"
  | .negativeRange start => s!"End time is not ahead of start time ({start.raw})"
  | .incorrectDuration seconds => s!"Incorrect duration: expected {Hours.render seconds}"

/-- A text that cannot be read is an error; all else is a warning. -/
def severity : Issue → Severity
  | .parse _ => .error
  | _ => .warning

/-- The text that in place of the finding's span resolves it. -/
def suggestion : Issue → Option String
  | .dateMismatch expected => some expected.toString
  | .timeJumped previous _ _ => some previous.raw
  | .incorrectDuration seconds => some (Hours.render seconds)
  | _ => none

/-- Other places that explain an issue. -/
def related : Issue → List Related
  | .stopMismatch expected uri lastStop =>
    [⟨uri, lastStop, s!"The last entry ends with {expected.raw}."⟩]
  | .timeJumped previous uri previousStop =>
    [⟨uri, previousStop, s!"Previous entry's end time is {previous.raw}"⟩]
  | _ => []

end Issue

/-- An issue and where it was found. -/
structure Finding where
  span : Span
  issue : Issue
  deriving DecidableEq, Repr

namespace Finding

/-- The finding of a fault in the text. -/
def ofFault (fault : ParseFault) : Finding := ⟨fault.span, .parse fault⟩

/-- The rule of a finding. -/
def rule (f : Finding) : Rule := f.issue.rule

/-- The wording of a finding. -/
def message (f : Finding) : String := f.issue.message

/-- The severity of a finding. -/
def severity (f : Finding) : Severity := f.issue.severity

/-- The text that in place of the span resolves the finding. -/
def suggestion (f : Finding) : Option String := f.issue.suggestion

/-- Other places that explain the finding. -/
def related (f : Finding) : List Related := f.issue.related

/-- The rule and the wording of a finding. -/
def headline (f : Finding) : String := s!"{f.rule.id}: {f.message}"

end Finding

end TimeJournal
