/-! # Rules

The kinds of findings, each with its stable identifier. -/

namespace TimeJournal

/-- A kind of finding. -/
inductive Rule where
  | parseError
  | dateMismatch
  | startMismatch
  | stopMismatch
  | invalidStart
  | invalidStop
  | missingDate
  | missingStart
  | missingStop
  | timeJumped
  | negativeRange
  | incorrectDuration
  deriving DecidableEq, Repr

/-- An identifier that names no rule. -/
structure UnknownRule where
  id : String
  deriving DecidableEq, Repr

/-- The wording of the fault. -/
def UnknownRule.message (u : UnknownRule) : String := s!"Unknown rule: '{u.id}'"

namespace Rule

/-- All rules. -/
def all : List Rule :=
  [.parseError, .dateMismatch, .startMismatch, .stopMismatch, .invalidStart, .invalidStop,
    .missingDate, .missingStart, .missingStop, .timeJumped, .negativeRange, .incorrectDuration]

/-- The identifier of a rule. -/
def id : Rule → String
  | .parseError => "parse-error"
  | .dateMismatch => "date-mismatch"
  | .startMismatch => "starttime-mismatch"
  | .stopMismatch => "endtime-mismatch"
  | .invalidStart => "invalid-start-time"
  | .invalidStop => "invalid-end-time"
  | .missingDate => "missing-date"
  | .missingStart => "missing-start-time"
  | .missingStop => "missing-end-time"
  | .timeJumped => "time-jumped"
  | .negativeRange => "negative-time-range"
  | .incorrectDuration => "incorrect-duration"

/-- The rule with an identifier. -/
def parse (text : String) : Except UnknownRule Rule :=
  match all.find? fun r => r.id == text with
  | some r => .ok r
  | none => .error ⟨text⟩

theorem mem_all (r : Rule) : r ∈ all := by cases r <;> decide

end Rule

end TimeJournal
