import TimeJournal.Calendar.Instant

/-! # Time tokens

A `TimeToken` is a time of day as it was written, such as `09:05`. Its hour may run past 23: `24:30`
is half past midnight of the following day. The token gets a meaning only against a date: `resolve`
gives the instant that lies its hours and minutes after the midnight of that date, or the
`TimeFault` that keeps it from having one. -/

namespace TimeJournal

/-- A time as it was written. -/
@[ext] structure TimeToken where
  raw : String
  deriving DecidableEq, Repr

/-- Why a time token has no meaning; the kinds stand in the order in which they are looked for. -/
inductive TimeFault.Kind where
  | notTwoFields
  | nonNumericHour
  | nonNumericMinute
  | minuteOutOfRange
  | dateOverflow (hour : String) (reference : Date)
  deriving DecidableEq, Repr

/-- A token without a meaning, and why. -/
structure TimeFault where
  token : TimeToken
  kind : TimeFault.Kind
  deriving DecidableEq, Repr

namespace TimeFault

/-- The identifier of a kind of fault. -/
def Kind.id : Kind → String
  | .notTwoFields => "not-two-fields"
  | .nonNumericHour => "non-numeric-hour"
  | .nonNumericMinute => "non-numeric-minute"
  | .minuteOutOfRange => "minute-out-of-range"
  | .dateOverflow _ _ => "date-overflow"

/-- The wording of a kind of fault. -/
def Kind.reason : Kind → String
  | .notTwoFields => "expected exactly two colon-separated fields"
  | .nonNumericHour => "hour is not a number"
  | .nonNumericMinute => "minute is not a number"
  | .minuteOutOfRange => "minute must be at most 59"
  | .dateOverflow hour reference => s!"hour {hour} is out of range for {reference}"

/-- The wording of a fault. -/
def message (f : TimeFault) : String := s!"{f.kind.reason}: '{f.token.raw}'"

end TimeFault

namespace TimeToken

/-- The two parts of a text with exactly one colon. -/
def split? (s : List Char) : Option (List Char × List Char) :=
  match s.span (· != ':') with
  | (hour, _ :: minute) => if minute.contains ':' then none else some (hour, minute)
  | (_, []) => none

/-- The longest hour that is read. -/
def maxHourDigits : Nat := 4300

/-- The minute that a run of digits writes, if it is at most 59. -/
def minute? (digits : List Char) : Option Nat :=
  let significant := digits.dropWhile (· == '0')
  if significant.length ≤ 2 ∧ Text.digitsValue significant ≤ 59 then
    some (Text.digitsValue significant)
  else none

/-- The instant of a token against a date. -/
def resolve (t : TimeToken) (reference : Date) : Except TimeFault Instant :=
  match split? t.raw.toList with
  | none => .error ⟨t, .notTwoFields⟩
  | some (hour, minute) =>
    if !Text.isNumber hour then .error ⟨t, .nonNumericHour⟩
    else if !Text.isNumber minute then .error ⟨t, .nonNumericMinute⟩
    else
      match minute? minute with
      | none => .error ⟨t, .minuteOutOfRange⟩
      | some m =>
        if hour.length ≤ maxHourDigits ∧
            reference.dayNumber + Text.digitsValue hour / 24 ≤ lastDayNumber then
          .ok ⟨(Instant.midnight reference).minutes + 60 * Text.digitsValue hour + m⟩
        else .error ⟨t, .dateOverflow (String.ofList hour) reference⟩

end TimeToken

end TimeJournal
