import TimeJournal.Text.Decimal

/-! # Calendar dates

Dates of the Gregorian calendar from 0001-01-01 to 9999-12-31, written `YYYY-MM-DD`.

* `Date.parse` reads a date in exactly that layout and says why it refuses a text.
* `Date.dayNumber` counts the days since 0001-01-01, and `civil` turns such a count back into a
  year, a month and a day. -/

namespace TimeJournal

/-- Whether a year has a 29 February. -/
def isLeap (year : Nat) : Bool := year % 4 == 0 && (year % 100 != 0 || year % 400 == 0)

/-- The number of days of a month. -/
def daysInMonth (year month : Nat) : Nat :=
  if month = 2 then if isLeap year then 29 else 28
  else if month = 4 ∨ month = 6 ∨ month = 9 ∨ month = 11 then 30
  else 31

/-- A date of the years 1 to 9999. -/
@[ext] structure Date where
  year : Nat
  month : Nat
  day : Nat
  year_bounds : 1 ≤ year ∧ year ≤ 9999
  month_bounds : 1 ≤ month ∧ month ≤ 12
  day_bounds : 1 ≤ day ∧ day ≤ daysInMonth year month
  deriving DecidableEq, Repr

namespace Date

/-- Why a year, a month and a day are no date. -/
inductive Defect where
  | year (value : Nat)
  | month
  | day
  deriving DecidableEq, Repr

/-- The wording of a defect. -/
def Defect.message : Defect → String
  | .year value => s!"year {value} is out of range"
  | .month => "month must be in 1..12"
  | .day => "day is out of range for month"

/-- The date with these parts; of several defects the year's counts first, then the month's. -/
def ofParts (year month day : Nat) : Except Defect Date :=
  if hy : 1 ≤ year ∧ year ≤ 9999 then
    if hm : 1 ≤ month ∧ month ≤ 12 then
      if hd : 1 ≤ day ∧ day ≤ daysInMonth year month then .ok ⟨year, month, day, hy, hm, hd⟩
      else .error .day
    else .error .month
  else .error (.year year)

/-- Why a text is no date: it does not have the layout, or it names no day of the calendar. -/
inductive Fault where
  | layout (text : String)
  | calendar (text : String) (defect : Defect)
  deriving DecidableEq, Repr

/-- The wording of a fault. -/
def Fault.message : Fault → String
  | .layout text => s!"Expected a date in YYYY-MM-DD format, got '{text}'"
  | .calendar text defect => s!"Invalid calendar date '{text}': {defect.message}"

/-- The year, month and day of a text of four digits, a hyphen, two digits, a hyphen and two digits.
-/
def fields? : List Char → Option (Nat × Nat × Nat)
  | [y₁, y₂, y₃, y₄, '-', m₁, m₂, '-', d₁, d₂] =>
    if [y₁, y₂, y₃, y₄, m₁, m₂, d₁, d₂].all Char.isDigit then
      some (Text.digitsValue [y₁, y₂, y₃, y₄], Text.digitsValue [m₁, m₂], Text.digitsValue [d₁, d₂])
    else none
  | _ => none

/-- The date that a text writes as `YYYY-MM-DD`. -/
def parse (text : String) : Except Fault Date :=
  match fields? text.toList with
  | none => .error (.layout text)
  | some (year, month, day) =>
    match ofParts year month day with
    | .ok d => .ok d
    | .error defect => .error (.calendar text defect)

end Date

/-- A year, a month and a day as `YYYY-MM-DD`. -/
def civilText (year month day : Nat) : List Char :=
  Text.padded 4 year ++ '-' :: Text.padded 2 month ++ '-' :: Text.padded 2 day

/-- A date as `YYYY-MM-DD`. -/
def Date.toString (d : Date) : String := String.ofList (civilText d.year d.month d.day)

instance : ToString Date := ⟨Date.toString⟩

/-! ### Counting days -/

/-- The number of days from 0001-01-01 to the first day of a year. -/
def daysBeforeYear (year : Nat) : Nat :=
  let y := year - 1
  365 * y + y / 4 - y / 100 + y / 400

/-- The number of days of a year before the first day of a month. -/
def daysBeforeMonth (year month : Nat) : Nat :=
  (List.range' 1 (month - 1)).foldl (fun days m => days + daysInMonth year m) 0

/-- The number of days from 0001-01-01 to a date. -/
def Date.dayNumber (d : Date) : Nat :=
  daysBeforeYear d.year + daysBeforeMonth d.year d.month + (d.day - 1)

/-- The number of 9999-12-31. -/
def lastDayNumber : Nat := 3652058

/-- The year of a day number and the days of that year before the day. A cycle of 400 years has
146097 days, the first three centuries of a cycle 36524 each, the four-year groups of a century 1461
each. -/
def yearAndDay (n : Nat) : Nat × Nat :=
  let cycle := n / 146097
  let inCycle := n % 146097
  let century := min 3 (inCycle / 36524)
  let inCentury := inCycle - 36524 * century
  let group := inCentury / 1461
  let inGroup := inCentury % 1461
  let year := min 3 (inGroup / 365)
  (400 * cycle + 100 * century + 4 * group + year + 1, inGroup - 365 * year)

/-- The month, among those given, and the day of it that lie `n` days after the first of them. -/
def monthAndDay (year : Nat) : List Nat → Nat → Nat × Nat
  | [], n => (12, n + 1)
  | m :: ms, n =>
    if n < daysInMonth year m then (m, n + 1) else monthAndDay year ms (n - daysInMonth year m)

/-- The year, month and day with a day number. -/
def civil (n : Nat) : Nat × Nat × Nat :=
  let (year, day) := yearAndDay n
  (year, monthAndDay year (List.range' 1 12) day)

end TimeJournal
