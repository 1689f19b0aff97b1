import TimeJournal.Text.Decimal

/-! # Decimal hours

Durations are written as decimal hours: `1.25` is an hour and a quarter. Arithmetic on hours is done
in binary fractions with 53 significant bits, each result rounded to the nearest one and a tie to
the even one; the range of exponents is not bounded, since values outside the usual range are 0
seconds or far beyond the longest duration.

* `seconds?` reads a literal: the nearest binary fraction, times 3600, rounded to whole seconds.
* `render` writes a number of seconds as hours with two decimals. -/

namespace TimeJournal.Hours

/-! ### Rounding -/

/-- The integer nearest to `q`; of two equally near ones the even one. -/
def roundEven (q : Rat) : Int :=
  let down := q.floor
  let excess := q - down
  if excess < 1 / 2 then down
  else if 1 / 2 < excess then down + 1
  else if down % 2 = 0 then down
  else down + 1

/-- The exponent of the leading binary digit of a positive rational. -/
def leadingExponent (q : Rat) : Int :=
  let guess : Int := (q.num.natAbs.log2 : Int) - q.den.log2
  if (2 : Rat) ^ guess ≤ q then guess else guess - 1

/-- The binary fraction with 53 significant bits nearest to a rational that is not negative; of two
equally near ones the one with an even last bit. -/
def nearestBinary (q : Rat) : Rat :=
  if q ≤ 0 then 0
  else
    let unit := (2 : Rat) ^ (leadingExponent q - 52)
    roundEven (q / unit) * unit

/-! ### Literals -/

/-- Whether a character may stand in a literal. -/
def isLiteralChar (c : Char) : Bool := c.isDigit || c == '.'

/-- Whether a text looks like a literal: digits and dots only, and at least one of them. -/
def isShaped (s : List Char) : Bool := !s.isEmpty && s.all isLiteralChar

/-- Whether a text looks like a literal with a dot. -/
def isDecimal (s : List Char) : Bool := s.contains '.' && isShaped s

/-- The value of a literal: digits with at most one dot among them, and at least one digit. -/
def value? (s : List Char) : Option Rat :=
  match s.span (· != '.') with
  | (whole, []) => if Text.isNumber whole then some (Text.digitsValue whole) else none
  | (whole, _ :: decimals) =>
    if Text.isNumber (whole ++ decimals) then
      some ((Text.digitsValue (whole ++ decimals) : Rat) / (10 : Rat) ^ decimals.length)
    else none

/-- The longest duration in seconds: 999999999 days, 23 hours, 59 minutes and 59 seconds. -/
def maxSeconds : Nat := 86399999999999

/-- The whole seconds of a number of hours. -/
def toSeconds (hours : Rat) : Int := roundEven (nearestBinary (nearestBinary hours * 3600))

/-- The whole seconds that a literal writes. -/
def seconds? (s : List Char) : Option Nat :=
  match value? s with
  | none => none
  | some hours => if toSeconds hours ≤ maxSeconds then some (toSeconds hours).toNat else none

/-! ### Writing -/

/-- A rational that is not negative, with two decimals. -/
def twoDecimals (q : Rat) : String :=
  let hundredths := (roundEven (q * 100)).toNat
  String.ofList ((Nat.repr (hundredths / 100)).toList ++ '.' :: Text.padded 2 (hundredths % 100))

/-- A number of seconds as hours with two decimals. -/
def render (seconds : Nat) : String := twoDecimals (nearestBinary ((seconds : Rat) / 3600))

end TimeJournal.Hours
