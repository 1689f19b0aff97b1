import TimeJournal.Calendar.Date

/-! # Instants

An `Instant` is a minute of universal time, counted from 0001-01-01T00:00. It is written in ISO 8601
with seconds and the offset `+00:00`. -/

namespace TimeJournal

/-- A minute of universal time. -/
@[ext] structure Instant where
  minutes : Nat
  deriving DecidableEq, Repr

namespace Instant

/-- The first minute of a date. -/
def midnight (d : Date) : Instant := ⟨1440 * d.dayNumber⟩

/-- The instant as `YYYY-MM-DDTHH:MM:00+00:00`. -/
def toIso (t : Instant) : String :=
  let (year, month, day) := civil (t.minutes / 1440)
  String.ofList (civilText year month day ++ 'T' :: Text.padded 2 (t.minutes % 1440 / 60) ++
    ':' :: Text.padded 2 (t.minutes % 60) ++ ":00+00:00".toList)

end Instant

end TimeJournal
