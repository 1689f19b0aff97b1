import TimeJournal.Calendar.TimeToken
import TimeJournal.Proofs.Journal.Grammar
import TimeJournal.Proofs.Text.Digits

/-! # Clock times

`clock` writes a number of minutes past a midnight as `HH:MM`, with an hour that runs on past 23 and
has more than two digits from 100 on. So each minute past the midnight of a date has a time, and the
time says which minute it is.

* `isTime_clock`: a clock time is a time.
* `resolve_clock`: against the date it gives that minute again, up to the end of the year 9999. -/

namespace TimeJournal

open Text

/-- Minutes past a midnight as `HH:MM`. -/
def clock (minutes : ℕ) : String :=
  String.ofList (padded 2 (minutes / 60) ++ ':' :: padded 2 (minutes % 60))

theorem toList_clock (m : ℕ) :
    (clock m).toList = padded 2 (m / 60) ++ ':' :: padded 2 (m % 60) :=
  String.toList_ofList

/-- **A clock time is a time.** -/
theorem isTime_clock (m : ℕ) : IsTime (clock m).toList :=
  ⟨padded 2 (m / 60), padded 2 (m % 60), toList_clock m, padded_ne_nil _ _, padded_ne_nil _ _,
    fun _ => isDigit_of_mem_padded, fun _ => isDigit_of_mem_padded⟩

/-- A clock time is no white space. -/
theorem isSpace_clock {m : ℕ} {c : Char} (h : c ∈ (clock m).toList) : isSpace c = false := by
  rw [toList_clock, List.mem_append, List.mem_cons] at h
  rcases h with h | rfl | h
  · exact isSpace_of_isDigit (isDigit_of_mem_padded h)
  · decide
  · exact isSpace_of_isDigit (isDigit_of_mem_padded h)

namespace TimeToken

theorem split?_clock (m : ℕ) :
    split? (clock m).toList = some (padded 2 (m / 60), padded 2 (m % 60)) := by
  have hhour : ∀ c ∈ padded 2 (m / 60), (c != ':') = true := by
    intro c hc
    rw [bne_iff_ne]
    rintro rfl
    exact absurd (isDigit_of_mem_padded hc) (by decide)
  have hminute : (padded 2 (m % 60)).contains ':' = false := by
    rw [List.contains_eq_mem, decide_eq_false_iff_not]
    exact fun hc => absurd (isDigit_of_mem_padded hc) (by decide)
  have hstop : ∀ c ∈ (':' :: padded 2 (m % 60)).head?, (c != ':') = false := by simp
  unfold split?
  rw [toList_clock, List.span_eq_takeWhile_dropWhile, takeWhile_append_stop hhour hstop,
    dropWhile_append_stop hhour hstop]
  simp only [hminute, Bool.false_eq_true, if_false]

theorem minute?_padded : ∀ k < 60, minute? (padded 2 k) = some k := by decide +kernel

/-- The hour of a time before the year 10000 is not too long to be read. -/
theorem length_hour_le {hour : ℕ} (h : hour < 10 ^ maxHourDigits) :
    (padded 2 hour).length ≤ maxHourDigits := by
  have hdigits : (Nat.repr hour).toList.length ≤ maxHourDigits := by
    rw [Nat.toList_repr]
    exact (Nat.length_toDigits_le_iff (by omega) (by decide)).mpr h
  unfold padded
  rw [List.length_append, List.length_replicate]
  unfold maxHourDigits at *
  omega

/-- **A clock time against a date is that minute past its midnight.** -/
theorem resolve_clock {date : Date} {m : ℕ} (h : date.dayNumber + m / 1440 ≤ lastDayNumber) :
    (⟨clock m⟩ : TimeToken).resolve date = .ok ⟨(Instant.midnight date).minutes + m⟩ := by
  have hdays : m / 60 / 24 = m / 1440 := Nat.div_div_eq_div_mul m 60 24
  have hhour : m / 60 < 10 ^ maxHourDigits := by
    calc m / 60 < 10 ^ 8 := by unfold lastDayNumber at h; omega
      _ ≤ 10 ^ maxHourDigits := Nat.pow_le_pow_right (by omega) (by decide)
  have hminutes : (Instant.midnight date).minutes + 60 * (m / 60) + m % 60 =
      (Instant.midnight date).minutes + m := by omega
  unfold resolve
  simp only [split?_clock, isNumber_padded, Bool.not_true, Bool.false_eq_true, if_false,
    minute?_padded _ (Nat.mod_lt m (by omega)), digitsValue_padded, hdays]
  rw [if_pos ⟨length_hour_le hhour, h⟩, hminutes]

end TimeToken

end TimeJournal
