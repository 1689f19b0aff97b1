import TimeJournal.Calendar.TimeToken

/-! # Resolved times

* `TimeToken.minutes_lt_of_resolve`: a time that resolves lies before the year 10000, so the time
  between two such times is bounded.
* `TimeToken.resolve_eq_map`: against a date that is not too late for it, a time resolves to the
  instant that lies `TimeToken.offset` minutes after midnight, a number that knows of no date. -/

namespace TimeJournal

/-- A minute is at most 59. -/
theorem TimeToken.le_of_minute? {digits : List Char} {m : Nat} (h : minute? digits = some m) :
    m ≤ 59 := by
  unfold minute? at h
  dsimp only at h
  split at h
  · rename_i hle
    have := Option.some.inj h
    omega
  · cases h

/-- **A time that resolves lies in the years 1 to 9999.** -/
theorem TimeToken.minutes_lt_of_resolve {t : TimeToken} {reference : Date} {i : Instant}
    (h : t.resolve reference = .ok i) : i.minutes < 1440 * (lastDayNumber + 1) := by
  unfold resolve at h
  split at h
  · cases h
  rename_i hour minute hsplit
  split at h
  · cases h
  split at h
  · cases h
  rcases hm : minute? minute with _ | m
  · rw [hm] at h; cases h
  rw [hm] at h
  dsimp only at h
  split at h
  · rename_i hbound
    have hm59 := le_of_minute? hm
    rw [← Except.ok.inj h]
    show 1440 * reference.dayNumber + 60 * Text.digitsValue hour + m < _
    omega
  · cases h

/-! ### Minutes after midnight -/

/-- The instant that lies some minutes after the midnight of a date. -/
def Instant.after (d : Date) (minutes : Nat) : Instant := ⟨(midnight d).minutes + minutes⟩

@[simp] theorem Instant.after_inj {d : Date} {m n : Nat} : after d m = after d n ↔ m = n := by
  simp [after]

@[simp] theorem Instant.minutes_after_lt {d : Date} {m n : Nat} :
    (after d m).minutes < (after d n).minutes ↔ m < n :=
  Nat.add_lt_add_iff_left

@[simp] theorem Instant.minutes_after_le {d : Date} {m n : Nat} :
    (after d m).minutes ≤ (after d n).minutes ↔ m ≤ n :=
  Nat.add_le_add_iff_left

@[simp] theorem Instant.minutes_after_sub (d : Date) (m n : Nat) :
    (after d m).minutes - (after d n).minutes = m - n :=
  Nat.add_sub_add_left _ _ _

namespace TimeToken

/-- The hour of a time lies so far ahead of a date that the calendar has no such day. -/
def Overflows (t : TimeToken) (d : Date) : Prop :=
  ∃ hour, t.resolve d = .error ⟨t, .dateOverflow hour d⟩

theorem not_overflows_of_isSome {t : TimeToken} {d : Date}
    (h : (t.resolve d).toOption.isSome = true) : ¬ t.Overflows d := by
  rintro ⟨hour, hfault⟩
  rw [hfault] at h
  cases h

/-- The minutes from midnight to a time, or why the time has no meaning for any date. -/
def offset (t : TimeToken) : Except TimeFault Nat :=
  match split? t.raw.toList with
  | none => .error ⟨t, .notTwoFields⟩
  | some (hour, minute) =>
    if !Text.isNumber hour then .error ⟨t, .nonNumericHour⟩
    else if !Text.isNumber minute then .error ⟨t, .nonNumericMinute⟩
    else
      match minute? minute with
      | none => .error ⟨t, .minuteOutOfRange⟩
      | some m => .ok (60 * Text.digitsValue hour + m)

/-- **A time resolves to its minutes after midnight**, unless the date is too late for it. -/
theorem resolve_eq_map {t : TimeToken} {d : Date} (h : ¬ t.Overflows d) :
    t.resolve d = t.offset.map (Instant.after d) := by
  unfold Overflows resolve at h
  unfold resolve offset
  rcases hsplit : split? t.raw.toList with _ | ⟨hour, minute⟩
  · rfl
  rw [hsplit] at h
  dsimp only at h ⊢
  by_cases hhour : (!Text.isNumber hour) = true
  · rw [if_pos hhour, if_pos hhour]
    rfl
  by_cases hminute : (!Text.isNumber minute) = true
  · rw [if_neg hhour, if_neg hhour, if_pos hminute, if_pos hminute]
    rfl
  rw [if_neg hhour, if_neg hminute] at h ⊢
  rw [if_neg hhour, if_neg hminute]
  rcases hm : minute? minute with _ | m
  · rfl
  rw [hm] at h
  dsimp only at h ⊢
  by_cases hbound : hour.length ≤ maxHourDigits ∧
      d.dayNumber + Text.digitsValue hour / 24 ≤ lastDayNumber
  · rw [if_pos hbound, Nat.add_assoc]
    rfl
  · rw [if_neg hbound] at h
    exact absurd ⟨_, rfl⟩ h

end TimeToken

end TimeJournal
