import TimeJournal.Proofs.Calendar.TimeOfDay

/-! # Written instants

An instant of the years 1 to 9999 is written as an hour and a minute of its day. The day, the hour
and the minute have fixed widths, so they can be told apart in the text.

* `isoText_inj`: one text is written for one day, hour and minute only.
* `Instant.toIso_inj`: one text is written for one instant of the calendar only. -/

namespace TimeJournal

open Text

/-! ### Parts of fixed widths -/

theorem padded_two_inj {m n : ℕ} (hm : m < 100) (hn : n < 100) {s t : List Char}
    (h : padded 2 m ++ s = padded 2 n ++ t) : m = n ∧ s = t := by
  have hlength : (padded 2 m).length = (padded 2 n).length := by
    rw [length_padded (by decide) hm, length_padded (by decide) hn]
  obtain ⟨hdigits, hrest⟩ := List.append_inj h hlength
  refine ⟨?_, hrest⟩
  rw [← digitsValue_padded 2 m, ← digitsValue_padded 2 n, hdigits]

theorem Date.toString_injective : Function.Injective Date.toString := by
  intro d e h
  have hparse := d.parse_toString
  rw [h, e.parse_toString] at hparse
  exact (Except.ok.inj hparse).symm

theorem isoText_inj {d e : Date} {hour hour' minute minute' : ℕ} (hhour : hour < 100)
    (hhour' : hour' < 100) (hminute : minute < 100) (hminute' : minute' < 100)
    (h : isoText d hour minute = isoText e hour' minute') :
    d = e ∧ hour = hour' ∧ minute = minute' := by
  have hlist := congrArg String.toList h
  unfold isoText at hlist
  simp only [String.toList_ofList, List.append_assoc, List.cons_append] at hlist
  have hlength : d.toString.toList.length = e.toString.toList.length := by
    rw [String.length_toList, String.length_toList, d.length_toString, e.length_toString]
  obtain ⟨hday, hrest⟩ := List.append_inj hlist hlength
  obtain ⟨hhours, hrest⟩ := padded_two_inj hhour hhour' (List.cons.inj hrest).2
  obtain ⟨hminutes, -⟩ := padded_two_inj hminute hminute' (List.cons.inj hrest).2
  exact ⟨Date.toString_injective (String.toList_inj.mp hday), hhours, hminutes⟩

/-! ### Instants of the calendar -/

namespace Instant

/-- The instant lies in the years 1 to 9999. -/
def IsInCalendar (i : Instant) : Prop := i.minutes < 1440 * (lastDayNumber + 1)

variable {i k : Instant}

/-- Every instant of the calendar has a day. -/
theorem IsInCalendar.exists_day (h : i.IsInCalendar) :
    ∃ day : Date, day.dayNumber = i.minutes / 1440 := by
  let first : Date := ⟨1, 1, 1, by decide, by decide, by decide⟩
  have hfirst : first.dayNumber = 0 := by decide
  unfold IsInCalendar at h
  obtain ⟨day, hday⟩ := Date.exists_after? (d := first) (n := i.minutes / 1440) (by omega)
  refine ⟨day, ?_⟩
  rw [Date.dayNumber_of_after? hday, hfirst, Nat.zero_add]

theorem toIso_eq {day : Date} (h : day.dayNumber = i.minutes / 1440) :
    i.toIso = isoText day (i.minutes % 1440 / 60) (i.minutes % 60) := by
  unfold toIso isoText
  rw [← h, Date.civil_dayNumber, Date.toList_toString]
  rfl

/-- **One text is written for one instant.** -/
theorem toIso_inj (hi : i.IsInCalendar) (hk : k.IsInCalendar) (h : i.toIso = k.toIso) : i = k := by
  obtain ⟨d, hd⟩ := hi.exists_day
  obtain ⟨e, he⟩ := hk.exists_day
  rw [toIso_eq hd, toIso_eq he] at h
  obtain ⟨rfl, hhour, hminute⟩ := isoText_inj (by omega) (by omega) (by omega) (by omega) h
  exact Instant.ext (by omega)

end Instant

end TimeJournal
