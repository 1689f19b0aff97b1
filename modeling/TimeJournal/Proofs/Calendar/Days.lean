import Mathlib.Order.Monotone.Basic
import Mathlib.Tactic.SplitIfs
import TimeJournal.Calendar.Instant
import TimeJournal.Proofs.Calendar.Written

/-! # Days in succession

`Date.next?` is the day after a date as it is read off a calendar: the next day of the month, else
the first day of the next month, else the first day of the next year, as long as there is such a
day. The number of a date goes up by one with each such step. So adding to the number of a date is
walking through the calendar (`Date.after?`), over the ends of months and years and over each
29 February, and the parts that `civil` computes from a number are those of the date that is reached.

* `Date.civil_dayNumber`: the parts of a date are computed back from its number.
* `Date.after?_eq_some_iff`: the date so many days later is the one with that number.
* `Date.after?_eq_none_iff`: there is none exactly behind 9999-12-31. -/

namespace TimeJournal

/-! ### Months and years -/

theorem daysInMonth_pos (year month : ℕ) : 0 < daysInMonth year month := by
  unfold daysInMonth
  split_ifs <;> omega

theorem daysBeforeMonth_eq_sum (year month : ℕ) :
    daysBeforeMonth year month = ((List.range' 1 (month - 1)).map (daysInMonth year)).sum := by
  rw [List.sum_eq_foldl, List.foldl_map]
  rfl

theorem daysBeforeMonth_succ {year month : ℕ} (h : 1 ≤ month) :
    daysBeforeMonth year (month + 1) = daysBeforeMonth year month + daysInMonth year month := by
  obtain ⟨m, rfl⟩ := Nat.exists_eq_add_of_le' h
  rw [daysBeforeMonth_eq_sum, daysBeforeMonth_eq_sum, Nat.add_sub_cancel, Nat.add_sub_cancel,
    List.range'_concat, List.map_append, List.sum_append]
  simp [Nat.add_comm]

theorem daysBeforeMonth_mono (year : ℕ) : Monotone (daysBeforeMonth year) := by
  refine monotone_nat_of_le_succ fun month => ?_
  rcases Nat.eq_zero_or_pos month with rfl | hm
  · exact le_rfl
  · rw [daysBeforeMonth_succ hm]
    exact Nat.le_add_right _ _

/-- The length of a year. -/
theorem daysBeforeMonth_end (year : ℕ) :
    daysBeforeMonth year 13 = if isLeap year then 366 else 365 := by
  cases h : isLeap year <;> simp [daysBeforeMonth, List.range', daysInMonth, h]

theorem isLeap_iff (year : ℕ) :
    isLeap year = true ↔ 4 ∣ year ∧ (¬ 100 ∣ year ∨ 400 ∣ year) := by
  simp [isLeap, Nat.dvd_iff_mod_eq_zero]

theorem daysBeforeYear_eq (y : ℕ) :
    daysBeforeYear (y + 1) = 365 * y + y / 4 - y / 100 + y / 400 := rfl

theorem daysBeforeYear_succ {year : ℕ} (h : 1 ≤ year) :
    daysBeforeYear (year + 1) = daysBeforeYear year + daysBeforeMonth year 13 := by
  obtain ⟨y, rfl⟩ := Nat.exists_eq_add_of_le' h
  have hcentury : y / 100 ≤ y / 4 := by omega
  rw [daysBeforeMonth_end, daysBeforeYear_eq, daysBeforeYear_eq, Nat.succ_div, Nat.succ_div,
    Nat.succ_div]
  simp only [isLeap_iff]
  -- each of the three quotients goes up by one in the years that it divides
  generalize y / 4 = a at *
  generalize y / 100 = b at *
  generalize y / 400 = c at *
  split_ifs <;> omega

theorem daysBeforeYear_mono : Monotone daysBeforeYear := by
  refine monotone_nat_of_le_succ fun year => ?_
  rcases Nat.eq_zero_or_pos year with rfl | hy
  · decide
  · rw [daysBeforeYear_succ hy]
    exact Nat.le_add_right _ _

/-! ### From a number back to a date -/

/-- A year is found again from the number of each of its days. The year is split into its place in
the cycle of 400 years, in the century and in the group of four years; the last century of a cycle
and the last year of a group are the ones that may be a day longer. -/
theorem yearAndDay_daysBeforeYear {year day : ℕ} (hy : 1 ≤ year)
    (hd : day < daysBeforeMonth year 13) :
    yearAndDay (daysBeforeYear year + day) = (year, day) := by
  obtain ⟨y, rfl⟩ := Nat.exists_eq_add_of_le' hy
  have hleap := isLeap_iff (y + 1)
  have hlength : day < 366 ∧ (day = 365 → isLeap (y + 1) = true) := by
    rw [daysBeforeMonth_end] at hd
    split_ifs at hd with h
    · exact ⟨hd, fun _ => h⟩
    · omega
  obtain ⟨hday, hlast⟩ := hlength
  obtain ⟨cycle, rest, hrest, rfl⟩ : ∃ cycle rest, rest < 400 ∧ y = 400 * cycle + rest :=
    ⟨y / 400, y % 400, Nat.mod_lt _ (by omega), (Nat.div_add_mod _ _).symm⟩
  obtain ⟨century, rest, hrest', rfl⟩ : ∃ century r, r < 100 ∧ rest = 100 * century + r :=
    ⟨rest / 100, rest % 100, Nat.mod_lt _ (by omega), (Nat.div_add_mod _ _).symm⟩
  obtain ⟨group, place, hplace, rfl⟩ : ∃ group p, p < 4 ∧ rest = 4 * group + p :=
    ⟨rest / 4, rest % 4, Nat.mod_lt _ (by omega), (Nat.div_add_mod _ _).symm⟩
  have hnumber : daysBeforeYear (400 * cycle + (100 * century + (4 * group + place)) + 1) + day =
      146097 * cycle + (36524 * century + (1461 * group + (365 * place + day))) := by
    rw [daysBeforeYear_eq]
    omega
  have hlast' : day = 365 → place = 3 ∧ (group ≠ 24 ∨ century = 3) := by
    intro h
    have := hleap.mp (hlast h)
    omega
  have hinGroup : 365 * place + day < 1461 := by omega
  have hinCentury : 1461 * group + (365 * place + day) < 36524 ∨ century = 3 := by omega
  have hinCycle : 36524 * century + (1461 * group + (365 * place + day)) < 146097 := by omega
  rw [hnumber]
  unfold yearAndDay
  have h₁ : (146097 * cycle + (36524 * century + (1461 * group + (365 * place + day)))) / 146097 =
      cycle := by omega
  have h₂ : (146097 * cycle + (36524 * century + (1461 * group + (365 * place + day)))) % 146097 =
      36524 * century + (1461 * group + (365 * place + day)) := by omega
  have h₃ : min 3 ((36524 * century + (1461 * group + (365 * place + day))) / 36524) = century := by
    omega
  have h₄ : (1461 * group + (365 * place + day)) / 1461 = group := by omega
  simp only [h₁, h₂, h₃, Nat.add_sub_cancel_left, h₄, Prod.mk.injEq]
  omega

/-- A month is found again behind the days of the months before it. -/
theorem monthAndDay_append {year month n : ℕ} (before after : List ℕ)
    (h : n < daysInMonth year month) :
    monthAndDay year (before ++ month :: after) ((before.map (daysInMonth year)).sum + n) =
      (month, n + 1) := by
  induction before with
  | nil => simp [monthAndDay, h]
  | cons m before ih =>
    rw [List.cons_append, monthAndDay, List.map_cons, List.sum_cons, if_neg (by omega),
      Nat.add_assoc, Nat.add_sub_cancel_left]
    exact ih

theorem monthAndDay_daysBeforeMonth {year month n : ℕ} (hm : 1 ≤ month ∧ month ≤ 12)
    (h : n < daysInMonth year month) :
    monthAndDay year (List.range' 1 12) (daysBeforeMonth year month + n) = (month, n + 1) := by
  have hmonths : List.range' 1 12 =
      List.range' 1 (month - 1) ++ month :: List.range' (month + 1) (12 - month) := by
    have hcons : month :: List.range' (month + 1) (12 - month) =
        List.range' (1 + 1 * (month - 1)) (12 - month + 1) := by
      rw [show 1 + 1 * (month - 1) = month by omega, List.range'_succ]
    rw [hcons, List.range'_append, show month - 1 + (12 - month + 1) = 12 by omega]
  rw [hmonths, daysBeforeMonth_eq_sum]
  exact monthAndDay_append _ _ h

namespace Date

theorem dayOfYear_lt (d : Date) :
    daysBeforeMonth d.year d.month + (d.day - 1) < daysBeforeMonth d.year 13 := by
  have hm := d.month_bounds
  have hd := d.day_bounds
  have hnext := @daysBeforeMonth_succ d.year d.month hm.1
  have hmono := daysBeforeMonth_mono d.year (show d.month + 1 ≤ 13 by omega)
  omega

/-- **The parts of a date are computed back from its number.** -/
theorem civil_dayNumber (d : Date) : civil d.dayNumber = (d.year, d.month, d.day) := by
  have hm := d.month_bounds
  have hd := d.day_bounds
  unfold civil dayNumber
  rw [Nat.add_assoc, yearAndDay_daysBeforeYear d.year_bounds.1 d.dayOfYear_lt]
  dsimp only
  rw [monthAndDay_daysBeforeMonth hm (by omega), Nat.sub_add_cancel hd.1]

theorem dayNumber_injective : Function.Injective dayNumber := by
  intro d e h
  have hparts := d.civil_dayNumber.symm.trans (h ▸ e.civil_dayNumber)
  rw [Prod.mk.injEq, Prod.mk.injEq] at hparts
  exact Date.ext hparts.1 hparts.2.1 hparts.2.2

theorem dayNumber_le (d : Date) : d.dayNumber ≤ lastDayNumber := by
  have hy := d.year_bounds
  have hday := d.dayOfYear_lt
  have hnext := daysBeforeYear_succ hy.1
  have hmono := daysBeforeYear_mono (show d.year + 1 ≤ 10000 by omega)
  have hend : daysBeforeYear 10000 = lastDayNumber + 1 := by decide
  unfold dayNumber
  omega

/-! ### The next day -/

/-- The day after a date, up to 9999-12-31. -/
def next? (d : Date) : Option Date :=
  (ofParts d.year d.month (d.day + 1)).toOption.or
    ((ofParts d.year (d.month + 1) 1).toOption.or (ofParts (d.year + 1) 1 1).toOption)

/-- The date that is some days later. -/
def after? (d : Date) : ℕ → Option Date
  | 0 => some d
  | n + 1 => (d.after? n).bind next?

theorem toOption_ofParts_eq_some {year month day : ℕ} {d : Date}
    (h : (ofParts year month day).toOption = some d) :
    d.year = year ∧ d.month = month ∧ d.day = day := by
  rcases hparts : ofParts year month day with defect | e
  · rw [hparts] at h; cases h
  · rw [hparts] at h
    rw [← Option.some.inj h]
    exact of_ofParts hparts

theorem toOption_ofParts_eq_none {year month day : ℕ}
    (h : (ofParts year month day).toOption = none) :
    ¬ ((1 ≤ year ∧ year ≤ 9999) ∧ (1 ≤ month ∧ month ≤ 12) ∧
      (1 ≤ day ∧ day ≤ daysInMonth year month)) := by
  rintro ⟨hy, hm, hd⟩
  unfold ofParts at h
  rw [dif_pos hy, dif_pos hm, dif_pos hd] at h
  cases h

/-- **The number of a date goes up by one with the next day.** -/
theorem dayNumber_of_next? {d e : Date} (h : d.next? = some e) :
    e.dayNumber = d.dayNumber + 1 := by
  have hy := d.year_bounds
  have hm := d.month_bounds
  have hd := d.day_bounds
  have hmonth := @daysBeforeMonth_succ d.year d.month hm.1
  have hyear := daysBeforeYear_succ hy.1
  unfold next? at h
  rcases hday : (ofParts d.year d.month (d.day + 1)).toOption with _ | f
  · have hlast := toOption_ofParts_eq_none hday
    rw [hday, Option.none_or] at h
    rcases hfirst : (ofParts d.year (d.month + 1) 1).toOption with _ | f
    · have hdecember := toOption_ofParts_eq_none hfirst
      have hpos := daysInMonth_pos d.year (d.month + 1)
      rw [hfirst, Option.none_or] at h
      obtain ⟨hy', hm', hd'⟩ := toOption_ofParts_eq_some h
      have hone : daysBeforeMonth (d.year + 1) 1 = 0 := rfl
      have htwelve : d.month = 12 := by omega
      rw [htwelve] at hmonth
      unfold dayNumber
      rw [hy', hm', hd', hyear, hone, hmonth, htwelve]
      rw [htwelve] at hlast hd
      omega
    · rw [hfirst, Option.some_or] at h
      obtain ⟨hy', hm', hd'⟩ := toOption_ofParts_eq_some (hfirst.trans h)
      unfold dayNumber
      rw [hy', hm', hd', hmonth]
      omega
  · rw [hday, Option.some_or] at h
    obtain ⟨hy', hm', hd'⟩ := toOption_ofParts_eq_some (hday.trans h)
    unfold dayNumber
    rw [hy', hm', hd']
    omega

/-- Only 9999-12-31 has no next day. -/
theorem dayNumber_of_next?_eq_none {d : Date} (h : d.next? = none) :
    d.dayNumber = lastDayNumber := by
  have hy := d.year_bounds
  have hm := d.month_bounds
  have hd := d.day_bounds
  unfold next? at h
  rw [Option.or_eq_none_iff, Option.or_eq_none_iff] at h
  obtain ⟨hday, hmonth, hyear⟩ := h
  have hlast := toOption_ofParts_eq_none hday
  have hdecember := toOption_ofParts_eq_none hmonth
  have hend := toOption_ofParts_eq_none hyear
  have hpos := daysInMonth_pos d.year (d.month + 1)
  have hpos' := daysInMonth_pos (d.year + 1) 1
  have hparts : d.year = 9999 ∧ d.month = 12 := by omega
  obtain ⟨hy', hm'⟩ := hparts
  have hd' : d.day = 31 := by
    rw [hy', hm'] at hlast hd
    have hlength : daysInMonth 9999 12 = 31 := by decide
    omega
  unfold dayNumber
  rw [hy', hm', hd']
  decide

theorem dayNumber_of_after? {d e : Date} {n : ℕ} (h : d.after? n = some e) :
    e.dayNumber = d.dayNumber + n := by
  induction n generalizing e with
  | zero => rw [Option.some.inj h]; rfl
  | succ n ih =>
    obtain ⟨f, hf, hnext⟩ := Option.bind_eq_some_iff.mp h
    rw [dayNumber_of_next? hnext, ih hf, Nat.add_assoc]

/-- **There is a date so many days later unless the calendar ends before.** -/
theorem exists_after? {d : Date} {n : ℕ} (h : d.dayNumber + n ≤ lastDayNumber) :
    ∃ e, d.after? n = some e := by
  induction n with
  | zero => exact ⟨d, rfl⟩
  | succ n ih =>
    obtain ⟨f, hf⟩ := ih (by omega)
    rcases hnext : f.next? with _ | e
    · have hlast := dayNumber_of_next?_eq_none hnext
      have hnumber := dayNumber_of_after? hf
      omega
    · exact ⟨e, Option.bind_eq_some_iff.mpr ⟨f, hf, hnext⟩⟩

/-- **The date so many days later is the one with that number.** -/
theorem after?_eq_some_iff {d e : Date} {n : ℕ} :
    d.after? n = some e ↔ e.dayNumber = d.dayNumber + n := by
  refine ⟨dayNumber_of_after?, fun h => ?_⟩
  obtain ⟨f, hf⟩ := exists_after? (h ▸ e.dayNumber_le)
  rw [hf, dayNumber_injective ((dayNumber_of_after? hf).trans h.symm)]

theorem after?_eq_none_iff {d : Date} {n : ℕ} :
    d.after? n = none ↔ lastDayNumber < d.dayNumber + n := by
  constructor
  · intro h
    by_contra hle
    obtain ⟨e, he⟩ := exists_after? (not_lt.mp hle)
    rw [h] at he
    cases he
  · intro h
    rcases he : d.after? n with _ | e
    · rfl
    · have hnumber := dayNumber_of_after? he
      have hle := e.dayNumber_le
      omega

end Date

end TimeJournal
