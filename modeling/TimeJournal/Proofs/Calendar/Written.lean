import Mathlib.Data.List.Basic
import Mathlib.Tactic.SplitIfs
import TimeJournal.Calendar.Date
import TimeJournal.Proofs.Text.Digits

/-! # Written dates

A date is written with four digits for the year and two each for the month and the day, so there is
nothing in a date that is not read back, and only one text is read as a date.

* `Date.parse_toString`: a written date is read back.
* `Date.toString_of_parse`: a date that was read is written as the text it was read from.
* `Date.isSpace_toString`: no character of it is white space. -/

namespace TimeJournal

open Text

theorem daysInMonth_le (year month : Nat) : daysInMonth year month ≤ 31 := by
  unfold daysInMonth
  split_ifs <;> omega

namespace Date

theorem toList_toString (d : Date) : d.toString.toList =
    padded 4 d.year ++ '-' :: padded 2 d.month ++ '-' :: padded 2 d.day := by
  simp [Date.toString, civilText]

theorem length_year (d : Date) : (padded 4 d.year).length = 4 := by
  have := d.year_bounds
  exact length_padded (by omega) (by omega)

theorem length_month (d : Date) : (padded 2 d.month).length = 2 := by
  have := d.month_bounds
  exact length_padded (by omega) (by omega)

theorem length_day (d : Date) : (padded 2 d.day).length = 2 := by
  have := d.day_bounds
  have := daysInMonth_le d.year d.month
  exact length_padded (by omega) (by omega)

theorem length_toString (d : Date) : d.toString.length = 10 := by
  rw [← String.length_toList, toList_toString]
  simp only [List.length_append, List.length_cons, length_year, length_month, length_day]

theorem fields?_append {y m d : List Char} (hy : y.length = 4) (hm : m.length = 2)
    (hd : d.length = 2) (hdigit : ∀ c ∈ y ++ m ++ d, c.isDigit = true) :
    fields? (y ++ '-' :: m ++ '-' :: d) = some (digitsValue y, digitsValue m, digitsValue d) := by
  obtain ⟨y₁, y₂, y₃, y₄, rfl⟩ := List.length_eq_four.mp hy
  obtain ⟨m₁, m₂, rfl⟩ := List.length_eq_two.mp hm
  obtain ⟨d₁, d₂, rfl⟩ := List.length_eq_two.mp hd
  have hall : [y₁, y₂, y₃, y₄, m₁, m₂, d₁, d₂].all Char.isDigit = true :=
    List.all_eq_true.mpr hdigit
  show (if _ then _ else _) = _
  rw [if_pos hall]

theorem ofParts_self (d : Date) : ofParts d.year d.month d.day = .ok d := by
  unfold ofParts
  rw [dif_pos d.year_bounds, dif_pos d.month_bounds, dif_pos d.day_bounds]

/-- **A written date is read back.** -/
theorem parse_toString (d : Date) : parse d.toString = .ok d := by
  have hdigit : ∀ c ∈ padded 4 d.year ++ padded 2 d.month ++ padded 2 d.day, c.isDigit = true := by
    intro c hc
    simp only [List.mem_append] at hc
    rcases hc with (hc | hc) | hc
    · exact isDigit_of_mem_padded hc
    · exact isDigit_of_mem_padded hc
    · exact isDigit_of_mem_padded hc
  unfold parse
  rw [toList_toString, fields?_append d.length_year d.length_month d.length_day hdigit]
  simp only [digitsValue_padded, ofParts_self]

theorem exists_of_fields? {s : List Char} {year month day : Nat}
    (h : fields? s = some (year, month, day)) : ∃ y m d : List Char, s = y ++ '-' :: m ++ '-' :: d ∧
      y.length = 4 ∧ m.length = 2 ∧ d.length = 2 ∧ (∀ c ∈ y ++ m ++ d, c.isDigit = true) ∧
      digitsValue y = year ∧ digitsValue m = month ∧ digitsValue d = day := by
  unfold fields? at h
  split at h
  · rename_i y₁ y₂ y₃ y₄ m₁ m₂ d₁ d₂
    split at h
    · rename_i hdigit
      obtain ⟨rfl, hrest⟩ := Prod.mk.inj (Option.some.inj h)
      obtain ⟨rfl, rfl⟩ := Prod.mk.inj hrest
      exact ⟨[y₁, y₂, y₃, y₄], [m₁, m₂], [d₁, d₂], rfl, rfl, rfl, rfl, List.all_eq_true.mp hdigit,
        rfl, rfl, rfl⟩
    · cases h
  · cases h

theorem of_ofParts {year month day : Nat} {d : Date} (h : ofParts year month day = .ok d) :
    d.year = year ∧ d.month = month ∧ d.day = day := by
  unfold ofParts at h
  split_ifs at h
  rw [← Except.ok.inj h]
  exact ⟨rfl, rfl, rfl⟩

/-- **A date that was read is written as the text it was read from.** -/
theorem toString_of_parse {text : String} {d : Date} (h : parse text = .ok d) :
    d.toString = text := by
  unfold parse at h
  split at h
  · cases h
  rename_i year month day hfields
  split at h
  swap
  · cases h
  rename_i d' hparts
  obtain rfl := Except.ok.inj h
  obtain ⟨hyear, hmonth, hday⟩ := of_ofParts hparts
  obtain ⟨y, m, d, htext, hy, hm, hd, hdigit, rfl, rfl, rfl⟩ := exists_of_fields? hfields
  have hyw : padded 4 (digitsValue y) = y :=
    padded_digitsValue (by decide) hy fun c hc => hdigit c (by simp [hc])
  have hmw : padded 2 (digitsValue m) = m :=
    padded_digitsValue (by decide) hm fun c hc => hdigit c (by simp [hc])
  have hdw : padded 2 (digitsValue d) = d :=
    padded_digitsValue (by decide) hd fun c hc => hdigit c (by simp [hc])
  rw [Date.toString, civilText, hyear, hmonth, hday, hyw, hmw, hdw, ← htext, String.ofList_toList]

/-- A written date holds digits and hyphens only. -/
theorem isDigit_or_hyphen {d : Date} {c : Char} (h : c ∈ d.toString.toList) :
    c.isDigit = true ∨ c = '-' := by
  rw [toList_toString] at h
  simp only [List.mem_append, List.mem_cons] at h
  rcases h with (h | h | h) | h | h
  · exact Or.inl (isDigit_of_mem_padded h)
  · exact Or.inr h
  · exact Or.inl (isDigit_of_mem_padded h)
  · exact Or.inr h
  · exact Or.inl (isDigit_of_mem_padded h)

/-- A written date is no white space. -/
theorem isSpace_toString {d : Date} {c : Char} (h : c ∈ d.toString.toList) : isSpace c = false := by
  rcases isDigit_or_hyphen h with hc | rfl
  · exact isSpace_of_isDigit hc
  · decide

theorem toList_toString_ne_nil (d : Date) : d.toString.toList ≠ [] := by
  rw [toList_toString]
  simp

end Date

end TimeJournal
