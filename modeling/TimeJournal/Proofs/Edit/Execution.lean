import TimeJournal.Proofs.Edit.Target

/-! # What a command does

The outcome of a command in terms of its target: the edit that it gives, and what has to hold for it
to give one. Times resolve against the date of the front matter, as in a check.

* `Command.recalculate_eq`, `Command.exists_of_recalculate`: a duration.
* `Command.replaceStart_eq`, `Command.exists_of_replaceStart`: a start time.
* `Command.replaceDate_eq`, `Command.exists_of_replaceDate`: the date. -/

namespace TimeJournal

open Lint

namespace Command

variable {j : Journal} {selection : Span} {edit : TextEdit}

theorem editUnless_eq_some_iff {same : Bool} {span : Span} {newText : String} :
    editUnless same span newText = some edit ↔ same = false ∧ edit = ⟨span, newText⟩ := by
  unfold editUnless
  cases same with
  | true => simp
  | false => simp [eq_comm]

/-! ### Durations -/

theorem recalculate_eq {d : Duration} {e : Entry} (ht : j.durationAt? selection = some (d, e))
    {a b : Instant} (ha : instant? (reference j) e.start.value = some a)
    (hb : instant? (reference j) e.stop.value = some b) (hab : a.minutes ≤ b.minutes) :
    recalculate j selection = .ok (editUnless
      (Hours.render (60 * (b.minutes - a.minutes)) == d.raw) d.span
        (Hours.render (60 * (b.minutes - a.minutes)))) := by
  obtain ⟨date, hdate, ha'⟩ := Option.bind_eq_some_iff.mp ha
  rw [instant?, hdate, Option.bind_some] at hb
  unfold recalculate
  simp only [DurationTarget.found_ofJournal, DurationTarget.reference_ofJournal, ht, hdate,
    Option.map_some]
  rcases hra : e.start.value.resolve date with fault | a₁
  · rw [hra] at ha'; cases ha'
  rcases hrb : e.stop.value.resolve date with fault | b₁
  · rw [hrb] at hb; cases hb
  rw [hra] at ha'
  rw [hrb] at hb
  obtain rfl := Option.some.inj ha'
  obtain rfl := Option.some.inj hb
  simp only [if_neg (not_lt.mpr hab)]

theorem exists_of_recalculate (h : recalculate j selection = .ok (some edit)) :
    ∃ d e a b, j.durationAt? selection = some (d, e) ∧
      instant? (reference j) e.start.value = some a ∧
      instant? (reference j) e.stop.value = some b ∧ a.minutes ≤ b.minutes ∧
      edit = ⟨d.span, Hours.render (60 * (b.minutes - a.minutes))⟩ ∧ edit.newText ≠ d.raw := by
  have h' := h
  unfold recalculate at h'
  simp only [DurationTarget.found_ofJournal, DurationTarget.reference_ofJournal] at h'
  rcases ht : j.durationAt? selection with _ | ⟨d, e⟩
  · simp [ht] at h'
  rcases hdate : reference j with _ | date
  · simp [ht, hdate] at h'
  rcases hra : e.start.value.resolve date with fault | a
  · simp [ht, hdate, hra] at h'
  rcases hrb : e.stop.value.resolve date with fault | b
  · simp [ht, hdate, hra, hrb] at h'
  by_cases hab : b.minutes < a.minutes
  · simp [ht, hdate, hra, hrb, hab] at h'
  have ha : instant? (reference j) e.start.value = some a := by
    rw [instant?, hdate, Option.bind_some, hra]; rfl
  have hb : instant? (reference j) e.stop.value = some b := by
    rw [instant?, hdate, Option.bind_some, hrb]; rfl
  have heq := recalculate_eq ht ha hb (not_lt.mp hab)
  rw [h] at heq
  obtain ⟨hsame, hedit⟩ := editUnless_eq_some_iff.mp (Except.ok.inj heq).symm
  refine ⟨d, e, a, b, rfl, hdate ▸ ha, hdate ▸ hb, not_lt.mp hab, hedit, ?_⟩
  rw [hedit]
  simpa using hsame

/-! ### Start times -/

theorem replaceStart_eq {p : Located TimeToken} {e : Entry}
    (ht : j.startAt? selection = some (some p, e)) : replaceStart j selection =
      .ok (editUnless (p.value = e.start.value) e.start.span p.value.raw) := by
  unfold replaceStart
  simp only [StartTarget.found_ofJournal, ht, Option.map_some]

theorem exists_of_replaceStart (h : replaceStart j selection = .ok (some edit)) :
    ∃ p e, j.startAt? selection = some (some p, e) ∧ p.value ≠ e.start.value ∧
      edit = ⟨e.start.span, p.value.raw⟩ := by
  have h' := h
  unfold replaceStart at h'
  simp only [StartTarget.found_ofJournal] at h'
  rcases ht : j.startAt? selection with _ | ⟨p, e⟩
  · simp [ht] at h'
  rcases p with _ | p
  · simp [ht] at h'
  have heq := replaceStart_eq ht
  rw [h] at heq
  obtain ⟨hsame, hedit⟩ := editUnless_eq_some_iff.mp (Except.ok.inj heq).symm
  exact ⟨p, e, rfl, by simpa using hsame, hedit⟩

/-! ### The date -/

theorem replaceDate_eq {source : Option String} {expected : Date} {d : Located Date}
    (hs : Location.date? source = .ok (some expected)) (hd : j.frontMatter.date? = some d) :
    replaceDate j source = .ok (editUnless (d.value = expected) d.span expected.toString) := by
  unfold replaceDate
  simp only [hs, hd]

theorem exists_of_replaceDate {source : Option String}
    (h : replaceDate j source = .ok (some edit)) :
    ∃ expected d, Location.date? source = .ok (some expected) ∧ j.frontMatter.date? = some d ∧
      d.value ≠ expected ∧ edit = ⟨d.span, expected.toString⟩ := by
  have h' := h
  unfold replaceDate at h'
  rcases hs : Location.date? source with fault | expected
  · simp [hs] at h'
  rcases expected with _ | expected
  · simp [hs] at h'
  rcases hd : j.frontMatter.date? with _ | d
  · simp [hs, hd] at h'
  have heq := replaceDate_eq hs hd
  rw [h] at heq
  obtain ⟨hsame, hedit⟩ := editUnless_eq_some_iff.mp (Except.ok.inj heq).symm
  exact ⟨expected, d, rfl, rfl, by simpa using hsame, hedit⟩

end Command

end TimeJournal
