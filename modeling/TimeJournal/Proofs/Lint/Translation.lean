import TimeJournal.Proofs.Calendar.Resolution
import TimeJournal.Proofs.Edit.Correction

/-! # Journals under another date

The rules compare times with one another, never with the date, so a journal breaks the same rules
under another date, and has the same corrections. Only two things could tell the dates apart: a date
in the file name, and a time with an hour so large that there is no such day in the calendar.

* `instant?_of_suits`: how an instant depends on the date.
* `ofEntry_congr`, `entryEdits_congr`: what is found and corrected in an entry does not depend on it.
* `declared_set_date`, `corrections_set_date`: nor does what is found and corrected in a journal. -/

namespace TimeJournal

open Lint

/-- The times that are written in a journal. -/
def Journal.times (j : Journal) : List TimeToken :=
  (j.frontMatter.start.toList ++ j.frontMatter.stop.toList).map Located.value ++
    j.entries.flatMap fun e => [e.start.value, e.stop.value]

/-- The hour of a time is not too large for either date. -/
def TimeToken.Suits (d d' : Date) (t : TimeToken) : Prop := ¬ t.Overflows d ∧ ¬ t.Overflows d'

/-- The times of a journal suit both dates. -/
def Journal.Suits (d d' : Date) (j : Journal) : Prop := ∀ t ∈ j.times, t.Suits d d'

namespace Journal

variable {j : Journal} {d d' : Date}

theorem Suits.field (h : j.Suits d d') {t : Located TimeToken}
    (ht : t ∈ j.frontMatter.start ∨ t ∈ j.frontMatter.stop) : t.value.Suits d d' := by
  refine h _ (List.mem_append_left _ (List.mem_map_of_mem (List.mem_append.mpr ?_)))
  exact ht.imp Option.mem_toList.mpr Option.mem_toList.mpr

theorem Suits.entry (h : j.Suits d d') {e : Entry} (he : e ∈ j.entries) :
    e.start.value.Suits d d' ∧ e.stop.value.Suits d d' := by
  have htimes : ∀ t ∈ [e.start.value, e.stop.value], t.Suits d d' := fun t ht =>
    h t (List.mem_append_right _ (List.mem_flatMap.mpr ⟨e, he, ht⟩))
  exact ⟨htimes _ (by simp), htimes _ (by simp)⟩

theorem Suits.previous (h : j.Suits d d') {p : Option (Located TimeToken)} {e : Entry}
    (hlink : (p, e) ∈ j.chain) : ∀ t ∈ p, t.value.Suits d d' := by
  obtain ⟨es, es', hentries, rfl⟩ := mem_chain_iff.mp hlink
  intro t ht
  obtain ⟨before, hbefore, rfl⟩ := exists_of_lastStop ht
  exact (h.entry (by rw [hentries]; exact List.mem_append_left _ hbefore)).2

end Journal

namespace Lint

variable {d d' : Date}

/-! ### Times -/

/-- The instant of a time lies its minutes after the midnight of the date. -/
theorem instant?_of_suits {t : TimeToken} (h : t.Suits d d') :
    instant? (some d) t = t.offset.toOption.map (Instant.after d) ∧
      instant? (some d') t = t.offset.toOption.map (Instant.after d') := by
  unfold instant?
  rw [Option.bind_some, Option.bind_some, TimeToken.resolve_eq_map h.1,
    TimeToken.resolve_eq_map h.2]
  cases t.offset with
  | error fault => exact ⟨rfl, rfl⟩
  | ok minutes => exact ⟨rfl, rfl⟩

theorem unresolved_congr (issue : TimeFault → Issue) {t : Located TimeToken}
    (h : t.value.Suits d d') :
    unresolved (some d') issue t = unresolved (some d) issue t := by
  unfold unresolved
  rw [Option.map_some, Option.map_some, TimeToken.resolve_eq_map h.1,
    TimeToken.resolve_eq_map h.2]
  cases t.value.offset with
  | error fault => rfl
  | ok minutes => rfl

/-! ### Rules -/

section Rules

variable (settings : Settings)

theorem jumped_congr {previous : Option (Located TimeToken)} {e : Entry}
    (hp : ∀ t ∈ previous, t.value.Suits d d') (he : e.start.value.Suits d d') :
    jumped settings (some d') previous e = jumped settings (some d) previous e := by
  rcases previous with _ | p
  · rfl
  obtain ⟨hstop, hstop'⟩ := instant?_of_suits (hp p rfl)
  obtain ⟨hstart, hstart'⟩ := instant?_of_suits he
  unfold jumped
  dsimp only
  rw [hstop, hstop', hstart, hstart']
  rcases p.value.offset.toOption with _ | m
  · rfl
  rcases e.start.value.offset.toOption with _ | n
  · rfl
  simp only [Option.map_some, Instant.after_inj]

theorem rangeMismatch_congr {e : Entry} (hs : e.start.value.Suits d d')
    (he : e.stop.value.Suits d d') :
    rangeMismatch settings (some d') e = rangeMismatch settings (some d) e := by
  obtain ⟨hstart, hstart'⟩ := instant?_of_suits hs
  obtain ⟨hstop, hstop'⟩ := instant?_of_suits he
  unfold rangeMismatch
  rw [hstart, hstart', hstop, hstop']
  rcases e.duration.part? with _ | duration
  · rfl
  rcases e.start.value.offset.toOption with _ | m
  · rfl
  rcases e.stop.value.offset.toOption with _ | n
  · rfl
  simp only [Option.map_some, Instant.minutes_after_lt, Instant.minutes_after_sub]

theorem stopMismatch_congr {front : FrontMatter} {last : Option (Located TimeToken)}
    (hf : ∀ t ∈ front.stop, t.value.Suits d d') (hl : ∀ t ∈ last, t.value.Suits d d') :
    stopMismatch settings (some d') front last = stopMismatch settings (some d) front last := by
  unfold stopMismatch
  rcases hstop : front.stop with _ | expected
  · rfl
  rcases last with _ | p
  · rfl
  obtain ⟨hfield, hfield'⟩ := instant?_of_suits (hf expected hstop)
  obtain ⟨hlast, hlast'⟩ := instant?_of_suits (hl p rfl)
  dsimp only
  rw [hfield, hfield', hlast, hlast']
  rcases expected.value.offset.toOption with _ | m
  · rfl
  rcases p.value.offset.toOption with _ | n
  · rfl
  simp only [Option.map_some, Instant.after_inj]

/-- **What is found in an entry is the same under both dates.** -/
theorem ofEntry_congr {front : FrontMatter} {previous : Option (Located TimeToken)} {e : Entry}
    (hp : ∀ t ∈ previous, t.value.Suits d d')
    (he : e.start.value.Suits d d' ∧ e.stop.value.Suits d d') :
    ofEntry settings (some d') front previous e = ofEntry settings (some d) front previous e := by
  unfold ofEntry
  rw [unresolved_congr _ he.1, jumped_congr settings hp he.1, unresolved_congr _ he.2,
    rangeMismatch_congr settings he.1 he.2]

/-- What is found in the front matter is the same, if no date is expected. -/
theorem ofFrontMatter_withDate (hfile : settings.fileDate = none) {front : FrontMatter}
    (hf : ∀ t : Located TimeToken, t ∈ front.start ∨ t ∈ front.stop → t.value.Suits d d') :
    ofFrontMatter settings (some d') (front.withDate d') =
      ofFrontMatter settings (some d) front := by
  have hdate : ∀ f : FrontMatter, dateMismatch settings f = [] := by
    intro f
    unfold dateMismatch
    rw [hfile]
    cases f.date? <;> rfl
  have hslot : ∀ (issue : TimeFault → Issue) (slot : Option (Located TimeToken)),
      (∀ t ∈ slot, t.value.Suits d d') →
      slot.toList.flatMap (unresolved (some d') issue) =
        slot.toList.flatMap (unresolved (some d) issue) := fun issue slot h =>
    List.flatMap_congr fun t ht => unresolved_congr issue (h t (Option.mem_toList.mp ht))
  have hmissing : missing (front.withDate d') = missing front := by
    have hsame : (front.withDate d').date.isNone = front.date.isNone := Option.isNone_map
    unfold missing
    rw [hsame]
    rfl
  unfold ofFrontMatter
  rw [hdate, hdate, hmissing]
  show [] ++ front.start.toList.flatMap _ ++ front.stop.toList.flatMap _ ++ _ = _
  rw [hslot _ _ fun t ht => hf t (Or.inl ht), hslot _ _ fun t ht => hf t (Or.inr ht)]

end Rules

/-- The date of the front matter is the only one that times are resolved against. -/
theorem reference_set_date {j : Journal} {a : Located Date} (ha : j.frontMatter.date? = some a)
    (d' : Date) : reference j = some a.value ∧ reference (j.set (.date d')) = some d' := by
  unfold reference
  refine ⟨by rw [ha]; rfl, ?_⟩
  show (j.frontMatter.withDate d').date?.map Located.value = _
  rw [FrontMatter.date?_withDate, ha]
  rfl

/-- **Under another date the same rules are broken**, in the same places and the same words. -/
theorem declared_set_date {settings : Settings} (hfile : settings.fileDate = none) {j : Journal}
    {a : Located Date} (ha : j.frontMatter.date? = some a) (h : j.Suits a.value d') :
    declared settings (j.set (.date d')) = declared settings j := by
  obtain ⟨hold, hnew⟩ := reference_set_date ha d'
  have hlast : ∀ t ∈ j.entries.getLast?.map Entry.stop, t.value.Suits a.value d' := by
    intro t ht
    obtain ⟨e, he, rfl⟩ := Option.map_eq_some_iff.mp ht
    exact (h.entry (List.mem_of_getLast? he)).2
  unfold declared
  rw [hold, hnew]
  show ofFrontMatter settings (some d') (j.frontMatter.withDate d') ++
    j.chain.flatMap (fun link => ofEntry settings (some d') j.frontMatter link.1 link.2) ++
    stopMismatch settings (some d') j.frontMatter (j.entries.getLast?.map Entry.stop) = _
  rw [ofFrontMatter_withDate settings hfile fun t => h.field,
    stopMismatch_congr settings (fun t ht => h.field (Or.inr ht)) hlast]
  congr 2
  exact List.flatMap_congr fun link hlink =>
    ofEntry_congr settings (h.previous hlink) (h.entry (mem_of_mem_chain hlink))

/-! ### Corrections -/

theorem differ_congr {s t : TimeToken} (hs : s.Suits d d') (ht : t.Suits d d') :
    differ (some d') s t = differ (some d) s t := by
  obtain ⟨hold, hnew⟩ := instant?_of_suits hs
  obtain ⟨hold', hnew'⟩ := instant?_of_suits ht
  unfold differ
  rw [hold, hnew, hold', hnew']
  rcases s.offset.toOption with _ | m
  · rfl
  rcases t.offset.toOption with _ | n
  · rfl
  simp [bne, beq_eq_decide]

end Lint

variable {d d' : Date} {previous : Option (Located TimeToken)} {e : Entry}

theorem rightStart_congr (hp : ∀ t ∈ previous, t.value.Suits d d')
    (he : e.start.value.Suits d d') :
    rightStart (some d') previous e = rightStart (some d) previous e ∧
      (rightStart (some d) previous e).Suits d d' := by
  rcases previous with _ | p
  · exact ⟨rfl, he⟩
  unfold rightStart
  dsimp only
  rw [differ_congr (hp p rfl) he]
  refine ⟨rfl, ?_⟩
  split_ifs
  · exact hp p rfl
  · exact he

theorem durationEdits_congr {start : TimeToken} (hs : start.Suits d d')
    (he : e.stop.value.Suits d d') :
    durationEdits (some d') start e = durationEdits (some d) start e := by
  obtain ⟨hstart, hstart'⟩ := instant?_of_suits hs
  obtain ⟨hstop, hstop'⟩ := instant?_of_suits he
  unfold durationEdits
  rw [hstart, hstart', hstop, hstop']
  rcases e.duration.part? with _ | duration
  · rfl
  rcases start.offset.toOption with _ | m
  · rfl
  rcases e.stop.value.offset.toOption with _ | n
  · rfl
  simp only [Option.map_some, Instant.minutes_after_le, Instant.minutes_after_sub]

/-- **What is corrected in an entry is the same under both dates.** -/
theorem entryEdits_congr (hp : ∀ t ∈ previous, t.value.Suits d d')
    (he : e.start.value.Suits d d' ∧ e.stop.value.Suits d d') :
    entryEdits (some d') previous e = entryEdits (some d) previous e := by
  obtain ⟨hright, hsuits⟩ := rightStart_congr hp he.1
  have hstart : startEdits (some d') previous e = startEdits (some d) previous e := by
    rcases previous with _ | p
    · rfl
    unfold startEdits
    dsimp only
    rw [differ_congr (hp p rfl) he.1]
  rw [entryEdits, entryEdits, hstart, hright, durationEdits_congr hsuits he.2]

/-- **Under another date a journal has the same corrections**, if no date is expected. -/
theorem corrections_set_date {j : Journal} {a : Located Date}
    (ha : j.frontMatter.date? = some a) (h : j.Suits a.value d') :
    (j.set (.date d')).corrections none = j.corrections none := by
  obtain ⟨hold, hnew⟩ := reference_set_date ha d'
  have hdate : ∀ f : FrontMatter, dateEdits none f = [] := by
    intro f
    unfold dateEdits
    cases f.date? <;> rfl
  unfold Journal.corrections rightDate
  rw [hdate, hdate, hold, hnew, List.nil_append, List.nil_append]
  exact List.flatMap_congr fun link hlink =>
    entryEdits_congr (h.previous hlink) (h.entry (mem_of_mem_chain hlink))

end TimeJournal
