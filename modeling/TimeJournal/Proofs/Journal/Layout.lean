import TimeJournal.Proofs.Journal.Chain
import TimeJournal.Proofs.Journal.Document
import TimeJournal.Proofs.Journal.FieldValue
import TimeJournal.Proofs.Journal.Grammar

/-! # The layout of a journal

Where the parts of a journal stand in its text: the entries one after the other, behind the date, and
in an entry first a dash, then the start time, then the duration. So the parts that a command can
edit are apart from one another, with at least one character between any two.

* `isLaidOut_of_ofText`: a journal that was read from a text is laid out so.
* `isTime_stop_of_ofText`: the end time of its entries can stand for a start time. -/

namespace TimeJournal

open Text

/-- The start time and the duration of an entry stand in this order in it, and not at its front. -/
structure Entry.IsLaidOut (e : Entry) : Prop where
  lt_start : e.span.start < e.start.span.start
  start_le : e.start.span.stop ≤ e.span.stop
  lt_duration : ∀ d ∈ e.duration.part?, e.start.span.stop < d.span.start
  duration_le : ∀ d ∈ e.duration.part?, d.span.stop ≤ e.span.stop

/-- The date stands in front of the entries, and the entries one after the other. -/
structure Journal.IsLaidOut (j : Journal) : Prop where
  pairwise : j.entries.Pairwise fun a b => a.span.stop ≤ b.span.start
  entry : ∀ e ∈ j.entries, e.IsLaidOut
  date : ∀ d ∈ j.frontMatter.date?, ∀ e ∈ j.entries, d.span.stop ≤ e.span.start

/-! ### Lines -/

namespace EntryText

theorem readDuration_span {place : ℕ} {literal : List Char} {d : Duration}
    (h : (readDuration place literal).1.part? = some d) :
    d.span = Span.ofLength place literal.length := by
  unfold readDuration at h
  rcases hs : Hours.seconds? literal with _ | seconds
  · rw [hs] at h; cases h
  · rw [hs] at h; rw [← Option.some.inj h]

theorem isLaidOut_toEntry (t : EntryText) (start : ℕ) : (t.toEntry start).1.IsLaidOut where
  lt_start := by
    show start < t.startAt start
    unfold startAt; omega
  start_le := by
    show t.startAt start + t.start.length ≤ t.endAt start
    unfold endAt activityAt durationAt codesAt stopAt; omega
  lt_duration := by
    intro d hd
    rw [readDuration_span hd]
    show t.startAt start + t.start.length < t.durationAt start
    unfold durationAt codesAt stopAt; omega
  duration_le := by
    intro d hd
    rw [readDuration_span hd]
    show t.durationAt start + t.duration.text.length ≤ t.endAt start
    unfold endAt activityAt Word.size; omega

end EntryText

/-- An entry fills its line. -/
theorem BodyLine.isLaidOut_read {start : ℕ} {content : List Char} {e : Entry}
    (h : (BodyLine.read start content).1 = .entry e) :
    e.IsLaidOut ∧ e.span = Span.ofLength start content.length := by
  obtain ⟨t, -, rfl, rfl⟩ := BodyLine.exists_entryText h
  exact ⟨t.isLaidOut_toEntry start, Span.ext rfl (EntryText.endAt_eq t start)⟩

theorem BlockLine.span_le {l : Line} {f : Field} (h : BlockLine.read l = .field f) :
    f.span.stop ≤ l.stop := by
  obtain ⟨t, ht, rfl⟩ := BlockLine.exists_fieldText h
  have hlength := t.valueOffset_add_le
  rw [FieldText.chars_of_read ht] at hlength
  show l.start + t.valueOffset + t.value.length ≤ l.start + l.content.length
  omega

/-! ### Documents -/

namespace Document

variable (D : Document)

theorem entries_journal : D.journal.entries =
    D.body.filterMap fun l => BodyLine.entry? (BodyLine.read l.start l.content).1 := by
  show ((D.body.map _).map Prod.fst).filterMap BodyLine.entry? = _
  rw [List.map_map, List.filterMap_map]
  rfl

theorem exists_line_of_mem {e : Entry} (h : e ∈ D.journal.entries) :
    ∃ l ∈ D.body, (BodyLine.read l.start l.content).1 = .entry e := by
  rw [entries_journal] at h
  obtain ⟨l, hl, he⟩ := List.mem_filterMap.mp h
  exact ⟨l, hl, BodyLine.entry?_eq_some_iff.mp he⟩

theorem exists_line_of_field {f : Field} (h : f ∈ D.fields) :
    ∃ l ∈ D.inner, BlockLine.read l = .field f := by
  obtain ⟨b, hb, hfield⟩ := List.mem_filterMap.mp h
  obtain ⟨l, hl, rfl⟩ := List.mem_map.mp hb
  exact ⟨l, hl, BlockLine.field?_eq_some_iff.mp hfield⟩

theorem exists_line_of_date {d : Located Date} (h : d ∈ D.journal.frontMatter.date?) :
    ∃ l ∈ D.inner, d.span.stop ≤ l.stop := by
  obtain ⟨part, hpart, hread⟩ := Option.bind_eq_some_iff.mp h
  obtain ⟨f, hf, rfl⟩ := Option.map_eq_some_iff.mp hpart
  obtain ⟨l, hl, hfield⟩ := D.exists_line_of_field (mem_of_lastField hf)
  refine ⟨l, hl, ?_⟩
  rw [(Field.parse_of_toDate (Recovered.part?_eq_some_iff.mp hread)).2]
  exact BlockLine.span_le hfield

theorem isLaidOut : D.journal.IsLaidOut where
  pairwise := by
    have hlines : D.body.Pairwise fun a b => a.stop ≤ b.start := by
      refine D.cut.pairwise.sublist ?_
      exact (((List.Sublist.refl D.body).cons _).trans (List.sublist_append_right _ _)).cons _
    rw [entries_journal, List.pairwise_filterMap]
    refine hlines.imp fun {l l'} hle a ha b hb => ?_
    rw [(BodyLine.isLaidOut_read (BodyLine.entry?_eq_some_iff.mp ha)).2,
      (BodyLine.isLaidOut_read (BodyLine.entry?_eq_some_iff.mp hb)).2]
    exact hle
  entry := by
    intro e he
    obtain ⟨l, -, hl⟩ := D.exists_line_of_mem he
    exact (BodyLine.isLaidOut_read hl).1
  date := by
    intro d hd e he
    obtain ⟨l, hl, hle⟩ := D.exists_line_of_date hd
    obtain ⟨l', hl', he'⟩ := D.exists_line_of_mem he
    have hspan := (BodyLine.isLaidOut_read he').2
    have hcross := (List.pairwise_append.mp (List.pairwise_cons.mp D.cut.pairwise).2).2.2 l hl l'
      (List.mem_cons_of_mem _ hl')
    rw [hspan]
    exact hle.trans hcross

end Document

/-- **A journal that was read from a text is laid out in it.** -/
theorem isLaidOut_of_ofText {s : List Char} {j : Journal}
    (h : (Reading.ofText s).journal = some j) : j.IsLaidOut := by
  obtain ⟨D, -, rfl⟩ := exists_document h
  exact D.isLaidOut

/-- The end time of an entry that was read from a text is a time. -/
theorem isTime_stop_of_ofText {s : List Char} {j : Journal} (h : (Reading.ofText s).journal = some j)
    {e : Entry} (he : e ∈ j.entries) : IsTime e.stop.value.raw.toList := by
  obtain ⟨D, -, rfl⟩ := exists_document h
  obtain ⟨l, -, hl⟩ := D.exists_line_of_mem he
  obtain ⟨t, ht, -, rfl⟩ := BodyLine.exists_entryText hl
  show IsTime (String.ofList t.stop).toList
  rw [String.toList_ofList]
  exact ht.stop_isTime

/-- The end time in front of an entry can stand for its start time. -/
theorem isTime_lastStop_of_ofText {s : List Char} {j : Journal}
    (h : (Reading.ofText s).journal = some j) {before after : List Entry}
    (hentries : j.entries = before ++ after) {p : Located TimeToken}
    (hp : lastStop none before = some p) : IsTime p.value.raw.toList := by
  obtain ⟨e, he, rfl⟩ := exists_of_lastStop hp
  refine isTime_stop_of_ofText h ?_
  rw [hentries]
  exact List.mem_append_left after he

/-- The duration of an entry that was read from a text is what its literal writes. -/
theorem seconds?_of_ofText {s : List Char} {j : Journal} (h : (Reading.ofText s).journal = some j)
    {e : Entry} (he : e ∈ j.entries) {d : Duration} (hd : e.duration.part? = some d) :
    Hours.seconds? d.raw.toList = some d.seconds := by
  obtain ⟨D, -, rfl⟩ := exists_document h
  obtain ⟨l, -, hl⟩ := D.exists_line_of_mem he
  obtain ⟨t, -, -, rfl⟩ := BodyLine.exists_entryText hl
  have hread : (EntryText.readDuration (t.durationAt l.start) t.duration.text).1.part? = some d := hd
  unfold EntryText.readDuration at hread
  rcases hs : Hours.seconds? t.duration.text with _ | seconds
  · rw [hs] at hread; cases hread
  · rw [hs] at hread
    rw [← Option.some.inj hread]
    dsimp only
    rw [String.toList_ofList, hs]

end TimeJournal
