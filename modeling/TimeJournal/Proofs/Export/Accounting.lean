import TimeJournal.Proofs.Editor.QuickFix
import TimeJournal.Proofs.Export.Records
import TimeJournal.Proofs.Journal.Quotation

/-! # What an export leaves out

An export leaves out an entry without a word, and a whole journal without a date. A check of the
same text says which: an entry has a record unless the date is not well formed or there is a finding
about its start time, its end time or the literal of its duration.

* `mem_of_holds`: a finding in an entry is about that entry, and of one of four kinds.
* `Checked.reports_invalidStart_iff`, `Checked.reports_invalidStop_iff`,
  `Checked.reports_parseError_iff`: when there is a finding on a part that an export needs.
* `Checked.clears_iff`: the entries that a check has nothing to say about are those with a record.
* `records_accounted`: the records of a text, and the findings for all that is left out. -/

namespace TimeJournal

open Lint

/-! ### The places of the parts -/

/-- The span of the literal of a duration, whether it could be read or not. -/
def Entry.durationSpan (e : Entry) : Span := (e.duration.found Duration.literal).span

/-- The span lies in the entry, behind its front. -/
def Entry.Holds (e : Entry) (s : Span) : Prop := e.span.start < s.start ∧ s.stop ≤ e.span.stop

/-- The parts of an entry that an export needs lie in it. -/
structure Entry.HoldsParts (e : Entry) : Prop where
  start : e.Holds e.start.span
  stop : e.Holds e.stop.span
  duration : e.Holds e.durationSpan

theorem EntryText.span_readDuration (place : ℕ) (literal : List Char) :
    ((readDuration place literal).1.found Duration.literal).span =
      Span.ofLength place literal.length := by
  rw [readDuration_eq]
  cases Hours.seconds? literal with
  | none => rfl
  | some seconds => rfl

theorem EntryText.holdsParts_toEntry (t : EntryText) (start : ℕ) :
    (t.toEntry start).1.HoldsParts where
  start := by
    constructor
    · show start < t.startAt start
      unfold startAt; omega
    · show t.startAt start + t.start.length ≤ t.endAt start
      unfold endAt activityAt durationAt codesAt stopAt; omega
  stop := by
    constructor
    · show start < t.stopAt start
      unfold stopAt startAt; omega
    · show t.stopAt start + t.stop.length ≤ t.endAt start
      unfold endAt activityAt durationAt codesAt; omega
  duration := by
    have hspan : (t.toEntry start).1.durationSpan =
        Span.ofLength (t.durationAt start) t.duration.text.length :=
      span_readDuration _ _
    rw [hspan]
    constructor
    · show start < t.durationAt start
      unfold durationAt codesAt stopAt startAt; omega
    · show t.durationAt start + t.duration.text.length ≤ t.endAt start
      unfold endAt activityAt Word.size; omega

/-- Where the parts of a journal stand that a check looks at: the fields of the front matter inside
it, the entries behind it, and the parts of an entry in the entry. -/
structure Journal.IsOrdered (j : Journal) : Prop extends j.IsLaidOut where
  fields : ∀ p ∈ j.frontMatter.parts, p.span.stop ≤ j.frontMatter.span.stop
  behind : ∀ e ∈ j.entries, j.frontMatter.span.stop < e.span.start
  holds : ∀ e ∈ j.entries, e.HoldsParts

theorem Document.isOrdered (D : Document) : D.journal.IsOrdered where
  toIsLaidOut := D.isLaidOut
  fields p hp := (D.slice_of_mem_frontMatter hp).2.2
  behind e he := by
    obtain ⟨l, hl, hread⟩ := D.exists_line_of_mem he
    rw [(BodyLine.isLaidOut_read hread).2]
    exact D.blockSpan_lt_body hl
  holds e he := by
    obtain ⟨l, -, hread⟩ := D.exists_line_of_mem he
    obtain ⟨t, -, -, rfl⟩ := BodyLine.exists_entryText hread
    exact t.holdsParts_toEntry l.start

theorem isOrdered_of_ofText {s : List Char} {j : Journal}
    (h : (Reading.ofText s).journal = some j) : j.IsOrdered := by
  obtain ⟨D, -, rfl⟩ := exists_document h
  exact D.isOrdered

/-! ### Findings behind the front matter -/

section Declared

variable {settings : Settings} {date : Option Date} {f : Finding}

/-- A time of the front matter is one of its parts. -/
theorem FrontMatter.literal_mem_parts {front : FrontMatter} {t : Located TimeToken}
    (h : t ∈ front.start ∨ t ∈ front.stop) : t.literal ∈ front.parts := by
  unfold parts
  rcases h with h | h
  · rw [h]; simp
  · rw [h]; simp

theorem FrontMatter.written_mem_parts {front : FrontMatter} {d : Located Date}
    (h : front.date? = some d) : d.written ∈ front.parts := by
  obtain ⟨part, hpart, hread⟩ := Option.bind_eq_some_iff.mp h
  rw [Recovered.part?_eq_some_iff] at hread
  unfold parts
  rw [hpart, hread]
  simp [Recovered.found]

section Front

variable {j : Journal} (hj : j.IsOrdered)

include hj

theorem span_le_of_mem_slot {issue : TimeFault → Issue} {slot : Option (Located TimeToken)}
    (hslot : ∀ t ∈ slot, t.literal ∈ j.frontMatter.parts)
    (h : f ∈ slot.toList.flatMap (unresolved date issue)) :
    f.span.stop ≤ j.frontMatter.span.stop := by
  obtain ⟨t, ht, h⟩ := List.mem_flatMap.mp h
  obtain ⟨d, fault, -, -, rfl⟩ := mem_unresolved h
  exact hj.fields _ (hslot t (Option.mem_toList.mp ht))

/-- A finding about the front matter stands in it. -/
theorem span_le_of_mem_ofFrontMatter (h : f ∈ ofFrontMatter settings date j.frontMatter) :
    f.span.stop ≤ j.frontMatter.span.stop := by
  unfold ofFrontMatter at h
  simp only [List.mem_append, or_assoc] at h
  rcases h with h | h | h | h
  · obtain ⟨d, expected, hd, -, -, rfl⟩ := mem_dateMismatch h
    exact hj.fields _ (FrontMatter.written_mem_parts hd)
  · exact span_le_of_mem_slot hj (fun t ht => FrontMatter.literal_mem_parts (Or.inl ht)) h
  · exact span_le_of_mem_slot hj (fun t ht => FrontMatter.literal_mem_parts (Or.inr ht)) h
  · obtain ⟨slot, -, rfl⟩ := List.mem_map.mp h
    exact le_rfl

/-- A start time that is not that of the first entry is reported in the front matter. -/
theorem span_le_of_mem_startMismatch {p : Option (Located TimeToken)} {e : Entry}
    (h : f ∈ startMismatch j.frontMatter p e) : f.span.stop ≤ j.frontMatter.span.stop := by
  obtain ⟨expected, hstart, rfl⟩ := mem_startMismatch h
  exact hj.fields _ (FrontMatter.literal_mem_parts (Or.inl hstart))

/-- An end time that is not that of the last entry is reported in the front matter. -/
theorem span_le_of_mem_stopMismatch {last : Option (Located TimeToken)}
    (h : f ∈ stopMismatch settings date j.frontMatter last) :
    f.span.stop ≤ j.frontMatter.span.stop := by
  obtain ⟨expected, p, hstop, -, rfl⟩ := mem_stopMismatch h
  exact hj.fields _ (FrontMatter.literal_mem_parts (Or.inr hstop))

end Front

/-- **A finding in an entry is about the entry**, and of one of four kinds. -/
theorem mem_of_holds {j : Journal} (hj : j.IsOrdered) {e : Entry} (he : e ∈ j.entries)
    (h : f ∈ declared settings j) (hspan : e.Holds f.span) :
    f ∈ unresolved (reference j) .invalidStart e.start ∨
      (∃ p, f ∈ jumped settings (reference j) p e) ∨
      f ∈ unresolved (reference j) .invalidStop e.stop ∨
      f ∈ rangeMismatch settings (reference j) e := by
  have hbehind : j.frontMatter.span.stop < f.span.stop :=
    (hj.behind e he).trans (hspan.1.trans_le f.span.start_le_stop)
  unfold declared at h
  simp only [List.mem_append, or_assoc] at h
  rcases h with h | h | h
  · exact absurd (span_le_of_mem_ofFrontMatter hj h) (not_le.mpr hbehind)
  · obtain ⟨⟨p, e'⟩, hlink, h⟩ := List.mem_flatMap.mp h
    -- what is found about another entry stands in that one
    have he' : e' ∈ j.entries := mem_of_mem_chain hlink
    have hsame : e'.Holds f.span → e' = e := fun hspan' =>
      hj.eq_of_start_eq he' he hspan' hspan rfl
    have hparts := hj.holds e' he'
    unfold ofEntry at h
    simp only [List.mem_append, or_assoc] at h
    rcases h with h | h | h | h | h
    · obtain ⟨d, fault, -, -, rfl⟩ := mem_unresolved h
      obtain rfl := hsame hparts.start
      exact Or.inl h
    · exact absurd (span_le_of_mem_startMismatch hj h) (not_le.mpr hbehind)
    · obtain ⟨q, -, -, rfl⟩ := mem_jumped h
      obtain rfl := hsame hparts.start
      exact Or.inr (Or.inl ⟨p, h⟩)
    · obtain ⟨d, fault, -, -, rfl⟩ := mem_unresolved h
      obtain rfl := hsame hparts.stop
      exact Or.inr (Or.inr (Or.inl h))
    · have hin : e'.Holds f.span := by
        rcases mem_rangeMismatch h with rfl | ⟨d, a, b, hd, -, -, -, -, rfl⟩
        · exact hparts.stop
        · have hduration := hparts.duration
          rw [Entry.durationSpan, Recovered.part?_eq_some_iff.mp hd] at hduration
          exact hduration
      obtain rfl := hsame hin
      exact Or.inr (Or.inr (Or.inr h))
  · exact absurd (span_le_of_mem_stopMismatch hj h) (not_le.mpr hbehind)

/-- A time has no instant against a date. -/
def Fails (date : Option Date) (t : TimeToken) : Prop :=
  ∃ d fault, date = some d ∧ t.resolve d = .error fault

/-- What the rule of a finding in an entry says about the entry. -/
theorem fails_of_holds {j : Journal} (hj : j.IsOrdered) {e : Entry} (he : e ∈ j.entries)
    (h : f ∈ declared settings j) (hspan : e.Holds f.span) :
    (f.rule = .invalidStart → Fails (reference j) e.start.value) ∧
      (f.rule = .invalidStop → Fails (reference j) e.stop.value) ∧ f.rule ≠ .parseError := by
  rcases mem_of_holds hj he h hspan with h | ⟨p, h⟩ | h | h
  · obtain ⟨d, fault, hd, hfault, rfl⟩ := mem_unresolved h
    exact ⟨fun _ => ⟨d, fault, hd, hfault⟩, nofun, nofun⟩
  · obtain ⟨q, -, -, rfl⟩ := mem_jumped h
    exact ⟨nofun, nofun, nofun⟩
  · obtain ⟨d, fault, hd, hfault, rfl⟩ := mem_unresolved h
    exact ⟨nofun, fun _ => ⟨d, fault, hd, hfault⟩, nofun⟩
  · rcases mem_rangeMismatch h with rfl | ⟨d, a, b, -, -, -, -, -, rfl⟩
    · exact ⟨nofun, nofun, nofun⟩
    · exact ⟨nofun, nofun, nofun⟩

end Declared

/-! ### What a check reports -/

/-- There is a finding of a rule at a span. -/
def Checked.Reports (c : Checked) (rule : Rule) (span : Span) : Prop :=
  ∃ f ∈ c.findings, f.rule = rule ∧ f.span = span

instance (c : Checked) (rule : Rule) (span : Span) : Decidable (c.Reports rule span) :=
  inferInstanceAs (Decidable (∃ f ∈ c.findings, f.rule = rule ∧ f.span = span))

/-- A check says nothing about the parts of an entry that an export needs, nor about the date. -/
structure Checked.Clears (c : Checked) (j : Journal) (e : Entry) : Prop where
  date : j.frontMatter.date?.isSome
  start : ¬ c.Reports .invalidStart e.start.span
  stop : ¬ c.Reports .invalidStop e.stop.span
  duration : ¬ c.Reports .parseError e.durationSpan

theorem Checked.clears_iff_and (c : Checked) (j : Journal) (e : Entry) : c.Clears j e ↔
    j.frontMatter.date?.isSome ∧ ¬ c.Reports .invalidStart e.start.span ∧
      ¬ c.Reports .invalidStop e.stop.span ∧ ¬ c.Reports .parseError e.durationSpan :=
  ⟨fun h => ⟨h.date, h.start, h.stop, h.duration⟩, fun ⟨a, b, c, d⟩ => ⟨a, b, c, d⟩⟩

instance (c : Checked) (j : Journal) (e : Entry) : Decidable (c.Clears j e) :=
  decidable_of_iff _ (c.clears_iff_and j e).symm

section Reports

variable {s : List Char} {j : Journal} {settings : Settings} {e : Entry}

/-- A finding that is no fault of the text is one that the rules declare. -/
theorem mem_declared_of_rule {f : Finding}
    (h : f ∈ (⟨Reading.ofText s, declared settings j⟩ : Checked).findings)
    (hrule : f.rule ≠ .parseError) : f ∈ declared settings j := by
  rcases List.mem_append.mp h with h | h
  · obtain ⟨fault, -, rfl⟩ := List.mem_map.mp h
    exact absurd rfl hrule
  · exact h

/-- The rules about an entry are among those that are declared. -/
theorem mem_declared_of_mem_entries (he : e ∈ j.entries) {f : Finding}
    (h : ∀ p, f ∈ ofEntry settings (reference j) j.frontMatter p e) : f ∈ declared settings j := by
  obtain ⟨es, es', hentries⟩ := List.append_of_mem he
  refine List.mem_append_left _ (List.mem_append_right _ (List.mem_flatMap.mpr ?_))
  exact ⟨(lastStop none es, e), mem_chain_iff.mpr ⟨es, es', hentries, rfl⟩, h _⟩

namespace Checked

/-- There is a finding of a rule on a time exactly if the time does not resolve, where the rule is
about nothing else at its place. -/
theorem reports_iff_fails {rule : Rule} (issue : TimeFault → Issue) {t : Located TimeToken}
    (hissue : ∀ fault, (issue fault).rule = rule) (hrule : rule ≠ .parseError)
    (hmem : ∀ f ∈ unresolved (reference j) issue t, f ∈ declared settings j)
    (hfails : ∀ f ∈ declared settings j, f.span = t.span → f.rule = rule →
      Fails (reference j) t.value) :
    Reports ⟨Reading.ofText s, declared settings j⟩ rule t.span ↔ Fails (reference j) t.value := by
  constructor
  · rintro ⟨f, hf, rfl, hspan⟩
    exact hfails f (mem_declared_of_rule hf hrule) hspan rfl
  · rintro ⟨d, fault, hd, hfault⟩
    refine ⟨⟨t.span, issue fault⟩, List.mem_append_right _ (hmem _ ?_), hissue fault, rfl⟩
    unfold unresolved
    simp [hd, hfault]

/-- There is a finding on a start time exactly if it does not resolve. -/
theorem reports_invalidStart_iff (hj : j.IsOrdered) (he : e ∈ j.entries) :
    Reports ⟨Reading.ofText s, declared settings j⟩ .invalidStart e.start.span ↔
      Fails (reference j) e.start.value := by
  refine reports_iff_fails .invalidStart (fun _ => rfl) (by decide) (fun f hf => ?_)
    fun f hf hspan hrule => ?_
  · exact mem_declared_of_mem_entries he fun p => by simp [ofEntry, hf]
  · exact (fails_of_holds hj he hf (hspan ▸ (hj.holds e he).start)).1 hrule

/-- There is a finding on an end time exactly if it does not resolve. -/
theorem reports_invalidStop_iff (hj : j.IsOrdered) (he : e ∈ j.entries) :
    Reports ⟨Reading.ofText s, declared settings j⟩ .invalidStop e.stop.span ↔
      Fails (reference j) e.stop.value := by
  refine reports_iff_fails .invalidStop (fun _ => rfl) (by decide) (fun f hf => ?_)
    fun f hf hspan hrule => ?_
  · exact mem_declared_of_mem_entries he fun p => by simp [ofEntry, hf]
  · exact (fails_of_holds hj he hf (hspan ▸ (hj.holds e he).stop)).2.1 hrule

/-- There is a fault at the literal of a duration exactly if it is none. -/
theorem reports_parseError_iff (hj : (Reading.ofText s).journal = some j) (he : e ∈ j.entries) :
    Reports ⟨Reading.ofText s, declared settings j⟩ .parseError e.durationSpan ↔
      e.duration.part? = none := by
  have hordered := isOrdered_of_ofText hj
  have hholds := (hordered.holds e he).duration
  obtain ⟨-, -, haccounts, -⟩ := Reading.accountsFor_ofText s
  obtain ⟨l, hl, hentry⟩ := List.mem_filterMap.mp he
  obtain rfl := BodyLine.entry?_eq_some_iff.mp hentry
  have hline := haccounts.line j hj _ hl
  generalize hfaults : ((Reading.ofText s).faults.filter fun f =>
    f.span.Within (BodyLine.entry e).span) = faults at hline
  cases hline with
  | badDuration hk _ hspan _ =>
    rename_i k f _ _
    have hf : f ∈ (Reading.ofText s).faults := by
      refine List.mem_of_mem_filter (p := fun f => f.span.Within (BodyLine.entry e).span) ?_
      rw [hfaults]
      exact List.mem_singleton_self f
    refine iff_of_true ⟨Finding.ofFault f, ?_, rfl, ?_⟩ (by rw [hk]; rfl)
    · exact List.mem_append_left _ (List.mem_map_of_mem hf)
    · rw [Entry.durationSpan, hk]
      exact hspan
  | entry hd =>
    rename_i d
    refine iff_of_false ?_ (by rw [hd]; exact nofun)
    rintro ⟨f, hf, hrule, hspan⟩
    rcases List.mem_append.mp hf with hf | hf
    · -- no fault of the text lies in the line of this entry
      obtain ⟨fault, hfault, rfl⟩ := List.mem_map.mp hf
      change fault.span = e.durationSpan at hspan
      refine List.filter_eq_nil_iff.mp hfaults fault hfault (decide_eq_true ?_)
      rw [hspan]
      exact ⟨hholds.1.le, hholds.2⟩
    · exact (fails_of_holds hordered he hf (hspan ▸ hholds)).2.2 hrule

/-- A date that is not well formed is reported, where it should stand or where it stands. -/
theorem reports_of_date_none (hj : (Reading.ofText s).journal = some j)
    (hdate : j.frontMatter.date? = none) :
    (j.frontMatter.date = none ∧
      Reports ⟨Reading.ofText s, declared settings j⟩ .missingDate j.frontMatter.span) ∨
    ∃ k, j.frontMatter.date = some (.junk k) ∧
      Reports ⟨Reading.ofText s, declared settings j⟩ .parseError k.span := by
  rcases hslot : j.frontMatter.date with _ | ⟨d | k⟩
  · refine Or.inl ⟨rfl, ⟨j.frontMatter.span, .missing .date⟩, ?_, rfl, rfl⟩
    refine List.mem_append_right _ (List.mem_append_left _ (List.mem_append_left _ ?_))
    refine List.mem_append_right _ ?_
    unfold missing
    simp [hslot]
  · rw [FrontMatter.date?, hslot] at hdate
    cases hdate
  · refine Or.inr ⟨k, rfl, ?_⟩
    obtain ⟨D, rfl, rfl⟩ := exists_document hj
    obtain ⟨field, hfield, hjunk⟩ := Option.map_eq_some_iff.mp hslot
    obtain ⟨before, after, hfields, hkey, -⟩ := exists_lastField hfield
    obtain ⟨l, hl, hread⟩ := D.exists_line_of_field (mem_of_lastField hfield)
    obtain ⟨fault, hparse, hspan⟩ : ∃ fault, Date.parse field.value = .error fault ∧
        k.span = field.span := by
      unfold Field.toDate at hjunk
      split at hjunk
      · cases hjunk
      · rename_i fault hparse
        rw [← Recovered.junk.inj hjunk]
        exact ⟨fault, hparse, rfl⟩
    refine ⟨Finding.ofFault ⟨.badDate fault, field.span⟩, ?_, rfl, hspan.symm⟩
    refine List.mem_append_left _ (List.mem_map_of_mem ?_)
    rw [D.faults_ofText, D.faults_eq]
    refine List.mem_append_left _ (List.mem_filterMap.mpr ⟨l, hl, ?_⟩)
    rw [blockFault?, hread]
    simp [BlockLine.fault?, hkey, hparse]

end Checked

end Reports

/-! ### Records -/

/-- What the record of an entry holds: the instants of its own times, the seconds that its duration
writes, its codes and its activity, with the labels of the activity among the codes if they are
split off. -/
structure Record.Describes (r : Record) (split : Bool) (date : Date) (e : Entry) : Prop where
  start : e.start.value.resolve date = .ok r.start
  stop : e.stop.value.resolve date = .ok r.stop
  duration : ∃ d, e.duration = .read d ∧ d.seconds = r.seconds
  codes : r.codes = e.codes.map Located.value ++
    if split then (splitLabels e.activity.value).1 else []
  activity : r.activity = if split then (splitLabels e.activity.value).2 else e.activity.value

theorem Entry.describes_of_record? {e : Entry} {date : Option Date} {split : Bool} {r : Record}
    (h : e.record? date split = some r) : ∃ d, date = some d ∧ r.Describes split d e := by
  unfold record? at h
  rcases date with _ | d
  · cases h
  refine ⟨d, rfl, ?_⟩
  unfold instant? at h
  dsimp only [Option.bind_some] at h
  rcases hstart : e.start.value.resolve d with fault | a
  · rw [hstart] at h; cases h
  rcases hstop : e.stop.value.resolve d with fault | b
  · rw [hstart, hstop] at h; cases h
  rcases hduration : e.duration with duration | k
  · rw [hstart, hstop, hduration] at h
    cases split
    · obtain rfl := (Option.some.inj h).symm
      exact ⟨hstart, hstop, ⟨duration, hduration, rfl⟩, rfl, rfl⟩
    · obtain rfl := (Option.some.inj h).symm
      exact ⟨hstart, hstop, ⟨duration, hduration, rfl⟩, rfl, rfl⟩
  · rw [hstart, hstop, hduration] at h
    cases h

theorem Entry.isSome_record?_iff {e : Entry} {date : Option Date} {split : Bool} :
    (e.record? date split).isSome ↔ date.isSome ∧ ¬ Fails date e.start.value ∧
      ¬ Fails date e.stop.value ∧ e.duration.part? ≠ none := by
  unfold record? Fails instant?
  rcases date with _ | d
  · simp
  rcases hstart : e.start.value.resolve d with fault | a
  · simp [hstart, Except.toOption]
  rcases hstop : e.stop.value.resolve d with fault | b
  · simp [hstart, hstop, Except.toOption]
  rcases hduration : e.duration.part? with _ | duration
  · simp [hstart, hstop, Except.toOption]
  · simp [hstart, hstop, Except.toOption]

/-- **An entry has a record exactly if a check says nothing about what the record needs.** -/
theorem Checked.clears_iff {s : List Char} {j : Journal} {settings : Settings} {e : Entry}
    (hj : (Reading.ofText s).journal = some j) (he : e ∈ j.entries) (split : Bool) :
    Clears ⟨Reading.ofText s, declared settings j⟩ j e ↔
      (e.record? (reference j) split).isSome := by
  have hordered := isOrdered_of_ofText hj
  rw [clears_iff_and, reports_invalidStart_iff hordered he, reports_invalidStop_iff hordered he,
    reports_parseError_iff hj he, Entry.isSome_record?_iff, reference, Option.isSome_map]

/-- The duration of a record is the time between its instants, to within 18 seconds. -/
def Record.IsConsistent (r : Record) : Prop :=
  ((r.seconds : ℤ) - 60 * ((r.stop.minutes : ℤ) - r.start.minutes)).natAbs ≤ 18

/-- Where a check finds nothing wrong with the time range of an entry, its record is consistent. -/
theorem Record.Describes.isConsistent {r : Record} {split : Bool} {date : Date} {e : Entry}
    (h : r.Describes split date e) {settings : Settings}
    (ht : settings.tolerance = defaultTolerance)
    (hrange : rangeMismatch settings (some date) e = []) : r.IsConsistent := by
  obtain ⟨d, hd, hseconds⟩ := h.duration
  unfold rangeMismatch instant? at hrange
  rw [hd, Option.bind_some, Option.bind_some, h.start, h.stop] at hrange
  dsimp only [Recovered.part?, Except.toOption] at hrange
  split_ifs at hrange with hneg hoff
  rw [ht, hseconds] at hoff
  unfold IsConsistent
  unfold defaultTolerance at hoff
  omega

/-! ### The records of a text -/

/-- The values of the elements that have one, beside these elements. -/
theorem forall₂_filter_filterMap {α β : Type} {p : α → Bool} {f : α → Option β} {R : α → β → Prop}
    {l : List α} (hp : ∀ a ∈ l, p a = (f a).isSome) (hR : ∀ a ∈ l, ∀ b, f a = some b → R a b) :
    List.Forall₂ R (l.filter p) (l.filterMap f) := by
  induction l with
  | nil => exact List.Forall₂.nil
  | cons a l ih =>
    have hrest := ih (fun x hx => hp x (List.mem_cons_of_mem a hx))
      fun x hx => hR x (List.mem_cons_of_mem a hx)
    have ha := hp a List.mem_cons_self
    rcases hb : f a with _ | b
    · rw [hb] at ha
      rwa [List.filterMap_cons_none hb, List.filter_cons_of_neg (by rw [ha]; exact nofun)]
    · rw [hb] at ha
      rw [List.filterMap_cons_some hb, List.filter_cons_of_pos ha]
      exact List.Forall₂.cons (hR a List.mem_cons_self b hb) hrest

/-- What is wrong with the time range of an entry is reported on its end time or its duration. -/
theorem Checked.rangeMismatch_eq_nil {reading : Reading} {settings : Settings} {j : Journal}
    {e : Entry} (he : e ∈ j.entries)
    (hneg : ¬ Reports ⟨reading, declared settings j⟩ .negativeRange e.stop.span)
    (hoff : ¬ Reports ⟨reading, declared settings j⟩ .incorrectDuration e.durationSpan) :
    rangeMismatch settings (reference j) e = [] := by
  refine List.eq_nil_iff_forall_not_mem.mpr fun f hf => ?_
  have hmem : f ∈ (⟨reading, declared settings j⟩ : Checked).findings :=
    List.mem_append_right _ (mem_declared_of_mem_entries he fun p => List.mem_append_right _ hf)
  rcases mem_rangeMismatch hf with rfl | ⟨d, a, b, hd, -, -, -, -, rfl⟩
  · exact hneg ⟨_, hmem, rfl, rfl⟩
  · refine hoff ⟨_, hmem, rfl, ?_⟩
    rw [Entry.durationSpan, Recovered.part?_eq_some_iff.mp hd]
    rfl

/-- **Nothing is left out of an export without a finding.** The records of a text are those of the
entries that a check of the text says nothing about, one after the other; each holds what its entry
holds, and agrees with its time range if the check says so. Without a date there are no records, and
a finding where the date should be. -/
theorem records_accounted {source : Option String} {fileDate : Option Date} {text : String}
    {reading : Reading} {j : Journal} (hs : Location.date? source = .ok fileDate)
    (hread : Journal.read text Journal.defaultLimit = .ok reading) (hj : reading.journal = some j)
    (split : Bool) :
    ∃ checked, check source text = .ok checked ∧ checked.reading = reading ∧
      List.Forall₂ (fun e r => ∃ d, j.frontMatter.date? = some d ∧ r.Describes split d.value e ∧
          (¬ checked.Reports .negativeRange e.stop.span →
            ¬ checked.Reports .incorrectDuration e.durationSpan → r.IsConsistent))
        (j.entries.filter fun e => checked.Clears j e) (j.records split) ∧
      (j.frontMatter.date? = none → j.records split = [] ∧
        ((j.frontMatter.date = none ∧ checked.Reports .missingDate j.frontMatter.span) ∨
          ∃ k, j.frontMatter.date = some (.junk k) ∧ checked.Reports .parseError k.span)) := by
  obtain ⟨hsize, rfl⟩ := Journal.read_eq_ok_iff.mp hread
  have hlength : text.length ≤ Journal.defaultLimit := hsize.resolve_left (by decide)
  refine ⟨_, check_eq hs hj hlength, rfl, ?_,
    fun hdate => ⟨?_, Checked.reports_of_date_none hj hdate⟩⟩
  · rw [Journal.records_eq]
    refine forall₂_filter_filterMap (fun e he => ?_) fun e he r hr => ?_
    · rw [Bool.eq_iff_iff, decide_eq_true_iff]
      exact Checked.clears_iff hj he split
    · obtain ⟨date, hdate, hr⟩ := Entry.describes_of_record? hr
      obtain ⟨d, hd, rfl⟩ := Option.map_eq_some_iff.mp hdate
      refine ⟨d, hd, hr, fun hneg hoff => ?_⟩
      have hrange := Checked.rangeMismatch_eq_nil he hneg hoff
      rw [hdate] at hrange
      exact hr.isConsistent rfl hrange
  · rw [Journal.records_eq, reference, hdate]
    exact List.filterMap_eq_nil_iff.mpr fun e _ => rfl

/-- A text with three entries: one as it should be, one whose end time is none and one whose
duration is none. -/
def leakyText : String :=
  "---\ndate: 2024-01-03\n---\n- 09:00-10:00 OPS 1.00 read\n" ++
    "- 10:00-10:75 1.00 lost\n- 10:00-11:00 1..5 lost\n"

theorem records_accounted_leakyText : Location.date? none = .ok none ∧
    ∃ reading j checked, Journal.read leakyText Journal.defaultLimit = .ok reading ∧
      reading.journal = some j ∧ check none leakyText = .ok checked ∧
      j.entries.length = 3 ∧ (j.records false).map Record.codes = [["OPS"]] ∧
      List.Forall₂ (fun e r => ∃ d, j.frontMatter.date? = some d ∧ r.Describes false d.value e ∧
          (¬ checked.Reports .negativeRange e.stop.span →
            ¬ checked.Reports .incorrectDuration e.durationSpan → r.IsConsistent))
        (j.entries.filter fun e => checked.Clears j e) (j.records false) := by
  have hread : Journal.read leakyText Journal.defaultLimit =
      .ok (Reading.ofText leakyText.toList) :=
    Journal.read_of_le (by decide +kernel)
  have hparts : (Reading.ofText leakyText.toList).journal.map (fun j =>
      (j.entries.length, (j.records false).map Record.codes)) = some (3, [["OPS"]]) := by
    decide +kernel
  obtain ⟨j, hj, hparts⟩ := Option.map_eq_some_iff.mp hparts
  obtain ⟨hentries, hcodes⟩ := Prod.mk.inj hparts
  have hs : Location.date? none = .ok none := rfl
  obtain ⟨checked, hcheck, -, hrecords, -⟩ := records_accounted hs hread hj false
  exact ⟨hs, _, j, checked, hread, hj, hcheck, hentries, hcodes, hrecords⟩

end TimeJournal
