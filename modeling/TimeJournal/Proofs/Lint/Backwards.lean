import TimeJournal.Proofs.Calendar.Clock
import TimeJournal.Proofs.Calendar.Days
import TimeJournal.Proofs.Export.Accounting

/-! # Entries that stop before they start

An entry that stops before it starts is looked for where the duration of an entry is visited, so it
is reported if its duration was read: once, on its stop time, whatever the rest of the entry is.

* `filter_declared`: the findings of the rule are those of the entries, one after the other.
* `backwards_reported`: which entries have such a finding, and that they have no other.
* `backwards_silent_junkText`: an entry with junk for a duration has none. -/

namespace TimeJournal

open Lint

/-- The times of an entry resolve against a date, and the stop lies before the start. -/
def Entry.IsBackwards (e : Entry) (date : Date) : Prop :=
  ∃ a b, e.start.value.resolve date = .ok a ∧ e.stop.value.resolve date = .ok b ∧
    b.minutes < a.minutes

namespace Lint

variable {settings : Settings} {date : Option Date}

/-- The entry has a duration, and stops before it starts. -/
def backwards (date : Option Date) (e : Entry) : List Finding :=
  match e.duration.part?, instant? date e.start.value, instant? date e.stop.value with
  | some _, some a, some b =>
    if b.minutes < a.minutes then [⟨e.stop.span, .negativeRange e.start.value⟩] else []
  | _, _, _ => []

theorem backwards_eq {e : Entry} {d : Duration} {day : Date} (hd : e.duration = .read d)
    (h : e.IsBackwards day) :
    backwards (some day) e = [⟨e.stop.span, .negativeRange e.start.value⟩] := by
  obtain ⟨a, b, ha, hb, hlt⟩ := h
  unfold backwards instant?
  rw [hd, Option.bind_some, Option.bind_some, ha, hb]
  exact if_pos hlt

theorem mem_backwards {e : Entry} {day : Date} {f : Finding} (h : f ∈ backwards (some day) e) :
    (∃ d, e.duration = .read d) ∧ e.IsBackwards day ∧
      f = ⟨e.stop.span, .negativeRange e.start.value⟩ := by
  unfold backwards instant? at h
  rw [Option.bind_some, Option.bind_some] at h
  rcases hd : e.duration with d | junk
  · rcases ha : e.start.value.resolve day with fault | a
    · rw [hd, ha] at h; cases h
    rcases hb : e.stop.value.resolve day with fault | b
    · rw [hd, ha, hb] at h; cases h
    rw [hd, ha, hb] at h
    dsimp only [Recovered.part?, Except.toOption] at h
    split_ifs at h with hlt
    · exact ⟨⟨d, rfl⟩, ⟨a, b, ha, hb, hlt⟩, List.mem_singleton.mp h⟩
    · cases h
  · rw [hd] at h
    cases h

/-! ### The findings of the rule -/

/-- The finding is of the rule. -/
def isNegativeRange (f : Finding) : Bool := f.rule = .negativeRange

theorem filter_eq_nil_of_rule {fs : List Finding} (h : ∀ f ∈ fs, f.rule ≠ .negativeRange) :
    fs.filter isNegativeRange = [] :=
  List.filter_eq_nil_iff.mpr fun f hf => by
    unfold isNegativeRange
    simpa using h f hf

theorem filter_unresolved (issue : TimeFault → Issue)
    (h : ∀ fault, (issue fault).rule ≠ .negativeRange) (t : Located TimeToken) :
    (unresolved date issue t).filter isNegativeRange = [] :=
  filter_eq_nil_of_rule fun f hf => by
    obtain ⟨-, fault, -, -, rfl⟩ := mem_unresolved hf
    exact h fault

theorem filter_rangeMismatch (e : Entry) :
    (rangeMismatch settings date e).filter isNegativeRange = backwards date e := by
  unfold rangeMismatch backwards
  rcases e.duration.part? with _ | d
  · rfl
  rcases instant? date e.start.value with _ | a
  · rfl
  rcases instant? date e.stop.value with _ | b
  · rfl
  dsimp only
  split_ifs <;> rfl

theorem filter_ofEntry (f : FrontMatter) (previous : Option (Located TimeToken)) (e : Entry) :
    (ofEntry settings date f previous e).filter isNegativeRange = backwards date e := by
  have hstart : (startMismatch f previous e).filter isNegativeRange = [] :=
    filter_eq_nil_of_rule fun g hg => by
      obtain ⟨expected, -, rfl⟩ := mem_startMismatch hg
      exact nofun
  have hjumped : (jumped settings date previous e).filter isNegativeRange = [] :=
    filter_eq_nil_of_rule fun g hg => by
      obtain ⟨p, -, -, rfl⟩ := mem_jumped hg
      exact nofun
  unfold ofEntry
  simp only [List.filter_append]
  rw [filter_unresolved _ (fun _ => by exact nofun), filter_unresolved _ (fun _ => by exact nofun), hstart, hjumped,
    filter_rangeMismatch]
  rfl

theorem filter_ofFrontMatter (f : FrontMatter) :
    (ofFrontMatter settings date f).filter isNegativeRange = [] := by
  have hslot : ∀ (issue : TimeFault → Issue) (slot : Option (Located TimeToken)),
      (∀ fault, (issue fault).rule ≠ .negativeRange) →
        (slot.toList.flatMap (unresolved date issue)).filter isNegativeRange = [] := by
    intro issue slot h
    rw [List.filter_flatMap, List.flatMap_eq_nil_iff]
    exact fun t _ => filter_unresolved issue h t
  have hdate : (dateMismatch settings f).filter isNegativeRange = [] :=
    filter_eq_nil_of_rule fun g hg => by
      obtain ⟨d, expected, -, -, -, rfl⟩ := mem_dateMismatch hg
      exact nofun
  have hmissing : (missing f).filter isNegativeRange = [] :=
    filter_eq_nil_of_rule fun g hg => by
      obtain ⟨⟨field, empty⟩, -, rfl⟩ := List.mem_map.mp hg
      cases field <;> exact nofun
  unfold ofFrontMatter
  simp only [List.filter_append]
  rw [hdate, hslot _ _ (fun _ => by exact nofun), hslot _ _ (fun _ => by exact nofun), hmissing]
  rfl

/-- **The findings of the rule are those of the entries**, one after the other. -/
theorem filter_declared (settings : Settings) (j : Journal) :
    (declared settings j).filter isNegativeRange =
      j.entries.flatMap (backwards (reference j)) := by
  have hlast : (stopMismatch settings (reference j) j.frontMatter
      (j.entries.getLast?.map Entry.stop)).filter isNegativeRange = [] :=
    filter_eq_nil_of_rule fun g hg => by
      obtain ⟨expected, p, -, -, rfl⟩ := mem_stopMismatch hg
      exact nofun
  unfold declared
  rw [List.filter_append, List.filter_append, filter_ofFrontMatter, hlast, List.filter_flatMap,
    List.nil_append, List.append_nil]
  simp only [filter_ofEntry]
  rw [← map_snd_chain none j.entries, List.flatMap_map]
  rfl

end Lint

/-! ### Exactly one -/

section Reported

variable {j : Journal} {day : Located Date}

/-- What is found in other entries has another place. -/
theorem Journal.IsOrdered.notMem_backwards (hj : j.IsOrdered) {e e' : Entry} (he : e ∈ j.entries)
    (he' : e' ∈ j.entries)
    (hapart : e.span.stop ≤ e'.span.start ∨ e'.span.stop ≤ e.span.start) {f : Finding} {date : Date}
    (hf : f ∈ backwards (some date) e') : f.span ≠ e.stop.span := by
  obtain ⟨-, -, rfl⟩ := mem_backwards hf
  have h := (hj.holds e he).stop
  have h' := (hj.holds e' he').stop
  have hle := e.stop.span.start_le_stop
  have hle' := e'.stop.span.start_le_stop
  intro heq
  dsimp only at heq
  unfold Entry.Holds at h h'
  rw [heq] at h' hle'
  omega

/-- What is found about some other entries is found at other places. -/
theorem Journal.IsOrdered.filter_span_others (hj : j.IsOrdered) {e : Entry} (he : e ∈ j.entries)
    (date : Date) (es : List Entry) (hes : ∀ a ∈ es, a ∈ j.entries ∧
      (e.span.stop ≤ a.span.start ∨ a.span.stop ≤ e.span.start)) :
    (es.flatMap (backwards (some date))).filter (fun f => f.span = e.stop.span) = [] := by
  refine List.filter_eq_nil_iff.mpr fun f hf => ?_
  obtain ⟨a, ha, hf⟩ := List.mem_flatMap.mp hf
  obtain ⟨ha, hapart⟩ := hes a ha
  simpa using hj.notMem_backwards he ha hapart hf

/-- **What is found at the stop time of an entry is about that entry.** -/
theorem Journal.IsOrdered.filter_span_declared (hj : j.IsOrdered) (settings : Settings)
    (hday : j.frontMatter.date? = some day) {e : Entry} (he : e ∈ j.entries) :
    ((declared settings j).filter isNegativeRange).filter (fun f => f.span = e.stop.span) =
      backwards (some day.value) e := by
  obtain ⟨es, es', hentries⟩ := List.append_of_mem he
  have hpairwise := hj.pairwise
  rw [hentries, List.pairwise_append, List.pairwise_cons] at hpairwise
  obtain ⟨-, ⟨hafter, -⟩, hbefore⟩ := hpairwise
  have hother := hj.filter_span_others he day.value es fun a ha =>
    ⟨by rw [hentries]; exact List.mem_append_left _ ha,
      Or.inr (hbefore a ha e List.mem_cons_self)⟩
  have hother' := hj.filter_span_others he day.value es' fun a ha =>
    ⟨by rw [hentries]; exact List.mem_append_right _ (List.mem_cons_of_mem _ ha),
      Or.inl (hafter a ha)⟩
  have hself : (backwards (some day.value) e).filter (fun f => f.span = e.stop.span) =
      backwards (some day.value) e := by
    refine List.filter_eq_self.mpr fun f hf => ?_
    obtain ⟨-, -, rfl⟩ := mem_backwards hf
    simp
  rw [filter_declared, reference, hday, Option.map_some, hentries, List.flatMap_append,
    List.flatMap_cons, List.filter_append, List.filter_append, hother, hself, hother',
    List.nil_append, List.append_nil]

end Reported

/-- **Which backwards entries are reported.** In every text with a date, under every name whose date
can be looked at and for every tolerance, an entry that stops before it starts and has a duration is
reported once, on its stop time, whatever its codes, its duration and its activity are; no other
entry is, and there is no other such finding. -/
theorem backwards_reported {text : String} {limit : ℕ} {reading : Reading} {j : Journal}
    {day : Located Date} {source : Option String} {fileDate : Option Date}
    (hread : Journal.read text limit = .ok reading) (hj : reading.journal = some j)
    (hday : j.frontMatter.date? = some day) (hs : Location.date? source = .ok fileDate)
    (tolerance : ℤ) :
    ∃ found, lint source tolerance j = .ok found ∧
      (∀ e ∈ j.entries, e.IsBackwards day.value → (∃ d, e.duration = .read d) →
        (found.filter fun f => f.rule = .negativeRange ∧ f.span = e.stop.span) =
          [⟨e.stop.span, .negativeRange e.start.value⟩]) ∧
      (∀ e ∈ j.entries, (e.IsBackwards day.value → ∃ junk, e.duration = .junk junk) →
        (found.filter fun f => f.rule = .negativeRange ∧ f.span = e.stop.span) = []) ∧
      ∀ f ∈ found, f.rule = .negativeRange →
        ∃ e ∈ j.entries, e.IsBackwards day.value ∧ (∃ d, e.duration = .read d) ∧
          f = ⟨e.stop.span, .negativeRange e.start.value⟩ := by
  obtain ⟨-, rfl⟩ := Journal.read_eq_ok_iff.mp hread
  have hordered := isOrdered_of_ofText hj
  set settings : Settings := ⟨source.getD "", fileDate, tolerance⟩
  have hfilter : ∀ e ∈ j.entries, ((declared settings j).filter fun f =>
      f.rule = .negativeRange ∧ f.span = e.stop.span) = backwards (some day.value) e := by
    intro e he
    rw [← hordered.filter_span_declared settings hday he, List.filter_filter]
    refine List.filter_congr fun f _ => ?_
    simp [isNegativeRange, and_comm]
  refine ⟨_, lint_of_date hs tolerance j, fun e he hback ⟨d, hd⟩ => ?_, fun e he hnot => ?_,
    fun f hf hrule => ?_⟩
  · rw [hfilter e he, backwards_eq hd hback]
  · rw [hfilter e he]
    refine List.eq_nil_iff_forall_not_mem.mpr fun f hf => ?_
    obtain ⟨⟨d, hd⟩, hback, -⟩ := mem_backwards hf
    obtain ⟨junk, hjunk⟩ := hnot hback
    rw [hd] at hjunk
    cases hjunk
  · have hmem : f ∈ (declared settings j).filter isNegativeRange :=
      List.mem_filter.mpr ⟨hf, by simpa [isNegativeRange] using hrule⟩
    rw [filter_declared, reference, hday] at hmem
    obtain ⟨e, he, hf⟩ := List.mem_flatMap.mp hmem
    obtain ⟨hd, hback, hf⟩ := mem_backwards hf
    exact ⟨e, he, hback, hd, hf⟩

/-- A text with an entry that stops before it starts. -/
def backwardsText : String :=
  "---\ndate: 2006-01-02\nstart: 10:00\nend: 09:00\n---\n- 10:00-09:00 1.25 a\n"

/-- The same text, but for its duration, which is none. -/
def junkText : String :=
  "---\ndate: 2006-01-02\nstart: 10:00\nend: 09:00\n---\n- 10:00-09:00 1..5 a\n"

/-- The entry of both texts. -/
def backwardsEntry (duration : Recovered Duration) : Entry where
  start := ⟨⟨"10:00"⟩, ⟨51, 56, by decide⟩⟩
  stop := ⟨⟨"09:00"⟩, ⟨57, 62, by decide⟩⟩
  codes := []
  duration := duration
  activity := ⟨"a", ⟨68, 69, by decide⟩⟩
  span := ⟨49, 69, by decide⟩

/-- It stops an hour before it starts, whatever the date is. -/
theorem isBackwards_backwardsEntry (duration : Recovered Duration) (date : Date) :
    (backwardsEntry duration).IsBackwards date := by
  have hlast := date.dayNumber_le
  have hstart : (⟨"10:00"⟩ : TimeToken) = ⟨clock 600⟩ := by decide +kernel
  have hstop : (⟨"09:00"⟩ : TimeToken) = ⟨clock 540⟩ := by decide +kernel
  refine ⟨⟨(Instant.midnight date).minutes + 600⟩, ⟨(Instant.midnight date).minutes + 540⟩, ?_, ?_,
    by simp⟩
  · show TimeToken.resolve ⟨"10:00"⟩ date = _
    rw [hstart, TimeToken.resolve_clock (by omega)]
  · show TimeToken.resolve ⟨"09:00"⟩ date = _
    rw [hstop, TimeToken.resolve_clock (by omega)]

theorem backwards_reported_backwardsText : ∃ reading j day duration found,
    Journal.read backwardsText 0 = .ok reading ∧ reading.journal = some j ∧
    j.frontMatter.date? = some day ∧ Location.date? none = .ok none ∧
    backwardsEntry (.read duration) ∈ j.entries ∧
    (backwardsEntry (.read duration)).IsBackwards day.value ∧
    lint none defaultTolerance j = .ok found ∧
    (found.filter fun f => f.rule = .negativeRange ∧ f.span = ⟨57, 62, by decide⟩) =
      [⟨⟨57, 62, by decide⟩, .negativeRange ⟨"10:00"⟩⟩] := by
  have hread : Journal.read backwardsText 0 = .ok (Reading.ofText backwardsText.toList) :=
    Journal.read_of_le (Or.inl rfl)
  have hparts : (Reading.ofText backwardsText.toList).journal.map (fun j =>
      (j.frontMatter.date?.isSome, j.entries)) =
      some (true, [backwardsEntry (.read ⟨4500, "1.25", ⟨63, 67, by decide⟩⟩)]) := by
    decide +kernel
  obtain ⟨j, hj, hparts⟩ := Option.map_eq_some_iff.mp hparts
  obtain ⟨hdate, hentries⟩ := Prod.mk.inj hparts
  obtain ⟨day, hday⟩ := Option.isSome_iff_exists.mp hdate
  have he : backwardsEntry (.read ⟨4500, "1.25", ⟨63, 67, by decide⟩⟩) ∈ j.entries := by
    rw [hentries]
    exact List.mem_singleton_self _
  have hs : Location.date? none = .ok none := rfl
  have hback := isBackwards_backwardsEntry (.read ⟨4500, "1.25", ⟨63, 67, by decide⟩⟩) day.value
  obtain ⟨found, hlint, hone, -, -⟩ := backwards_reported hread hj hday hs defaultTolerance
  exact ⟨_, j, day, _, found, hread, hj, hday, hs, he, hback, hlint, hone _ he hback ⟨_, rfl⟩⟩

/-- With junk for a duration an entry that stops before it starts is not reported. -/
theorem backwards_silent_junkText : ∃ reading j day junk,
    Journal.read junkText 0 = .ok reading ∧ reading.journal = some j ∧
    j.frontMatter.date? = some day ∧ Location.date? none = .ok none ∧
    backwardsEntry (.junk junk) ∈ j.entries ∧ (backwardsEntry (.junk junk)).IsBackwards day.value ∧
    lint none defaultTolerance j = .ok [] := by
  have hread : Journal.read junkText 0 = .ok (Reading.ofText junkText.toList) :=
    Journal.read_of_le (Or.inl rfl)
  have hparts : (Reading.ofText junkText.toList).journal.map (fun j =>
      (j.frontMatter.date?.isSome, j.entries, (lint none defaultTolerance j).toOption)) =
      some (true, [backwardsEntry
        (.junk ⟨"1..5", "Unrecognizable duration: '1..5'", ⟨63, 67, by decide⟩⟩)], some []) := by
    decide +kernel
  obtain ⟨j, hj, hparts⟩ := Option.map_eq_some_iff.mp hparts
  obtain ⟨hdate, hparts⟩ := Prod.mk.inj hparts
  obtain ⟨hentries, hlint⟩ := Prod.mk.inj hparts
  obtain ⟨day, hday⟩ := Option.isSome_iff_exists.mp hdate
  refine ⟨_, j, day, ⟨"1..5", "Unrecognizable duration: '1..5'", ⟨63, 67, by decide⟩⟩, hread, hj,
    hday, rfl, ?_, isBackwards_backwardsEntry _ _, ?_⟩
  · rw [hentries]
    exact List.mem_singleton_self _
  · rcases hfound : lint none defaultTolerance j with fault | found
    · rw [hfound] at hlint
      cases hlint
    · rw [hfound] at hlint
      rw [Option.some.inj hlint]

end TimeJournal
