import TimeJournal.Proofs.Edit.Correction

/-! # What a finding is about

Each finding of the rules is about certain parts of a journal. `Finding.Origin` names them, with what
is wrong with them: there is one case for each way in which a rule can be broken. What holds of all
findings is proved by these cases.

* `Finding.origin_of_mem_declared`: every finding that the rules declare has such an origin. -/

namespace TimeJournal

open Lint

variable {settings : Settings} {date : Option Date} {f : Finding}

/-! ### One rule -/

theorem mem_unresolved {issue : TimeFault → Issue} {t : Located TimeToken}
    (h : f ∈ unresolved date issue t) :
    ∃ d fault, date = some d ∧ t.value.resolve d = .error fault ∧ f = ⟨t.span, issue fault⟩ := by
  unfold unresolved at h
  rcases date with _ | d
  · cases h
  rw [Option.map_some] at h
  rcases hfault : t.value.resolve d with fault | i
  · rw [hfault] at h
    exact ⟨d, fault, rfl, hfault, List.mem_singleton.mp h⟩
  · rw [hfault] at h
    cases h

theorem mem_dateMismatch {front : FrontMatter} (h : f ∈ dateMismatch settings front) :
    ∃ d expected, front.date? = some d ∧ settings.fileDate = some expected ∧ d.value ≠ expected ∧
      f = ⟨d.span, .dateMismatch expected⟩ := by
  unfold dateMismatch at h
  rcases hd : front.date? with _ | d
  · rw [hd] at h; cases h
  rcases hf : settings.fileDate with _ | expected
  · rw [hd, hf] at h; cases h
  rw [hd, hf] at h
  dsimp only at h
  split_ifs at h with heq
  · cases h
  · exact ⟨d, expected, rfl, rfl, heq, List.mem_singleton.mp h⟩

theorem mem_startMismatch {front : FrontMatter} {p : Option (Located TimeToken)} {e : Entry}
    (h : f ∈ startMismatch front p e) :
    ∃ expected, front.start = some expected ∧ f = ⟨expected.span, .startMismatch e.start.value⟩ := by
  unfold startMismatch at h
  split at h
  · rename_i expected hstart
    split_ifs at h with heq
    · cases h
    · exact ⟨expected, hstart, List.mem_singleton.mp h⟩
  · cases h

theorem mem_jumped {previous : Option (Located TimeToken)} {e : Entry}
    (h : f ∈ jumped settings date previous e) :
    ∃ p, previous = some p ∧ differ date p.value e.start.value = true ∧
      f = ⟨e.start.span, .timeJumped p.value settings.uri p.span⟩ := by
  unfold jumped at h
  rcases previous with _ | p
  · cases h
  refine ⟨p, rfl, ?_⟩
  unfold differ
  dsimp only at h
  rcases ha : instant? date p.value with _ | a
  · rw [ha] at h; cases h
  rcases hb : instant? date e.start.value with _ | b
  · rw [ha, hb] at h; cases h
  rw [ha, hb] at h
  dsimp only at h ⊢
  split_ifs at h with heq
  · cases h
  · exact ⟨by simpa using heq, List.mem_singleton.mp h⟩

theorem mem_rangeMismatch {e : Entry} (h : f ∈ rangeMismatch settings date e) :
    f = ⟨e.stop.span, .negativeRange e.start.value⟩ ∨
    ∃ d a b, e.duration.part? = some d ∧ instant? date e.start.value = some a ∧
      instant? date e.stop.value = some b ∧ a.minutes ≤ b.minutes ∧
      settings.tolerance < ((d.seconds : ℤ) - (60 * (b.minutes - a.minutes) : ℕ)).natAbs ∧
      f = ⟨d.span, .incorrectDuration (60 * (b.minutes - a.minutes))⟩ := by
  unfold rangeMismatch at h
  rcases hd : e.duration.part? with _ | d
  · rw [hd] at h; cases h
  rcases ha : instant? date e.start.value with _ | a
  · rw [hd, ha] at h; cases h
  rcases hb : instant? date e.stop.value with _ | b
  · rw [hd, ha, hb] at h; cases h
  rw [hd, ha, hb] at h
  dsimp only at h
  split_ifs at h with hab hoff
  · exact Or.inl (List.mem_singleton.mp h)
  · exact Or.inr ⟨d, a, b, rfl, rfl, rfl, not_lt.mp hab, hoff, List.mem_singleton.mp h⟩
  · cases h

theorem mem_stopMismatch {front : FrontMatter} {last : Option (Located TimeToken)}
    (h : f ∈ stopMismatch settings date front last) :
    ∃ expected p, front.stop = some expected ∧ last = some p ∧
      f = ⟨expected.span, .stopMismatch p.value settings.uri p.span⟩ := by
  unfold stopMismatch at h
  split at h
  · rename_i expected p hstop
    split at h
    · split_ifs at h with heq
      · cases h
      · exact ⟨expected, p, hstop, rfl, List.mem_singleton.mp h⟩
    · cases h
  · cases h

/-! ### All rules -/

/-- The time does not resolve against the date of the journal. -/
def Journal.Refuses (j : Journal) (t : TimeToken) (fault : TimeFault) : Prop :=
  ∃ d, reference j = some d ∧ t.resolve d = .error fault

/-- The parts of a journal that a finding is about. -/
inductive Finding.Origin (settings : Settings) (j : Journal) : Finding → Prop
  | dateMismatch {d : Located Date} {expected : Date} (date : j.frontMatter.date? = some d)
      (file : settings.fileDate = some expected) (apart : d.value ≠ expected) :
      Origin settings j ⟨d.span, .dateMismatch expected⟩
  | dayStart {t : Located TimeToken} {fault : TimeFault} (start : j.frontMatter.start = some t)
      (refused : j.Refuses t.value fault) : Origin settings j ⟨t.span, .invalidStart fault⟩
  | dayStop {t : Located TimeToken} {fault : TimeFault} (stop : j.frontMatter.stop = some t)
      (refused : j.Refuses t.value fault) : Origin settings j ⟨t.span, .invalidStop fault⟩
  | missing (field : FieldKey) : Origin settings j ⟨j.frontMatter.span, .missing field⟩
  | entryStart {e : Entry} {fault : TimeFault} (entry : e ∈ j.entries)
      (refused : j.Refuses e.start.value fault) : Origin settings j ⟨e.start.span, .invalidStart fault⟩
  | entryStop {e : Entry} {fault : TimeFault} (entry : e ∈ j.entries)
      (refused : j.Refuses e.stop.value fault) : Origin settings j ⟨e.stop.span, .invalidStop fault⟩
  | startMismatch {e : Entry} {t : Located TimeToken} (entry : e ∈ j.entries)
      (start : j.frontMatter.start = some t) :
      Origin settings j ⟨t.span, .startMismatch e.start.value⟩
  | jumped {p : Located TimeToken} {e : Entry} (link : (some p, e) ∈ j.chain)
      (apart : differ (reference j) p.value e.start.value = true) :
      Origin settings j ⟨e.start.span, .timeJumped p.value settings.uri p.span⟩
  | negativeRange {e : Entry} (entry : e ∈ j.entries) :
      Origin settings j ⟨e.stop.span, .negativeRange e.start.value⟩
  | incorrectDuration {e : Entry} {d : Duration} {a b : Instant} (entry : e ∈ j.entries)
      (duration : e.duration.part? = some d) (start : instant? (reference j) e.start.value = some a)
      (stop : instant? (reference j) e.stop.value = some b) (ordered : a.minutes ≤ b.minutes)
      (apart : settings.tolerance <
        ((d.seconds : ℤ) - (60 * (b.minutes - a.minutes) : ℕ)).natAbs) :
      Origin settings j ⟨d.span, .incorrectDuration (60 * (b.minutes - a.minutes))⟩
  | stopMismatch {e : Entry} {t : Located TimeToken} (entry : e ∈ j.entries)
      (stop : j.frontMatter.stop = some t) :
      Origin settings j ⟨t.span, .stopMismatch e.stop.value settings.uri e.stop.span⟩

namespace Finding

variable {j : Journal}

theorem origin_of_mem_ofFrontMatter (h : f ∈ ofFrontMatter settings (reference j) j.frontMatter) :
    Origin settings j f := by
  unfold ofFrontMatter at h
  simp only [List.mem_append, or_assoc] at h
  rcases h with h | h | h | h
  · obtain ⟨d, expected, hd, hfile, hne, rfl⟩ := mem_dateMismatch h
    exact .dateMismatch hd hfile hne
  · obtain ⟨t, ht, h⟩ := List.mem_flatMap.mp h
    obtain ⟨d, fault, hd, hfault, rfl⟩ := mem_unresolved h
    exact .dayStart (Option.mem_toList.mp ht) ⟨d, hd, hfault⟩
  · obtain ⟨t, ht, h⟩ := List.mem_flatMap.mp h
    obtain ⟨d, fault, hd, hfault, rfl⟩ := mem_unresolved h
    exact .dayStop (Option.mem_toList.mp ht) ⟨d, hd, hfault⟩
  · obtain ⟨slot, -, rfl⟩ := List.mem_map.mp h
    exact .missing slot.1

theorem origin_of_mem_ofEntry {previous : Option (Located TimeToken)} {e : Entry}
    (hlink : (previous, e) ∈ j.chain)
    (h : f ∈ ofEntry settings (reference j) j.frontMatter previous e) : Origin settings j f := by
  have he : e ∈ j.entries := mem_of_mem_chain hlink
  unfold ofEntry at h
  simp only [List.mem_append, or_assoc] at h
  rcases h with h | h | h | h | h
  · obtain ⟨d, fault, hd, hfault, rfl⟩ := mem_unresolved h
    exact .entryStart he ⟨d, hd, hfault⟩
  · obtain ⟨expected, hstart, rfl⟩ := mem_startMismatch h
    exact .startMismatch he hstart
  · obtain ⟨p, rfl, hdiffer, rfl⟩ := mem_jumped h
    exact .jumped hlink hdiffer
  · obtain ⟨d, fault, hd, hfault, rfl⟩ := mem_unresolved h
    exact .entryStop he ⟨d, hd, hfault⟩
  · rcases mem_rangeMismatch h with rfl | ⟨d, a, b, hd, ha, hb, hab, hoff, rfl⟩
    · exact .negativeRange he
    · exact .incorrectDuration he hd ha hb hab hoff

/-- **Every finding that the rules declare is about parts of the journal.** -/
theorem origin_of_mem_declared (h : f ∈ declared settings j) : Origin settings j f := by
  unfold declared at h
  simp only [List.mem_append, or_assoc] at h
  rcases h with h | h | h
  · exact origin_of_mem_ofFrontMatter h
  · obtain ⟨link, hlink, h⟩ := List.mem_flatMap.mp h
    exact origin_of_mem_ofEntry hlink h
  · obtain ⟨expected, p, hstop, hlast, rfl⟩ := mem_stopMismatch h
    obtain ⟨e, he, rfl⟩ := Option.map_eq_some_iff.mp hlast
    exact .stopMismatch (List.mem_of_getLast? he) hstop

end Finding

end TimeJournal
