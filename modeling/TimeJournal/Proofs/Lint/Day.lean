import TimeJournal.Proofs.Journal.Day
import TimeJournal.Proofs.Lint.Completion

/-! # A day has no findings

What a day is written down as is right in the eyes of every rule: its times resolve, each stint
starts where the one before it stopped, the front matter says when the first one starts and the last
one stops, and two decimals are off by no more than 12 seconds, which is within the tolerance.

* `ofFrontMatter_eq_nil`, `ofEntry_eq_nil`: no rule is broken in the front matter of a day or in an
  entry.
* `ofEntries_eq_nil`: nor in any number of entries behind one another.
* `Day.read_lint`: the text of a day is read without a fault as what the day says, and a check finds
  nothing. -/

namespace TimeJournal

open Lint

namespace Lint

/-! ### Times -/

section Times

variable {date : Date} {m : ℕ} (h : date.dayNumber + m / 1440 ≤ lastDayNumber)

include h

theorem instant?_clock :
    instant? (some date) ⟨clock m⟩ = some ⟨(Instant.midnight date).minutes + m⟩ := by
  rw [instant?, Option.bind_some, TimeToken.resolve_clock h]
  rfl

theorem unresolved_eq_nil {issue : TimeFault → Issue} {t : Located TimeToken}
    (ht : t.value = ⟨clock m⟩) : unresolved (some date) issue t = [] := by
  rw [unresolved, Option.map_some, ht, TimeToken.resolve_clock h]

end Times

/-! ### The rules of an entry -/

section Entries

variable {settings : Settings} {date : Date} {f : FrontMatter}
  {previous : Option (Located TimeToken)}

/-- What stands in front of an entry says that it starts at this minute: the end time of the entry
before it, or the start of the front matter if there is none. -/
def StartsAt (f : FrontMatter) (previous : Option (Located TimeToken)) (at_ : ℕ) : Prop :=
  match previous with
  | some p => p.value = ⟨clock at_⟩
  | none => ∀ expected ∈ f.start, expected.value = ⟨clock at_⟩

theorem startMismatch_eq_nil {at_ : ℕ} {e : Entry} (h : StartsAt f previous at_)
    (he : e.start.value = ⟨clock at_⟩) : startMismatch f previous e = [] := by
  unfold startMismatch
  rcases previous with _ | p
  · rcases hf : f.start with _ | expected
    · rfl
    · dsimp only
      rw [if_pos ((h expected hf).trans he.symm)]
  · rfl

theorem jumped_eq_nil {at_ : ℕ} {e : Entry} (h : StartsAt f previous at_)
    (he : e.start.value = ⟨clock at_⟩) : jumped settings (some date) previous e = [] := by
  unfold jumped
  rcases previous with _ | p
  · rfl
  · have hp : p.value = ⟨clock at_⟩ := h
    dsimp only
    rw [hp, he]
    rcases instant? (some date) ⟨clock at_⟩ with _ | i
    · rfl
    · exact if_pos rfl

theorem rangeMismatch_eq_nil_of_isReadAs {s : Stint} {at_ : ℕ} {e : Entry}
    (h : s.IsReadAs at_ e) (htolerance : 12 ≤ settings.tolerance)
    (hcalendar : date.dayNumber + (at_ + s.minutes) / 1440 ≤ lastDayNumber) :
    rangeMismatch settings (some date) e = [] := by
  obtain ⟨span, hduration⟩ := h.duration
  have hbounds := Hours.hundredths_bounds s.minutes
  have hbegin : date.dayNumber + at_ / 1440 ≤ lastDayNumber := by omega
  have hstart := instant?_clock hbegin
  have hstop := instant?_clock hcalendar
  rw [← h.start] at hstart
  rw [← h.stop] at hstop
  unfold rangeMismatch
  rw [hstart, hstop, hduration, Recovered.part?]
  dsimp only
  rw [if_neg (by omega), if_neg (by omega)]

/-- **No rule is broken in the entry of a stint.** -/
theorem ofEntry_eq_nil {s : Stint} {at_ : ℕ} {e : Entry} (h : s.IsReadAs at_ e)
    (hprevious : StartsAt f previous at_) (htolerance : 12 ≤ settings.tolerance)
    (hcalendar : date.dayNumber + (at_ + s.minutes) / 1440 ≤ lastDayNumber) :
    ofEntry settings (some date) f previous e = [] := by
  rw [ofEntry, unresolved_eq_nil (by omega) h.start, startMismatch_eq_nil hprevious h.start,
    jumped_eq_nil hprevious h.start, unresolved_eq_nil hcalendar h.stop,
    rangeMismatch_eq_nil_of_isReadAs h htolerance hcalendar]
  rfl

/-- **No rule is broken in the entries of stints that follow one another**, and the last one stops
when all of them are over. -/
theorem ofEntries_eq_nil {stints : List Stint} {at_ : ℕ} {es : List Entry}
    (h : List.Forall₂ (fun p e => p.2.IsReadAs p.1 e) (timed at_ stints) es)
    (hprevious : StartsAt f previous at_) (htolerance : 12 ≤ settings.tolerance)
    (hcalendar : date.dayNumber + (at_ + total stints) / 1440 ≤ lastDayNumber) :
    ((chain previous es).flatMap fun link => ofEntry settings (some date) f link.1 link.2) = [] ∧
      StartsAt f (lastStop previous es) (at_ + total stints) := by
  induction stints generalizing at_ previous es with
  | nil =>
    obtain rfl := List.forall₂_nil_left_iff.mp h
    exact ⟨rfl, hprevious⟩
  | cons s stints ih =>
    rw [timed] at h
    obtain ⟨e, es, he, hes, rfl⟩ := List.forall₂_cons_left_iff.mp h
    have htotal : at_ + total (s :: stints) = at_ + s.minutes + total stints := by
      rw [total, List.map_cons, List.sum_cons, ← Nat.add_assoc]
      rfl
    rw [htotal] at hcalendar ⊢
    -- the other stints are behind an entry that stops where they start
    obtain ⟨hrest, hlast⟩ := ih hes (show StartsAt f (some e.stop) _ from he.stop) hcalendar
    have hfirst : date.dayNumber + (at_ + s.minutes) / 1440 ≤ lastDayNumber := by omega
    rw [chain_cons, List.flatMap_cons, hrest, lastStop_cons,
      ofEntry_eq_nil he hprevious htolerance hfirst]
    exact ⟨rfl, hlast⟩

theorem stopMismatch_eq_nil {expected : Located TimeToken} {stop : ℕ} (hf : f.stop = some expected)
    (hexpected : expected.value = ⟨clock stop⟩) (h : StartsAt f previous stop) :
    stopMismatch settings (some date) f previous = [] := by
  unfold stopMismatch
  rw [hf]
  rcases previous with _ | p
  · rfl
  · have hp : p.value = ⟨clock stop⟩ := h
    dsimp only
    rw [hexpected, hp]
    rcases instant? (some date) ⟨clock stop⟩ with _ | i
    · rfl
    · exact if_pos rfl

end Entries

/-! ### The rules of a day -/

section Days

variable {settings : Settings} {day : Day} {j : Journal} (h : day.IsReadAs j)

include h

theorem reference_eq_some : reference j = some day.date := by
  obtain ⟨span, hdate⟩ := h.date
  rw [reference, FrontMatter.date?, hdate]
  rfl

/-- **No rule is broken in the front matter of a day.** -/
theorem ofFrontMatter_eq_nil (hfile : ∀ d ∈ settings.fileDate, d = day.date) :
    ofFrontMatter settings (some day.date) j.frontMatter = [] := by
  obtain ⟨s₁, hdate⟩ := h.date
  obtain ⟨s₂, hstart⟩ := h.start
  obtain ⟨s₃, hstop⟩ := h.stop
  have hcalendar := day.inCalendar
  have hfirst : unresolved (some day.date) .invalidStart ⟨⟨clock day.start⟩, s₂⟩ = [] :=
    unresolved_eq_nil (by omega) rfl
  have hlast : unresolved (some day.date) .invalidStop ⟨⟨clock day.stop⟩, s₃⟩ = [] :=
    unresolved_eq_nil hcalendar rfl
  have hname : dateMismatch settings j.frontMatter = [] := by
    unfold dateMismatch
    rw [FrontMatter.date?, hdate]
    rcases hf : settings.fileDate with _ | d
    · rfl
    · exact if_pos (hfile d hf).symm
  rw [ofFrontMatter, hname, hstart, hstop]
  simp [hfirst, hlast, missing, hdate, hstart, hstop]

/-- **No rule is broken in a day.** -/
theorem declared_eq_nil (hfile : ∀ d ∈ settings.fileDate, d = day.date)
    (htolerance : 12 ≤ settings.tolerance) : declared settings j = [] := by
  obtain ⟨es, hlines, hes⟩ := h.entries
  obtain ⟨s₂, hstart⟩ := h.start
  obtain ⟨s₃, hstop⟩ := h.stop
  have hentries : j.entries = es := by
    rw [Journal.entries, hlines, List.filterMap_map]
    exact List.filterMap_some
  have hfront : StartsAt j.frontMatter none day.start := by
    intro expected hexpected
    rw [hstart] at hexpected
    rw [← Option.mem_some_iff.mp hexpected]
  obtain ⟨hchain, hlast⟩ := ofEntries_eq_nil hes hfront htolerance day.inCalendar
  have hend : stopMismatch settings (some day.date) j.frontMatter (lastStop none es) = [] :=
    stopMismatch_eq_nil hstop rfl hlast
  rw [lastStop_eq, Option.or_none] at hend
  rw [declared, reference_eq_some h, ofFrontMatter_eq_nil h hfile, Journal.chain, hentries, hchain,
    hend]
  rfl

end Days

end Lint

/-- **A day is clean.** Its text, if it is short enough, is read without a fault as exactly what the
day says, and a check finds nothing in it under any source that bears no date or bears that of the
day. -/
theorem Day.read_lint (day : Day) (limit : ℕ) (h : limit = 0 ∨ day.text.length ≤ limit) :
    ∃ reading j, Journal.read day.text limit = .ok reading ∧ reading.faults = [] ∧
      reading.journal = some j ∧ day.IsReadAs j ∧
      ∀ source fileDate, Location.date? source = .ok fileDate →
        (∀ d ∈ fileDate, d = day.date) → lint source Lint.defaultTolerance j = .ok [] := by
  obtain ⟨hfaults, j, hj, hreads⟩ := day.exists_journal
  refine ⟨_, j, Journal.read_of_le h, hfaults, hj, hreads, fun source fileDate hsource hfile => ?_⟩
  have hdeclared : declared ⟨source.getD "", fileDate, defaultTolerance⟩ j = [] :=
    declared_eq_nil hreads hfile (show (12 : ℤ) ≤ defaultTolerance by decide)
  unfold lint Settings.ofSource
  rw [hsource]
  dsimp only
  rw [findings_eq_declared, hdeclared]

/-- Work past midnight: a stint without a code, one with two, and one that takes no time. -/
def nightDay : Day where
  date := ⟨2024, 1, 3, by decide, by decide, by decide⟩
  start := 1380
  stints :=
    [⟨50, [], "read: 2 mails", by decide, nofun, by decide +kernel, by simp; decide⟩,
      ⟨25, ["dev", "42"], "1.00 - fix", by decide, by decide +kernel, by decide +kernel,
        by simp; decide⟩,
      ⟨0, ["x."], "", by decide, by decide +kernel, nofun, nofun⟩]
  inCalendar := by decide +kernel

theorem Day.read_lint_nightDay :
    nightDay.text = "---\ndate: 2024-01-03\nstart: 23:00\nend: 24:15\n---\n" ++
      "- 23:00-23:50 0.83 read: 2 mails\n- 23:50-24:15 dev 42 0.42 1.00 - fix\n" ++
      "- 24:15-24:15 x. 0.00 \n" ∧
    nightDay.text.length ≤ Journal.defaultLimit ∧
    ∃ reading j, Journal.read nightDay.text Journal.defaultLimit = .ok reading ∧
      reading.faults = [] ∧ reading.journal = some j ∧ nightDay.IsReadAs j ∧
      lint none Lint.defaultTolerance j = .ok [] ∧
      lint (some "log/2024-01-03.md") Lint.defaultTolerance j = .ok [] := by
  have hlimit : nightDay.text.length ≤ Journal.defaultLimit := by decide +kernel
  obtain ⟨reading, j, hread, hfaults, hj, hreads, hlint⟩ :=
    Day.read_lint nightDay Journal.defaultLimit (Or.inr hlimit)
  refine ⟨by decide +kernel, hlimit, reading, j, hread, hfaults, hj, hreads, ?_, ?_⟩
  · exact hlint none none rfl nofun
  · refine hlint (some "log/2024-01-03.md") (some nightDay.date) (by decide +kernel) ?_
    exact fun d hd => (Option.mem_some_iff.mp hd).symm

end TimeJournal
