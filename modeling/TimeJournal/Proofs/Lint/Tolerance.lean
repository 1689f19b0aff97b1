import TimeJournal.Proofs.Export.Accounting
import TimeJournal.Proofs.Hours.Literal

/-! # The tolerance of a duration

A whole number of minutes is seldom a whole number of hundredths of an hour. The literal that is
suggested for a duration is of the nearest hundredths, which are at most 12 seconds off. The next
ones are 24 seconds or more away, and the tolerance lies between: of the literals with two decimals
it accepts that one and no other.

* `mem_declared_iff_of_lasts`: when the duration of an entry is reported.
* `duration_fitsTolerance`: suggestion, correction and tolerance of one entry, put together. -/

namespace TimeJournal

open Lint

/-! ### Entries of whole minutes -/

/-- The entry is in the journal and has a duration, and its times resolve to instants with so many
minutes between them. -/
structure Journal.Lasts (j : Journal) (e : Entry) (d : Duration) (minutes : ℕ) : Prop where
  mem : e ∈ j.entries
  duration : e.duration = .read d
  range : ∃ day first last, j.frontMatter.date? = some day ∧
    e.start.value.resolve day.value = .ok first ∧ e.stop.value.resolve day.value = .ok last ∧
    last.minutes = first.minutes + minutes

/-- The duration is reported to be wrong. -/
def FlagsDuration (found : List Finding) (d : Duration) : Prop :=
  ∃ f ∈ found, f.rule = .incorrectDuration ∧ f.span = d.span

section Lasts

variable {s : List Char} {j : Journal} {e : Entry} {d : Duration} {m : ℕ} {settings : Settings}

theorem Journal.Lasts.exists_instants (h : j.Lasts e d m) :
    ∃ a b, instant? (reference j) e.start.value = some a ∧
      instant? (reference j) e.stop.value = some b ∧ b.minutes = a.minutes + m := by
  obtain ⟨day, a, b, hday, ha, hb, hm⟩ := h.range
  refine ⟨a, b, ?_, ?_, hm⟩
  · simp [instant?, reference, hday, ha, Except.toOption]
  · simp [instant?, reference, hday, hb, Except.toOption]

theorem Journal.Lasts.lt (h : j.Lasts e d m) : m < 2 ^ 38 := by
  obtain ⟨a, b, -, hb, hm⟩ := h.exists_instants
  have hlt := Command.minutes_sub_lt (a := a) hb
  omega

theorem Journal.Lasts.rangeMismatch_eq (h : j.Lasts e d m) :
    rangeMismatch settings (reference j) e =
      if settings.tolerance < ((d.seconds : ℤ) - (60 * m : ℕ)).natAbs then
        [⟨d.span, .incorrectDuration (60 * m)⟩]
      else [] := by
  obtain ⟨a, b, ha, hb, hm⟩ := h.exists_instants
  have hsub : b.minutes - a.minutes = m := by omega
  unfold rangeMismatch
  rw [h.duration, ha, hb]
  dsimp only [Recovered.part?]
  rw [if_neg (by omega), hsub]

/-- **When the duration of an entry is reported**, and how. -/
theorem mem_declared_iff_of_lasts (hj : (Reading.ofText s).journal = some j) (h : j.Lasts e d m)
    {f : Finding} :
    (f ∈ declared settings j ∧ f.rule = .incorrectDuration ∧ f.span = d.span) ↔
      settings.tolerance < ((d.seconds : ℤ) - (60 * m : ℕ)).natAbs ∧
        f = ⟨d.span, .incorrectDuration (60 * m)⟩ := by
  have hordered := isOrdered_of_ofText hj
  constructor
  · rintro ⟨hf, hrule, hspan⟩
    have hholds : e.Holds f.span := by
      have hduration := (hordered.holds e h.mem).duration
      rw [Entry.durationSpan, h.duration] at hduration
      rw [hspan]
      exact hduration
    rcases mem_of_holds hordered h.mem hf hholds with hf | ⟨p, hf⟩ | hf | hf
    · obtain ⟨-, fault, -, -, rfl⟩ := mem_unresolved hf
      cases hrule
    · obtain ⟨q, -, -, rfl⟩ := mem_jumped hf
      cases hrule
    · obtain ⟨-, fault, -, -, rfl⟩ := mem_unresolved hf
      cases hrule
    · rw [h.rangeMismatch_eq] at hf
      split_ifs at hf with hoff
      · exact ⟨hoff, List.mem_singleton.mp hf⟩
      · cases hf
  · rintro ⟨hoff, rfl⟩
    refine ⟨mem_declared_of_mem_entries h.mem fun p => List.mem_append_right _ ?_, rfl, rfl⟩
    rw [h.rangeMismatch_eq, if_pos hoff]
    exact List.mem_singleton_self _

theorem flagsDuration_declared_iff (hj : (Reading.ofText s).journal = some j)
    (h : j.Lasts e d m) :
    FlagsDuration (declared settings j) d ↔
      settings.tolerance < ((d.seconds : ℤ) - (60 * m : ℕ)).natAbs := by
  unfold FlagsDuration
  constructor
  · rintro ⟨f, hf⟩
    exact ((mem_declared_iff_of_lasts hj h).mp hf).1
  · intro hoff
    exact ⟨_, (mem_declared_iff_of_lasts hj h).mpr ⟨hoff, rfl⟩⟩

end Lasts

/-! ### Suggestion, correction and tolerance -/

/-- What is said and done about the duration of an entry of whole minutes, with `r` hundredths of an
hour: they are the nearest ones, their literal is read back as 36 seconds each and is near enough;
it is what a finding suggests and what the command writes, whatever selects the duration; and the
tolerance tells it from all others. -/
structure Journal.FitsTolerance (j : Journal) (e : Entry) (d : Duration) (minutes r : ℕ) : Prop where
  nearest : (r : ℤ) = round (5 * minutes / 3 : ℚ)
  read : Hours.seconds? (Hours.twoDecimals ((r : ℚ) / 100)).toList = some (36 * r)
  near : (((36 * r : ℕ) : ℤ) - (60 * minutes : ℕ)).natAbs ≤ 12
  flagged : ∀ source tolerance found, lint source tolerance j = .ok found →
    (FlagsDuration found d ↔ tolerance < ((d.seconds : ℤ) - (60 * minutes : ℕ)).natAbs)
  suggested : ∀ source tolerance found, lint source tolerance j = .ok found →
    ∀ f ∈ found, f.rule = .incorrectDuration → f.span = d.span →
      f.suggestion = some (Hours.twoDecimals ((r : ℚ) / 100))
  selected : j.durationAt? d.span = some (d, e)
  written : ∀ selection source, j.durationAt? selection = some (d, e) →
    Command.recalculateDuration.execute j selection source =
      .ok (if d.raw = Hours.twoDecimals ((r : ℚ) / 100) then none
        else some ⟨d.span, Hours.twoDecimals ((r : ℚ) / 100)⟩)
  silent : d.raw = Hours.twoDecimals ((r : ℚ) / 100) → ∀ source tolerance found, 12 ≤ tolerance →
    lint source tolerance j = .ok found → ¬ FlagsDuration found d
  accepted : (Hours.decimalPart d.raw.toList).length = 2 → ∀ source found,
    lint source defaultTolerance j = .ok found →
      (¬ FlagsDuration found d ↔ Hours.literalValue d.raw.toList = (r : ℚ) / 100)
  literal : ∀ s, Hours.IsLiteral s → (Hours.decimalPart s).length = 2 →
    ((∃ k, Hours.seconds? s = some k ∧
      (((k : ℤ) - (60 * minutes : ℕ)).natAbs : ℤ) ≤ defaultTolerance) ↔
        Hours.literalValue s = (r : ℚ) / 100)

section Fits

variable {s : List Char} {j : Journal} {e : Entry} {d : Duration} {m : ℕ}

theorem exists_declared_of_lint {source : Option String} {tolerance : ℤ} {found : List Finding}
    (h : lint source tolerance j = .ok found) :
    ∃ fileDate, found = declared ⟨source.getD "", fileDate, tolerance⟩ j := by
  rw [lint_eq_declared] at h
  rcases hs : Location.date? source with fault | fileDate
  · rw [hs] at h
    cases h
  · rw [hs] at h
    exact ⟨fileDate, (Except.ok.inj h).symm⟩

theorem Journal.Lasts.fitsTolerance (hj : (Reading.ofText s).journal = some j)
    (h : j.Lasts e d m) : j.FitsTolerance e d m (Hours.hundredths m) where
  nearest := Hours.hundredths_eq_round m
  read := by
    rw [Hours.toList_twoDecimals_natCast]
    exact Hours.seconds?_hundredths h.lt
  near := by
    have hbounds := Hours.hundredths_bounds m
    omega
  flagged := by
    intro source tolerance found hfound
    obtain ⟨fileDate, rfl⟩ := exists_declared_of_lint hfound
    exact flagsDuration_declared_iff hj h
  suggested := by
    intro source tolerance found hfound f hf hrule hspan
    obtain ⟨fileDate, rfl⟩ := exists_declared_of_lint hfound
    obtain ⟨-, rfl⟩ := (mem_declared_iff_of_lasts hj h).mp ⟨hf, hrule, hspan⟩
    exact congrArg some (Hours.render_eq_hundredths h.lt)
  selected := by
    obtain ⟨es, es', hentries⟩ := List.append_of_mem h.mem
    exact (isLaidOut_of_ofText hj).durationAt?_span hentries (by rw [h.duration]; rfl)
  written := by
    intro selection source hselection
    obtain ⟨a, b, ha, hb, hm⟩ := h.exists_instants
    have hsub : b.minutes - a.minutes = m := by omega
    show Command.recalculate j selection = _
    rw [Command.recalculate_eq hselection ha hb (by omega), hsub, Hours.render_eq_hundredths h.lt]
    simp only [Command.editUnless, beq_iff_eq, eq_comm (b := d.raw)]
  silent := by
    intro hraw source tolerance found htolerance hfound
    obtain ⟨fileDate, rfl⟩ := exists_declared_of_lint hfound
    have hseconds := seconds?_of_ofText hj h.mem (d := d) (by rw [h.duration]; rfl)
    rw [hraw, Hours.toList_twoDecimals_natCast, Hours.seconds?_hundredths h.lt] at hseconds
    obtain hseconds := Option.some.inj hseconds
    have hbounds := Hours.hundredths_bounds m
    rw [flagsDuration_declared_iff hj h, ← hseconds]
    dsimp only
    omega
  accepted := by
    intro hlength source found hfound
    obtain ⟨fileDate, rfl⟩ := exists_declared_of_lint hfound
    have hseconds := seconds?_of_ofText hj h.mem (d := d) (by rw [h.duration]; rfl)
    have hliteral := (Hours.seconds?_eq_some_iff.mp hseconds).1
    rw [flagsDuration_declared_iff hj h, ← Hours.seconds?_near_iff hliteral hlength h.lt, hseconds]
    unfold defaultTolerance
    simp only [Option.some.injEq, exists_eq_left']
    omega
  literal := by
    intro s hs hlength
    rw [← Hours.seconds?_near_iff hs hlength h.lt]
    refine exists_congr fun k => and_congr_right fun _ => ?_
    unfold defaultTolerance
    omega

/-- **The suggested duration and the tolerance fit together.** In every text, for every entry with a
duration whose times resolve some minutes apart, there are hundredths of an hour for which all of
this holds. -/
theorem duration_fitsTolerance {text : String} {limit : ℕ} {reading : Reading}
    (hread : Journal.read text limit = .ok reading) (hj : reading.journal = some j)
    (h : j.Lasts e d m) : ∃ r, j.FitsTolerance e d m r := by
  obtain ⟨-, rfl⟩ := Journal.read_eq_ok_iff.mp hread
  exact ⟨_, h.fitsTolerance hj⟩

end Fits

/-- A text with fifty minutes, which are no whole number of hundredths of an hour. -/
def fiftyText : String := "---\ndate: 2006-01-02\n---\n- 09:00-09:50 0.80 mail\n"

/-- The duration that is written in it. -/
def fiftyDuration : Duration := ⟨2880, "0.80", ⟨39, 43, by decide⟩⟩

/-- The entry that is written in it. -/
def fiftyEntry : Entry where
  start := ⟨⟨"09:00"⟩, ⟨27, 32, by decide⟩⟩
  stop := ⟨⟨"09:50"⟩, ⟨33, 38, by decide⟩⟩
  codes := []
  duration := .read fiftyDuration
  activity := ⟨"mail", ⟨44, 48, by decide⟩⟩
  span := ⟨25, 48, by decide⟩

theorem duration_fitsTolerance_fiftyText : ∃ reading j,
    Journal.read fiftyText 0 = .ok reading ∧ reading.journal = some j ∧
    j.Lasts fiftyEntry fiftyDuration 50 ∧ j.FitsTolerance fiftyEntry fiftyDuration 50 83 ∧
    ∃ found, lint none defaultTolerance j = .ok found ∧ FlagsDuration found fiftyDuration := by
  have hread : Journal.read fiftyText 0 = .ok (Reading.ofText fiftyText.toList) :=
    Journal.read_of_le (Or.inl rfl)
  have hparts : (Reading.ofText fiftyText.toList).journal.map (fun j =>
      (j.frontMatter.date?, j.entries)) =
      some (some ⟨⟨2006, 1, 2, by decide, by decide, by decide⟩, ⟨10, 20, by decide⟩⟩,
        [fiftyEntry]) := by
    decide +kernel
  obtain ⟨j, hj, hparts⟩ := Option.map_eq_some_iff.mp hparts
  obtain ⟨hdate, hentries⟩ := Prod.mk.inj hparts
  have hlasts : j.Lasts fiftyEntry fiftyDuration 50 :=
    ⟨by rw [hentries]; exact List.mem_singleton_self _, rfl, _, _, _, hdate, rfl, rfl, rfl⟩
  obtain ⟨r, hfit⟩ := duration_fitsTolerance hread hj hlasts
  obtain rfl : r = 83 := by
    have := hfit.near
    omega
  have hlint := lint_eq_declared none defaultTolerance j
  refine ⟨_, j, hread, hj, hlasts, hfit, _, hlint, ?_⟩
  exact (hfit.flagged _ _ _ hlint).mpr (by decide)

end TimeJournal
