import TimeJournal.Edit.Fix
import TimeJournal.Proofs.Edit.Frame
import TimeJournal.Proofs.Lint.Completion
import TimeJournal.Proofs.Lint.Origin

/-! # Suggestions

A finding that can be resolved carries the text that resolves it, and the command for its rule, which
looks for its target and computes the text on its own, comes to the same edit.

* `Finding.isSome_suggestion_iff`: the findings with a suggestion are those with a command.
* `filterMap_edit?_declared`: the suggested edits of a check, as corrections that do not wait for one
  another.
* `execute_eq_edit`: executed at a finding, its command gives exactly the suggested edit. -/

namespace TimeJournal

open Lint

/-- The edit that a finding suggests. -/
def Finding.edit? (f : Finding) : Option TextEdit := f.suggestion.map fun new => ⟨f.span, new⟩

/-- **A finding has a suggestion exactly if there is a command for its rule.** -/
theorem Finding.isSome_suggestion_iff (f : Finding) :
    f.suggestion.isSome = true ↔ (Command.ofRule f.rule).isSome = true := by
  obtain ⟨span, issue⟩ := f
  cases issue with
  | missing field => cases field <;> simp [suggestion, Issue.suggestion, rule, Issue.rule,
      Command.ofRule, Command.all, Command.rule]
  | _ => simp [suggestion, Issue.suggestion, rule, Issue.rule, Command.ofRule, Command.all,
      Command.rule]

theorem Finding.ofRule_eq_none {f : Finding} (h : f.suggestion = none) :
    Command.ofRule f.rule = none := by
  have hiff := f.isSome_suggestion_iff
  rw [h] at hiff
  exact Option.not_isSome_iff_eq_none.mp fun hsome => Bool.noConfusion (hiff.mpr hsome)

/-- A finding with a command for its rule has an edit. -/
theorem Finding.exists_edit {f : Finding} {c : Command} (h : Command.ofRule f.rule = some c) :
    ∃ new, f.edit? = some ⟨f.span, new⟩ := by
  have hsome : f.suggestion.isSome = true := by
    rw [f.isSome_suggestion_iff, h]
    rfl
  obtain ⟨new, hnew⟩ := Option.isSome_iff_exists.mp hsome
  exact ⟨new, congrArg (Option.map _) hnew⟩

/-! ### The suggested edits of a check -/

section Rules

variable (settings : Settings) (date : Option Date)

theorem filterMap_edit?_unresolved (issue : TimeFault → Issue)
    (h : ∀ fault, (issue fault).suggestion = none) (t : Located TimeToken) :
    (unresolved date issue t).filterMap Finding.edit? = [] := by
  unfold unresolved
  split
  · simp [Finding.edit?, Finding.suggestion, h]
  · rfl

theorem filterMap_edit?_slot (issue : TimeFault → Issue)
    (h : ∀ fault, (issue fault).suggestion = none) (slot : Option (Located TimeToken)) :
    (slot.toList.flatMap (unresolved date issue)).filterMap Finding.edit? = [] := by
  rcases slot with _ | t
  · rfl
  · rw [Option.toList_some, List.flatMap_singleton, filterMap_edit?_unresolved date issue h]

theorem filterMap_edit?_missing (f : FrontMatter) :
    (missing f).filterMap Finding.edit? = [] := by
  unfold missing
  rw [List.filterMap_map, List.filterMap_eq_nil_iff]
  intro slot _
  rfl

theorem filterMap_edit?_startMismatch (f : FrontMatter) (previous : Option (Located TimeToken))
    (e : Entry) : (startMismatch f previous e).filterMap Finding.edit? = [] := by
  unfold startMismatch
  split
  · split_ifs <;> rfl
  · rfl

theorem filterMap_edit?_stopMismatch (f : FrontMatter) (last : Option (Located TimeToken)) :
    (stopMismatch settings date f last).filterMap Finding.edit? = [] := by
  unfold stopMismatch
  split
  · split
    · split_ifs <;> rfl
    · rfl
  · rfl

theorem filterMap_edit?_dateMismatch (f : FrontMatter) :
    (dateMismatch settings f).filterMap Finding.edit? = dateEdits settings.fileDate f := by
  unfold dateMismatch dateEdits
  rcases f.date? with _ | d
  · rfl
  rcases settings.fileDate with _ | expected
  · rfl
  dsimp only
  split_ifs <;> rfl

theorem filterMap_edit?_jumped (previous : Option (Located TimeToken)) (e : Entry) :
    (jumped settings date previous e).filterMap Finding.edit? = startEdits date previous e := by
  unfold jumped startEdits
  rcases previous with _ | p
  · rfl
  dsimp only
  unfold differ
  rcases instant? date p.value with _ | a
  · rfl
  rcases instant? date e.start.value with _ | b
  · rfl
  by_cases hab : a = b
  · simp [hab]
  · simp [hab, Finding.edit?, Finding.suggestion, Issue.suggestion]

theorem filterMap_edit?_rangeMismatch (h : settings.tolerance = defaultTolerance) (e : Entry) :
    (rangeMismatch settings date e).filterMap Finding.edit? =
      durationEdits date e.start.value e := by
  unfold rangeMismatch durationEdits
  rw [h]
  rcases e.duration.part? with _ | d
  · rfl
  rcases instant? date e.start.value with _ | a
  · rfl
  rcases instant? date e.stop.value with _ | b
  · rfl
  dsimp only
  by_cases hab : b.minutes < a.minutes
  · rw [if_pos hab, if_neg (by omega)]
    rfl
  · rw [if_neg hab]
    by_cases hoff : defaultTolerance < ((d.seconds : ℤ) - (60 * (b.minutes - a.minutes) : ℕ)).natAbs
    · rw [if_pos hoff, if_pos ⟨by omega, hoff⟩]
      rfl
    · rw [if_neg hoff, if_neg fun hc => hoff hc.2]
      rfl

theorem filterMap_edit?_ofEntry (h : settings.tolerance = defaultTolerance) (f : FrontMatter)
    (previous : Option (Located TimeToken)) (e : Entry) :
    (ofEntry settings date f previous e).filterMap Finding.edit? =
      startEdits date previous e ++ durationEdits date e.start.value e := by
  unfold ofEntry
  rw [List.filterMap_append, List.filterMap_append, List.filterMap_append, List.filterMap_append,
    filterMap_edit?_unresolved _ _ (fun _ => rfl), filterMap_edit?_unresolved _ _ (fun _ => rfl),
    filterMap_edit?_startMismatch, filterMap_edit?_jumped, filterMap_edit?_rangeMismatch _ _ h]
  simp

end Rules

/-- **The suggested edits of a check**, in the order of the findings. -/
theorem filterMap_edit?_declared {settings : Settings} (h : settings.tolerance = defaultTolerance)
    (j : Journal) : (declared settings j).filterMap Finding.edit? =
      dateEdits settings.fileDate j.frontMatter ++ j.chain.flatMap fun link =>
        startEdits (reference j) link.1 link.2 ++
          durationEdits (reference j) link.2.start.value link.2 := by
  have hfront : (ofFrontMatter settings (reference j) j.frontMatter).filterMap Finding.edit? =
      dateEdits settings.fileDate j.frontMatter := by
    unfold ofFrontMatter
    rw [List.filterMap_append, List.filterMap_append, List.filterMap_append,
      filterMap_edit?_dateMismatch, filterMap_edit?_missing,
      filterMap_edit?_slot _ _ fun _ => rfl, filterMap_edit?_slot _ _ fun _ => rfl]
    simp
  unfold declared
  rw [List.filterMap_append, List.filterMap_append, hfront, filterMap_edit?_stopMismatch,
    List.append_nil, List.filterMap_flatMap]
  congr 1
  exact List.flatMap_congr fun link _ => filterMap_edit?_ofEntry settings _ h _ link.1 link.2

/-! ### A check -/

section Check

variable {source : Option String} {fileDate : Option Date} {text : String} {j : Journal}

/-- A fault of the text has no edit. -/
theorem mem_of_mem_findings {reading : Reading} {linted : List Finding} {f : Finding}
    (hf : f ∈ (⟨reading, linted⟩ : Checked).findings) {edit : TextEdit} (he : f.edit? = some edit) :
    f ∈ linted := by
  rcases List.mem_append.mp hf with hf | hf
  · obtain ⟨fault, -, rfl⟩ := List.mem_map.mp hf
    cases he
  · exact hf

/-- A finding with an edit is in a text that has a journal. -/
theorem exists_of_mem_check (hs : Location.date? source = .ok fileDate) {checked : Checked}
    (hc : check source text = .ok checked) {f : Finding} (hf : f ∈ checked.findings)
    {edit : TextEdit} (he : f.edit? = some edit) :
    ∃ j, checked.journal = some j ∧ (Reading.ofText text.toList).journal = some j ∧
      f ∈ declared ⟨source.getD "", fileDate, defaultTolerance⟩ j := by
  have hsize := length_le_of_check hc
  rcases hj : (Reading.ofText text.toList).journal with _ | j
  · rw [check_of_none hj hsize] at hc
    obtain rfl := Except.ok.inj hc
    cases mem_of_mem_findings hf he
  · rw [check_eq hs hj hsize] at hc
    obtain rfl := Except.ok.inj hc
    exact ⟨j, hj, rfl, mem_of_mem_findings hf he⟩

end Check

/-! ### Executed at a finding -/

section Execute

variable {s : List Char} {j : Journal} {source : Option String}

theorem execute_dateMismatch {d : Located Date} {expected : Date}
    (hs : Location.date? source = .ok (some expected)) (hd : j.frontMatter.date? = some d)
    (hne : d.value ≠ expected) (selection : Span) :
    Command.useFileDate.execute j selection source = .ok (some ⟨d.span, expected.toString⟩) := by
  show Command.replaceDate j source = _
  rw [Command.replaceDate_eq hs hd]
  simp [Command.editUnless, hne]

theorem execute_jumped (hj : j.IsLaidOut) {p : Located TimeToken} {e : Entry}
    (hlink : (some p, e) ∈ j.chain) (hne : differ (reference j) p.value e.start.value = true) :
    Command.replaceWithPreviousStop.execute j e.start.span source =
      .ok (some ⟨e.start.span, p.value.raw⟩) := by
  obtain ⟨es, es', hentries, hp⟩ := mem_chain_iff.mp hlink
  have hselect := hj.startAt?_span hentries
  rw [← hp] at hselect
  have htoken : p.value ≠ e.start.value := by
    intro heq
    rw [heq, differ_self] at hne
    cases hne
  show Command.replaceStart j _ = _
  rw [Command.replaceStart_eq hselect]
  simp [Command.editUnless, htoken]

/-- The literal of a duration that is off by more than half of its last decimal is not the one that
the times give. -/
theorem execute_incorrectDuration (hj : (Reading.ofText s).journal = some j) {e : Entry}
    (he : e ∈ j.entries) {d : Duration} (hd : e.duration.part? = some d) {a b : Instant}
    (ha : instant? (reference j) e.start.value = some a)
    (hb : instant? (reference j) e.stop.value = some b) (hab : a.minutes ≤ b.minutes)
    (hoff : defaultTolerance < ((d.seconds : ℤ) - (60 * (b.minutes - a.minutes) : ℕ)).natAbs) :
    Command.recalculateDuration.execute j d.span source =
      .ok (some ⟨d.span, Hours.render (60 * (b.minutes - a.minutes))⟩) := by
  obtain ⟨es, es', hentries⟩ := List.append_of_mem he
  have hselect := (isLaidOut_of_ofText hj).durationAt?_span hentries hd
  have hraw : Hours.render (60 * (b.minutes - a.minutes)) ≠ d.raw := by
    intro heq
    obtain ⟨seconds, hs, hnear⟩ := Hours.exists_seconds?_render (Command.minutes_sub_lt (a := a) hb)
    rw [heq, seconds?_of_ofText hj he hd] at hs
    obtain rfl := Option.some.inj hs
    unfold defaultTolerance at hoff
    omega
  show Command.recalculate j _ = _
  rw [Command.recalculate_eq hselect ha hb hab]
  simp [Command.editUnless, hraw]

/-- **Executed at a finding, its command gives the suggested edit.** -/
theorem execute_eq_edit (settings : Settings) (hj : (Reading.ofText s).journal = some j)
    (hs : Location.date? source = .ok settings.fileDate)
    (ht : settings.tolerance = defaultTolerance) {f : Finding} (hf : f ∈ declared settings j)
    {edit : TextEdit} (he : f.edit? = some edit) :
    ∃ c, Command.ofRule f.rule = some c ∧ c.execute j f.span source = .ok (some edit) := by
  cases Finding.origin_of_mem_declared hf with
  | dateMismatch hd hfile hne =>
    obtain rfl := Option.some.inj he
    rw [hfile] at hs
    exact ⟨_, rfl, execute_dateMismatch hs hd hne _⟩
  | jumped hlink hne =>
    obtain rfl := Option.some.inj he
    exact ⟨_, rfl, execute_jumped (isLaidOut_of_ofText hj) hlink hne⟩
  | incorrectDuration hentry hd ha hb hab hoff =>
    obtain rfl := Option.some.inj he
    rw [ht] at hoff
    exact ⟨_, rfl, execute_incorrectDuration hj hentry hd ha hb hab hoff⟩
  | _ => cases he

end Execute

end TimeJournal
