import TimeJournal.Proofs.Edit.Fixing

/-! # Fixing comes to an end

A round of fixing takes one correction away and adds none, and a journal has at most one for its
date, one for each start time that an end time stands in front of, and one for each duration. So
fixing ends after that many rounds, and nothing is left to correct in the text that it ends with.

* `Journal.length_corrections_le`: how many corrections a journal can have.
* `exists_journal_after`: how many are left after some of them were made.
* `check_of_corrections_eq_nil`: a check of a text with nothing to correct finds nothing that could
  be fixed.
* `fix_converges`: fixing never fails, is bounded, and ends with a text that it leaves alone. -/

namespace TimeJournal

open Lint

variable {source : Option String} {fileDate : Option Date} {text : String} {j : Journal}

/-! ### How many corrections there are -/

theorem length_entryEdits_le (date : Option Date) (previous : Option (Located TimeToken))
    (e : Entry) : (entryEdits date previous e).length ≤ 2 := by
  have hstart := length_le_one_startEdits date previous e
  have hduration := length_le_one_durationEdits date (rightStart date previous e) e
  rw [entryEdits, List.length_append]
  omega

theorem length_runEdits_le (date : Option Date) (previous : Option (Located TimeToken))
    (es : List Entry) : (runEdits date previous es).length ≤ 2 * es.length := by
  induction es generalizing previous with
  | nil => exact le_rfl
  | cons e es ih =>
    have hentry := length_entryEdits_le date previous e
    have hrest := ih (some e.stop)
    rw [runEdits_cons, List.length_append, List.length_cons]
    omega

/-- The start time of the first entry has no correction, so there is one less in front of the other
entries, which makes up for the date. -/
theorem Journal.length_corrections_le (fileDate : Option Date) (j : Journal) :
    (j.corrections fileDate).length ≤ max 1 (2 * j.entries.length) := by
  have hdate := length_le_one_dateEdits fileDate j.frontMatter
  rw [Journal.corrections_eq, List.length_append]
  rcases j.entries with _ | ⟨e, es⟩
  · show _ + 0 ≤ _
    omega
  · have hfirst : (entryEdits (rightDate fileDate j) none e).length ≤ 1 :=
      length_le_one_durationEdits _ _ e
    have hrest := length_runEdits_le (rightDate fileDate j) (some e.stop) es
    rw [runEdits_cons, List.length_append, List.length_cons]
    omega

/-! ### What is left -/

/-- **After some of the corrections the others are left**, and no new one has come. -/
theorem exists_journal_after (fileDate : Option Date) {s : List Char}
    (hj : (Reading.ofText s).journal = some j) (k : ℕ) :
    ∃ j', (Reading.ofText (TextEdit.applyAll 0 ((j.corrections fileDate).take k) s)).journal =
        some j' ∧ (j'.corrections fileDate).length = (j.corrections fileDate).length - k := by
  induction k generalizing s j with
  | zero =>
    rw [List.take_zero, TextEdit.applyAll_nil]
    exact ⟨j, hj, rfl⟩
  | succ k ih =>
    rcases hcorrections : j.corrections fileDate with _ | ⟨e, es⟩
    · rw [List.take_nil, TextEdit.applyAll_nil]
      refine ⟨j, hj, ?_⟩
      rw [hcorrections, List.length_nil, Nat.zero_sub]
    · obtain ⟨j₁, hj₁, hlength, hpass⟩ := exists_rest hj hcorrections rfl
      obtain ⟨j₂, hj₂, hleft⟩ := ih hj₁
      rw [hpass, hcorrections] at hj₂
      refine ⟨j₂, hj₂, ?_⟩
      rw [hleft, hlength, List.length_cons, Nat.succ_sub_succ]

theorem Finding.rule_notMem {f : Finding} (h : f.edit? = none) :
    f.rule ∉ [Rule.dateMismatch, .timeJumped, .incorrectDuration] := by
  have hcommand : Command.ofRule f.rule = none :=
    Finding.ofRule_eq_none (Option.map_eq_none_iff.mp h)
  intro hmem
  simp only [List.mem_cons, List.not_mem_nil, or_false] at hmem
  rcases hmem with hrule | hrule | hrule
  all_goals
    rw [hrule] at hcommand
    cases hcommand

/-- **Where there is nothing to correct, a check finds nothing that could be fixed.** -/
theorem check_of_corrections_eq_nil (hs : Location.date? source = .ok fileDate)
    (hj : (Reading.ofText text.toList).journal = some j)
    (hsize : text.length ≤ Journal.defaultLimit) (h : j.corrections fileDate = []) :
    ∃ checked, check source text = .ok checked ∧ checked.journal = some j ∧
      ∀ f ∈ checked.findings, f.rule ∉ [Rule.dateMismatch, .timeJumped, .incorrectDuration] := by
  set settings : Settings := ⟨source.getD "", fileDate, defaultTolerance⟩
  have hhead : ((declared settings j).filterMap Finding.edit?).head? =
      (j.corrections fileDate).head? := head?_filterMap_edit?_declared rfl j
  rw [h, List.head?_nil, List.head?_eq_none_iff] at hhead
  refine ⟨_, check_eq hs hj hsize, hj, fun f hf => Finding.rule_notMem ?_⟩
  rcases hedit : f.edit? with _ | edit
  · rfl
  · have hnone := List.filterMap_eq_nil_iff.mp hhead f (mem_of_mem_findings hf hedit)
    rw [hedit] at hnone
    cases hnone

/-! ### Rounds -/

/-- What fixing gives is what its rounds come to. -/
theorem fix_of_fixLoop {rounds : ℕ} {f : Fixing}
    (h : fixLoop source rounds rounds ⟨text, 0, []⟩ = (f, none)) :
    (fix text source rounds).2 = .ok (f.text, f.applied) := by
  unfold fix
  rw [h]

/-- Fixing leaves a text alone in which there is nothing to correct. -/
theorem fix_of_corrections_eq_nil (hs : Location.date? source = .ok fileDate)
    (hj : (Reading.ofText text.toList).journal = some j)
    (hsize : text.length ≤ Journal.defaultLimit) (h : j.corrections fileDate = []) (rounds : ℕ) :
    (fix text source rounds).2 = .ok (text, 0) := by
  have hfits : ∀ n < rounds,
      (TextEdit.applyAll 0 ((j.corrections fileDate).take n) text.toList).length ≤
        Journal.defaultLimit := by
    intro n _
    rw [h, List.take_nil, TextEdit.applyAll_nil, String.length_toList]
    exact hsize
  obtain ⟨notes, hloop⟩ := exists_fixLoop hs rounds (f := ⟨text, 0, []⟩) hj hfits
  rw [fix_of_fixLoop hloop, h, List.take_nil, TextEdit.applyAll_nil, String.ofList_toList,
    List.length_nil, Nat.min_zero]

/-- The texts that fixing goes through are those that fewer rounds end with. -/
theorem length_applyAll_le (hs : Location.date? source = .ok fileDate)
    (hj : (Reading.ofText text.toList).journal = some j) {rounds : ℕ}
    (hsize : ∀ n < rounds, ∀ after applied, (fix text source n).2 = .ok (after, applied) →
      after.length ≤ Journal.defaultLimit) (n : ℕ) (hn : n < rounds) :
    (TextEdit.applyAll 0 ((j.corrections fileDate).take n) text.toList).length ≤
      Journal.defaultLimit := by
  -- whether a text is short enough to be read is known only once those before it are
  induction n using Nat.strong_induction_on with
  | _ n ih =>
    obtain ⟨notes, hloop⟩ := exists_fixLoop hs n (f := ⟨text, 0, []⟩) hj
      fun k hk => ih k hk (hk.trans hn)
    have hlength := hsize n hn _ _ (fix_of_fixLoop hloop)
    rwa [String.length_ofList] at hlength

/-- The other way around, those texts are short enough if the ones that the corrections give are. -/
theorem length_fix_le (hs : Location.date? source = .ok fileDate)
    (hj : (Reading.ofText text.toList).journal = some j) {rounds : ℕ}
    (hsize : ∀ n < rounds,
      (TextEdit.applyAll 0 ((j.corrections fileDate).take n) text.toList).length ≤
        Journal.defaultLimit) :
    ∀ n < rounds, ∀ after applied, (fix text source n).2 = .ok (after, applied) →
      after.length ≤ Journal.defaultLimit := by
  intro n hn after applied hfix
  obtain ⟨notes, hloop⟩ := exists_fixLoop hs n (f := ⟨text, 0, []⟩) hj
    fun k hk => hsize k (hk.trans hn)
  obtain ⟨rfl, -⟩ := Prod.mk.inj (Except.ok.inj ((fix_of_fixLoop hloop).symm.trans hfix))
  rw [String.length_ofList]
  exact hsize n hn

/-- **Fixing comes to an end.** As long as no text on the way is too long to be read, it never fails
and makes at most two corrections for each entry, or one if there is no entry. With that many rounds
nothing is left that could be fixed, and fixing the text once more changes nothing. -/
theorem fix_converges (rounds : ℕ) (hs : Location.date? source = .ok fileDate)
    (hj : (Reading.ofText text.toList).journal = some j)
    (hsize : ∀ n < rounds, ∀ after applied, (fix text source n).2 = .ok (after, applied) →
      after.length ≤ Journal.defaultLimit) :
    ∃ after applied, (fix text source rounds).2 = .ok (after, applied) ∧
      applied ≤ max 1 (2 * j.entries.length) ∧
      (max 1 (2 * j.entries.length) ≤ rounds → after.length ≤ Journal.defaultLimit →
        (∃ checked, check source after = .ok checked ∧ checked.journal.isSome = true ∧
          ∀ f ∈ checked.findings, f.rule ∉ [Rule.dateMismatch, .timeJumped, .incorrectDuration]) ∧
        ∀ more, (fix after source more).2 = .ok (after, 0)) := by
  obtain ⟨notes, hloop⟩ := exists_fixLoop hs rounds (f := ⟨text, 0, []⟩) hj
    (length_applyAll_le hs hj hsize)
  obtain ⟨j', hj', hleft⟩ := exists_journal_after fileDate hj rounds
  have hcount := j.length_corrections_le fileDate
  set after := String.ofList
    (TextEdit.applyAll 0 ((j.corrections fileDate).take rounds) text.toList) with hafter
  refine ⟨after, _, fix_of_fixLoop hloop, ?_, fun hrounds hlength => ?_⟩
  · dsimp only
    omega
  · have hnil : j'.corrections fileDate = [] := List.length_eq_zero_iff.mp (by omega)
    have hread : (Reading.ofText after.toList).journal = some j' := by
      rw [hafter, String.toList_ofList]
      exact hj'
    obtain ⟨checked, hcheck, hjournal, hnone⟩ := check_of_corrections_eq_nil hs hread hlength hnil
    refine ⟨⟨checked, hcheck, ?_, hnone⟩, fix_of_corrections_eq_nil hs hread hlength hnil⟩
    rw [hjournal]
    rfl

/-- Four rounds are allowed for two entries; three of them correct the text of a day under the date
of another one, with a gap between its entries, and nothing is left to correct. -/
theorem fix_converges_cascadeText :
    ∃ j date, Location.date? (some "/notes/2024-01-03.md") = .ok (some date) ∧
      (Reading.ofText cascadeText.toList).journal = some j ∧ j.entries.length = 2 ∧
      (∀ n < 4, ∀ after applied,
        (fix cascadeText (some "/notes/2024-01-03.md") n).2 = .ok (after, applied) →
          after.length ≤ Journal.defaultLimit) ∧
      ∃ after, (fix cascadeText (some "/notes/2024-01-03.md") 4).2 = .ok (after, 3) ∧
        after = "---\ndate: 2024-01-03\n---\n" ++
          "- 09:00-10:00 AB 1.00 read\n- 10:00-11:00 1.00 write\n" ∧
        (∃ checked, check (some "/notes/2024-01-03.md") after = .ok checked ∧
          checked.journal.isSome = true ∧
          ∀ f ∈ checked.findings, f.rule ∉ [Rule.dateMismatch, .timeJumped, .incorrectDuration]) ∧
        ∀ more, (fix after (some "/notes/2024-01-03.md") more).2 = .ok (after, 0) := by
  have hs : Location.date? (some "/notes/2024-01-03.md") =
      .ok (some ⟨2024, 1, 3, by decide, by decide, by decide⟩) := by decide +kernel
  have hmap : (Reading.ofText cascadeText.toList).journal.map (fun j =>
      (j.entries.length, j.corrections (some ⟨2024, 1, 3, by decide, by decide, by decide⟩))) =
        some (2, [⟨⟨10, 20, by decide⟩, "2024-01-03"⟩, ⟨⟨54, 59, by decide⟩, "10:00"⟩,
          ⟨⟨66, 70, by decide⟩, "1.00"⟩]) := by decide +kernel
  obtain ⟨j, hj, hboth⟩ := Option.map_eq_some_iff.mp hmap
  obtain ⟨hlength, hcorrections⟩ := Prod.mk.inj hboth
  have hfits : ∀ n < 4, (TextEdit.applyAll 0 ((j.corrections (some ⟨2024, 1, 3, by decide,
      by decide, by decide⟩)).take n) cascadeText.toList).length ≤ Journal.defaultLimit := by
    rw [hcorrections]
    decide +kernel
  have hsize := length_fix_le hs hj hfits
  have hfixed : (fix cascadeText (some "/notes/2024-01-03.md") 4).2 =
      .ok ("---\ndate: 2024-01-03\n---\n" ++
        "- 09:00-10:00 AB 1.00 read\n- 10:00-11:00 1.00 write\n", 3) := by
    obtain ⟨notes, hloop⟩ := exists_fixLoop hs 4 (f := ⟨cascadeText, 0, []⟩) hj hfits
    rw [fix_of_fixLoop hloop, hcorrections]
    dsimp only
    decide +kernel
  obtain ⟨after, applied, hfix, -, hend⟩ := fix_converges 4 hs hj hsize
  rw [hfixed] at hfix
  obtain ⟨rfl, rfl⟩ := Prod.mk.inj (Except.ok.inj hfix)
  rw [hlength] at hend
  exact ⟨j, _, hs, hj, hlength, hsize, _, hfixed, rfl, hend (by decide) (by decide +kernel)⟩

end TimeJournal
