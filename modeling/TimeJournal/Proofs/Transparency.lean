import TimeJournal.Proofs.Edit.LineEndings
import TimeJournal.Proofs.Export.Records

/-! # How a text is written

Carriage returns in front of the line feeds and a byte order mark in front of the text make no
difference. Whatever is done with a text comes to the same for a text that is written in this way:
only the offsets are others, and a text that is changed stays written as it was.

* `Writing.IsTransparent`: what it means for reading, exporting, checking and fixing.
* `Writing.lint_write`, `Writing.check_write`: the findings in the text that is written.
* `Writing.isTransparent`: every way to write a text makes no difference. -/

namespace TimeJournal.Writing

variable (w : Writing)

/-- **The way to write a text makes no difference.** -/
structure IsTransparent (t : String) : Prop where
  /-- The journal and the faults are the same, at their new places. Only the whole journal begins
  where it did, even if that is in front of a byte order mark. -/
  reads : ∀ limit, limit = 0 ∨ (w.text t).length ≤ limit → ∃ reading reading',
    Journal.read t limit = .ok reading ∧ Journal.read (w.text t) limit = .ok reading' ∧
    reading'.journal = reading.journal.map (w.journal t.toList) ∧
    (w.marked = false → reading'.journal = reading.journal.map (Journal.move (w.offset t.toList))) ∧
    reading'.faults = reading.faults.map (ParseFault.move (w.offset t.toList))
  /-- The journal is exported as the same. -/
  exports : ∀ j format split,
    (w.journal t.toList j).export format split = Journal.export j format split
  /-- The journal breaks the same rules, at the new places. -/
  lints : ∀ source tolerance j, lint source tolerance (w.journal t.toList j) =
    (lint source tolerance j).map (List.map (Finding.move (w.offset t.toList)))
  /-- A check gives the same findings, at their new places. -/
  checks : ∀ source, (w.text t).length ≤ Journal.defaultLimit →
    (check source (w.text t)).map (fun checked => (checked.journal, checked.findings)) =
        (check source t).map (fun checked => (checked.journal.map (w.journal t.toList),
          checked.findings.map (Finding.move (w.offset t.toList)))) ∧
      ∀ fileDate, Location.date? source = .ok fileDate → ∃ checked, check source t = .ok checked
  /-- As many edits are made, and the text after them is written as it was. -/
  fixes : ∀ source rounds,
    (∀ n < rounds, ∀ after applied, (fix (w.text t) source n).2 = .ok (after, applied) →
      after.length ≤ Journal.defaultLimit) →
    (fix (w.text t) source rounds).2 =
        (fix t source rounds).2.map (fun fixed => (w.text fixed.1, fixed.2)) ∧
      ∀ fileDate, Location.date? source = .ok fileDate →
        ∃ after applied, (fix t source rounds).2 = .ok (after, applied)

/-! ### Findings -/

open Lint

/-- The rules are broken at the new places. -/
theorem lint_write (s : List Char) (source : Option String) (tolerance : ℤ) (j : Journal) :
    lint source tolerance (w.journal s j) =
      (lint source tolerance j).map (List.map (Finding.move (w.offset s))) := by
  unfold lint Settings.ofSource
  rcases Location.date? source with fault | fileDate
  · rfl
  · dsimp only
    rw [findings_eq_declared, findings_eq_declared]
    exact congrArg Except.ok (declared_move (w.offset s) _ j)

variable {t : String}

/-- A check comes to its end. -/
theorem exists_check {source : Option String} {fileDate : Option Date}
    (hs : Location.date? source = .ok fileDate) (hsize : t.length ≤ Journal.defaultLimit) :
    ∃ checked, check source t = .ok checked := by
  rcases hj : (Reading.ofText t.toList).journal with _ | j
  · exact ⟨_, check_of_none hj hsize⟩
  · exact ⟨_, check_eq hs hj hsize⟩

/-- A check gives the same findings, at their new places. -/
theorem check_write (h : IsBare t.toList) (source : Option String)
    (hsize : (w.text t).length ≤ Journal.defaultLimit) :
    (check source (w.text t)).map (fun checked => (checked.journal, checked.findings)) =
      (check source t).map fun checked => (checked.journal.map (w.journal t.toList),
        checked.findings.map (Finding.move (w.offset t.toList))) := by
  have hsize₀ := (w.length_le_length_text t).trans hsize
  have hjournal := w.journal_text h
  have hfaults : (Reading.ofText (w.text t).toList).faults.map Finding.ofFault =
      ((Reading.ofText t.toList).faults.map Finding.ofFault).map
        (Finding.move (w.offset t.toList)) := by
    rw [toList_text, (w.reading_write h).2, Finding.map_ofFault_move]
  -- what is compared of a check: the journal, and the faults in front of the other findings
  have hpair : ∀ linted, (fun checked : Checked => (checked.journal, checked.findings))
        ⟨Reading.ofText (w.text t).toList, linted.map (Finding.move (w.offset t.toList))⟩ =
      (fun checked : Checked => (checked.journal.map (w.journal t.toList),
        checked.findings.map (Finding.move (w.offset t.toList))))
        ⟨Reading.ofText t.toList, linted⟩ := by
    intro linted
    simp only [Checked.journal, Checked.findings, hjournal, hfaults, List.map_append]
  rcases hj : (Reading.ofText t.toList).journal with _ | j
  · rw [hj] at hjournal
    rw [check_of_none hj hsize₀, check_of_none hjournal hsize]
    exact congrArg Except.ok (hpair [])
  rw [hj] at hjournal
  rcases hs : Location.date? source with fault | fileDate
  · rw [check_of_error hs hj hsize₀, check_of_error hs hjournal hsize]
    rfl
  · rw [check_eq hs hj hsize₀, check_eq hs hjournal hsize]
    have hmove := declared_move (w.offset t.toList) ⟨source.getD "", fileDate, defaultTolerance⟩ j
    exact congrArg Except.ok (hmove ▸ hpair _)

/-! ### Exports -/

theorem records_write (s : List Char) (j : Journal) (split : Bool) :
    (w.journal s j).records split = j.records split := by
  rw [← j.records_move (w.offset s), Journal.records_eq, Journal.records_eq]
  rfl

/-! ### All that is done with a text -/

/-- **How a text is written makes no difference.** -/
theorem isTransparent (w : Writing) (h : IsBare t.toList) : w.IsTransparent t where
  reads limit hlimit := by
    have hlength := w.length_le_length_text t
    have hlimit' : limit = 0 ∨ t.length ≤ limit := by omega
    obtain ⟨hjournal, hfaults⟩ := w.reading_write h
    refine ⟨_, _, Journal.read_of_le hlimit', Journal.read_of_le hlimit, ?_, fun hw => ?_, ?_⟩
    · rw [toList_text, hjournal]
    · rw [toList_text, hjournal]
      rcases hj : (Reading.ofText t.toList).journal with _ | j
      · rfl
      · exact congrArg some (w.journal_eq_move hw hj)
    · rw [toList_text, hfaults]
  exports j format split := by
    unfold Journal.export
    rw [records_write]
  lints := w.lint_write t.toList
  checks source hsize := by
    have hsize₀ := (w.length_le_length_text t).trans hsize
    exact ⟨w.check_write h source hsize, fun _ hs => exists_check hs hsize₀⟩
  fixes source rounds hsize := ⟨w.fix_write h hsize, fun _ hs => w.exists_fix h hs hsize⟩

/-- With a byte order mark and carriage returns, the text of a day under the date of another one is
fixed in the same two rounds, and both are still there. -/
theorem isTransparent_cascadeText : ∃ fixed,
    (fix cascadeText (some "/notes/2024-01-03.md") 2).2 = .ok (fixed, 2) ∧
    (fix (text ⟨true, true⟩ cascadeText) (some "/notes/2024-01-03.md") 2).2 =
      .ok ("\uFEFF---\r\ndate: 2024-01-03\r\n---\r\n" ++
        "- 09:00-10:00 AB 1.00 read\r\n- 10:00-11:00 0.50 write\r\n", 2) := by
  have hbare : IsBare cascadeText.toList := ⟨by decide +kernel, by decide +kernel⟩
  have hfix : (fix cascadeText (some "/notes/2024-01-03.md") 2).2 =
      .ok ("---\ndate: 2024-01-03\n---\n" ++
        "- 09:00-10:00 AB 1.00 read\n- 10:00-11:00 0.50 write\n", 2) := by decide +kernel
  have hsize : ∀ n < 2, ∀ after applied,
      (fix (text ⟨true, true⟩ cascadeText) (some "/notes/2024-01-03.md") n).2 =
        .ok (after, applied) → after.length ≤ Journal.defaultLimit := by
    have hlengths : ∀ n < 2,
        (fix (text ⟨true, true⟩ cascadeText) (some "/notes/2024-01-03.md") n).2.toOption.all
          (fun fixed => fixed.1.length ≤ Journal.defaultLimit) = true := by decide +kernel
    intro n hn after applied hrounds
    have hlength := hlengths n hn
    rw [hrounds] at hlength
    exact of_decide_eq_true hlength
  obtain ⟨hfixes, -⟩ := (isTransparent ⟨true, true⟩ hbare).fixes _ 2 hsize
  refine ⟨_, hfix, ?_⟩
  rw [hfixes, hfix]
  decide +kernel

end TimeJournal.Writing
