import TimeJournal.Proofs.Calendar.Resolution
import TimeJournal.Proofs.Edit.Execution
import TimeJournal.Proofs.Edit.Reread
import TimeJournal.Proofs.Hours.Rendering

/-! # Edits change one part

The edit of a command is a setting of the part that the command works on, written as that part is
read. So the text after the edit is read as the old journal with that part set, and a second execution
on that part has nothing to do.

* `Command.settles_recalculate`, `Command.settles_replaceStart`, `Command.settles_replaceDate`: this,
  for each command.
* `execute_frame`: an edit leaves everything else in the document as it is. -/

namespace TimeJournal

open Lint

/-- The command that makes a setting. -/
def Setting.command : Setting → Command
  | .date _ => .useFileDate
  | .start _ _ => .replaceWithPreviousStop
  | .duration _ _ _ => .recalculateDuration

namespace Command

variable {s : List Char} {j : Journal} {selection : Span} {source : Option String} {edit : TextEdit}

theorem minutes_sub_lt {date : Option Date} {t : TimeToken} {a b : Instant}
    (h : instant? date t = some b) : b.minutes - a.minutes < 2 ^ 38 := by
  obtain ⟨d, -, hd⟩ := Option.bind_eq_some_iff.mp h
  rcases hr : t.resolve d with fault | i
  · rw [hr] at hd; cases hd
  · rw [hr] at hd
    obtain rfl := Option.some.inj hd
    have hlt := TimeToken.minutes_lt_of_resolve hr
    unfold lastDayNumber at hlt
    omega

/-- An edit of a command sets a part of the journal, and the command has nothing to do after it. -/
structure Settles (c : Command) (s : List Char) (j : Journal) (source : Option String) (x : Setting)
    (e : TextEdit) : Prop where
  command : x.command = c
  text : x.text = e.newText
  span : j.partSpan? x = some e.span
  rereads : Rereads s j x e
  changes : TextEdit.splice e.span e.newText.toList s ≠ s
  again : c.execute ((j.set x).move e.move) e.newSpan source = .ok none

/-- An edit after which another journal is read changes the text. -/
theorem splice_ne {x : Setting} (hj : (Reading.ofText s).journal = some j) (h : Rereads s j x edit)
    (hne : j ≠ (j.set x).move edit.move) :
    TextEdit.splice edit.span edit.newText.toList s ≠ s := by
  intro heq
  have hread := h.journal
  rw [heq, hj] at hread
  exact hne (Option.some.inj hread)

theorem settles_replaceDate (hj : (Reading.ofText s).journal = some j)
    (h : replaceDate j source = .ok (some edit)) :
    ∃ x, Settles .useFileDate s j source x edit := by
  obtain ⟨expected, d, hs, hd, hne, rfl⟩ := exists_of_replaceDate h
  have hspan := Journal.partSpan?_date hd expected
  have hreads : Rereads s j (.date expected) ⟨d.span, expected.toString⟩ := rereads hj hspan trivial
  set edit : TextEdit := ⟨d.span, expected.toString⟩
  have hd' : ((j.set (.date expected)).move edit.move).frontMatter.date? =
      some (Located.move edit.move { d with value := expected }) := by
    show ((j.frontMatter.withDate expected).move _).date? = _
    rw [FrontMatter.date?_move, FrontMatter.date?_withDate, hd]
    rfl
  refine ⟨.date expected, rfl, rfl, hspan, hreads, splice_ne hj hreads ?_, ?_⟩
  · intro heq
    rw [← heq, hd] at hd'
    exact hne (congrArg Located.value (Option.some.inj hd'))
  · show replaceDate _ source = _
    rw [replaceDate_eq hs hd']
    simp [editUnless, Located.move]

theorem settles_replaceStart (hj : (Reading.ofText s).journal = some j)
    (h : replaceStart j selection = .ok (some edit)) :
    ∃ x, Settles .replaceWithPreviousStop s j source x edit := by
  obtain ⟨p, e, ht, hne, rfl⟩ := exists_of_replaceStart h
  obtain ⟨es, es', hentries, hp⟩ := Journal.exists_of_startAt? ht
  obtain ⟨i, hi, hmap⟩ := Journal.exists_line hentries
  have htime := isTime_lastStop_of_ofText hj hentries hp.symm
  have hspan := Journal.partSpan?_start hi p.value
  have hreads : Rereads s j (.start i p.value) ⟨e.start.span, p.value.raw⟩ := rereads hj hspan htime
  set edit : TextEdit := ⟨e.start.span, p.value.raw⟩
  refine ⟨.start i p.value, rfl, rfl, hspan, hreads, splice_ne hj hreads ?_, ?_⟩
  · intro heq
    have hi' : ((j.set (.start i p.value)).move edit.move).entryAt? i =
        some ((e.withStart p.value).move edit.move) := Journal.entryAt?_mapLine_move hi _ _
    rw [← heq, hi] at hi'
    exact hne (congrArg (fun a : Entry => a.start.value) (Option.some.inj hi')).symm
  have hentries' := Journal.entries_move_of_eq (m := edit.move) (hmap (Entry.withStart p.value))
  have hselect := (isLaidOut_of_ofText hreads.journal).startAt?_span hentries'
  have hlast : lastStop none (es.map (Entry.move edit.move)) = some (p.move edit.move) := by
    rw [show (none : Option (Located TimeToken)) = none.map (Located.move edit.move) from rfl,
      lastStop_map_move, ← hp]
    rfl
  have hnew : ((e.withStart p.value).move edit.move).start.span = edit.newSpan :=
    TextEdit.move_span hreads.start_lt_stop
  rw [hlast, hnew] at hselect
  show replaceStart _ _ = _
  rw [replaceStart_eq hselect]
  simp [editUnless, Entry.move, Entry.withStart, Located.move]

theorem settles_recalculate (hj : (Reading.ofText s).journal = some j)
    (h : recalculate j selection = .ok (some edit)) :
    ∃ x, Settles .recalculateDuration s j source x edit := by
  obtain ⟨d, e, a, b, ht, ha, hb, hab, rfl, hne⟩ := exists_of_recalculate h
  obtain ⟨hmem, hd⟩ := Journal.exists_of_durationAt? ht
  obtain ⟨es, es', hentries⟩ := List.append_of_mem hmem
  obtain ⟨i, hi, hmap⟩ := Journal.exists_line hentries
  set raw := Hours.render (60 * (b.minutes - a.minutes)) with hraw
  obtain ⟨seconds, hs, -⟩ := Hours.exists_seconds?_render (minutes_sub_lt (a := a) hb)
  have hwritten : (Setting.duration i seconds raw).IsWritten := ⟨Hours.isDecimal_render _, hs⟩
  have hspan := Journal.partSpan?_duration hi hd seconds raw
  have hreads : Rereads s j (.duration i seconds raw) ⟨d.span, raw⟩ := rereads hj hspan hwritten
  set edit : TextEdit := ⟨d.span, raw⟩
  set d' : Duration := { d with seconds := seconds, raw := raw }
  have hd' : ((e.withDuration seconds raw).move edit.move).duration.part? =
      some (d'.move edit.move) := by
    rw [Entry.part?_move, Entry.part?_withDuration, hd]
    rfl
  refine ⟨.duration i seconds raw, rfl, rfl, hspan, hreads, splice_ne hj hreads ?_, ?_⟩
  · intro heq
    have hi' : ((j.set (.duration i seconds raw)).move edit.move).entryAt? i =
        some ((e.withDuration seconds raw).move edit.move) := Journal.entryAt?_mapLine_move hi _ _
    rw [← heq, hi] at hi'
    rw [← Option.some.inj hi', hd] at hd'
    exact hne (congrArg Duration.raw (Option.some.inj hd')).symm
  have hentries' :=
    Journal.entries_move_of_eq (m := edit.move) (hmap (Entry.withDuration seconds raw))
  have hselect := (isLaidOut_of_ofText hreads.journal).durationAt?_span hentries' hd'
  have hnew : (d'.move edit.move).span = edit.newSpan := TextEdit.move_span hreads.start_lt_stop
  rw [hnew] at hselect
  have hreference : reference ((j.set (.duration i seconds raw)).move edit.move) = reference j := by
    show (j.frontMatter.move edit.move).date?.map _ = _
    rw [FrontMatter.date?_move, Option.map_map]
    rfl
  show recalculate _ _ = _
  rw [recalculate_eq hselect (hreference ▸ ha) (hreference ▸ hb) hab]
  simp [editUnless, hraw, d', Duration.move]

/-- **Whatever a command edits, it sets one part of the journal.** -/
theorem exists_settles (hj : (Reading.ofText s).journal = some j) {c : Command}
    (h : c.execute j selection source = .ok (some edit)) : ∃ x, Settles c s j source x edit := by
  cases c with
  | recalculateDuration => exact settles_recalculate hj h
  | replaceWithPreviousStop => exact settles_replaceStart hj h
  | useFileDate => exact settles_replaceDate hj h

/-- The edit applies, and the text after it is another one. -/
theorem Settles.exists_apply {text : String} {c : Command} {x : Setting}
    (h : Settles c text.toList j source x edit) : ∃ after, edit.apply text = .ok after ∧
      after.toList = TextEdit.splice edit.span edit.newText.toList text.toList ∧ after ≠ text := by
  refine ⟨String.ofList (TextEdit.splice edit.span edit.newText.toList text.toList), ?_,
    String.toList_ofList, ?_⟩
  · have hle := h.rereads.stop_le_length
    rw [String.length_toList] at hle
    unfold TextEdit.apply
    rw [if_neg (not_lt.mpr hle)]
  · intro heq
    have hlist := congrArg String.toList heq
    rw [String.toList_ofList] at hlist
    exact h.changes hlist

end Command

/-- **An edit leaves everything else in the document as it is.** It applies and changes the text. The
text after it, unless that is too long to be read, has the journal with one part set to the new text
and all spans moved, and the same faults at their new places. The command has nothing to do there any
more. -/
theorem execute_frame {text : String} {limit : ℕ} {reading : Reading} {j : Journal} {c : Command}
    {selection : Span} {source : Option String} {e : TextEdit}
    (hread : Journal.read text limit = .ok reading) (hj : reading.journal = some j)
    (he : c.execute j selection source = .ok (some e)) :
    ∃ (after : String) (x : Setting), e.apply text = .ok after ∧ after ≠ text ∧
      x.command = c ∧ x.text = e.newText ∧ j.partSpan? x = some e.span ∧
      (∀ limit', limit' = 0 ∨ after.length ≤ limit' → ∃ again,
        Journal.read after limit' = .ok again ∧ again.journal = some ((j.set x).move e.move) ∧
        again.faults = reading.faults.map (ParseFault.move e.move)) ∧
      c.execute ((j.set x).move e.move) e.newSpan source = .ok none := by
  obtain rfl : Reading.ofText text.toList = reading := by
    unfold Journal.read at hread
    split at hread
    · cases hread
    · exact Except.ok.inj hread
  obtain ⟨x, hx⟩ := Command.exists_settles hj he
  obtain ⟨after, happly, hafter, hne⟩ := hx.exists_apply
  refine ⟨after, x, happly, hne, hx.command, hx.text, hx.span, fun limit' hlimit => ?_, hx.again⟩
  refine ⟨Reading.ofText after.toList, ?_, ?_, ?_⟩
  · unfold Journal.read
    rw [if_neg (by omega)]
  · rw [hafter]
    exact hx.rereads.journal
  · rw [hafter]
    exact hx.rereads.faults

/-- A day with two entries and a gap of half an hour between them; the second duration is off. -/
def gapText : String :=
  "---\ndate: 2024-01-02\n---\n- 09:00-10:00 AB 1.00 read\n- 10:30-11:00 0.40 write\n"

theorem execute_frame_gapText : ∃ reading j e, Journal.read gapText 0 = .ok reading ∧
    reading.journal = some j ∧
    Command.replaceWithPreviousStop.execute j (Span.ofLength 54 5) none = .ok (some e) ∧
    e = ⟨Span.ofLength 54 5, "10:00"⟩ ∧ ∃ after x again, e.apply gapText = .ok after ∧
      after ≠ gapText ∧ j.partSpan? x = some e.span ∧ Journal.read after 0 = .ok again ∧
      again.journal = some ((j.set x).move e.move) := by
  have hexecute : (Reading.ofText gapText.toList).journal.map (fun j =>
      Command.replaceWithPreviousStop.execute j (Span.ofLength 54 5) none) =
        some (.ok (some ⟨Span.ofLength 54 5, "10:00"⟩)) := by decide +kernel
  obtain ⟨j, hj, he⟩ := Option.map_eq_some_iff.mp hexecute
  have hread : Journal.read gapText 0 = .ok (Reading.ofText gapText.toList) := rfl
  obtain ⟨after, x, happly, hne, -, -, hspan, hagain, -⟩ := execute_frame hread hj he
  obtain ⟨again, hread', hj', -⟩ := hagain 0 (Or.inl rfl)
  exact ⟨_, j, _, hread, hj, he, rfl, after, x, again, happly, hne, hspan, hread', hj'⟩

end TimeJournal
