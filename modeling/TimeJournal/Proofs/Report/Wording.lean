import TimeJournal.Proofs.Calendar.TimeOfDay
import TimeJournal.Proofs.Edit.FieldEdit
import TimeJournal.Proofs.Edit.Suggestion
import TimeJournal.Proofs.Export.Accounting
import TimeJournal.Proofs.Journal.Recovery
import TimeJournal.Proofs.Text.Json

/-! # The wording of findings

What a finding says stands on one row: its wording, the text that would put things right and what it
says about other places. Besides dates and numbers, it quotes only what stands in a single line of the
text.

* `IsRow`: a text without a line feed.
* `Reading.isRow_of_mem_faults`: the wording of a fault, in a text with or without a journal.
* `Issue.IsInRows`: what an issue says, and under which name it refers to other places;
  `isInRows_of_mem_declared`: what the rules find.
* `isInRows_of_mem_findings`: every finding of a check. -/

namespace TimeJournal

open Text Lint

/-! ### Rows -/

/-- A text without a line feed. -/
def IsRow (s : String) : Prop := '\n' ∉ s.toList

instance : DecidablePred IsRow := fun s => inferInstanceAs (Decidable ('\n' ∉ s.toList))

theorem IsRow.append {s t : String} (hs : IsRow s) (ht : IsRow t) : IsRow (s ++ t) := by
  unfold IsRow
  rw [String.toList_append, List.mem_append, not_or]
  exact ⟨hs, ht⟩

theorem isRow_ofList {s : List Char} (h : '\n' ∉ s) : IsRow (String.ofList s) := by
  unfold IsRow
  rwa [String.toList_ofList]

theorem isRow_of_isPlain {s : String} (h : ∀ c ∈ s.toList, c ≠ '\r' ∧ c ≠ '\n') : IsRow s :=
  fun hfeed => (h _ hfeed).2 rfl

theorem isRow_repr (n : ℕ) : IsRow (Nat.repr n) := fun hfeed =>
  absurd (Json.isOneLine_repr n _ hfeed) (by decide)

theorem Date.isRow_toString (d : Date) : IsRow d.toString :=
  isRow_of_isPlain fun _ hc => isPlain_of_isSpace (Date.isSpace_toString hc)

theorem Hours.isRow_render (seconds : ℕ) : IsRow (Hours.render seconds) :=
  isRow_of_isPlain (isPlain_of_isShaped (Hours.isShaped_of_isDecimal (Hours.isDecimal_render seconds)))

/-! ### Faults -/

theorem Date.Defect.isRow_message (d : Defect) : IsRow d.message := by
  cases d with
  | year value => exact (IsRow.append (by decide) (isRow_repr value)).append (by decide)
  | month => decide
  | day => decide

/-- A text that is no date is quoted. -/
theorem Date.isRow_of_parse {text : String} {fault : Fault} (h : parse text = .error fault)
    (htext : IsRow text) : IsRow fault.message := by
  unfold parse at h
  split at h
  · rw [← Except.error.inj h]
    exact (IsRow.append (by decide) htext).append (by decide)
  · split at h
    · cases h
    · rename_i defect _
      rw [← Except.error.inj h]
      exact ((IsRow.append (by decide) htext).append (by decide)).append defect.isRow_message

theorem ParseCause.isRow_expected (c : ParseCause) :
    IsRow (String.intercalate ", " (c.expected.map ParseFault.quoted)) := by
  cases c with
  | badDate fault =>
    show IsRow (String.intercalate ", " (["YYYY-MM-DD"].map ParseFault.quoted))
    decide
  | badDuration token =>
    show IsRow (String.intercalate ", " (["decimal hours"].map ParseFault.quoted))
    decide
  | noBlank gap => exact (by decide : IsRow "")
  | described message => exact (by decide : IsRow "")
  | _ => decide

theorem ParseFault.isRow_describe {f : ParseFault} (h : IsRow f.message) : IsRow f.describe := by
  unfold describe
  split_ifs
  · exact h
  · exact ((h.append (by decide)).append f.cause.isRow_expected).append (by decide)

/-- What can be missing in a line that is no entry. -/
theorem EntryText.cause_of_readAfterDash {start : ℕ} {s : List Char} {fault : ParseFault}
    (h : readAfterDash start s = .error fault) : fault.cause ∈ [ParseCause.noBlank .afterDash,
      .malformedTime, .noRangeDash, .noBlank .afterRange, .noDuration] := by
  simp only [readAfterDash] at h
  split at h
  · rw [← Except.error.inj h]; simp [faultAt]
  split at h
  · rw [← Except.error.inj h]; simp [faultAt]
  split at h
  swap
  · rw [← Except.error.inj h]; simp [faultAt]
  split at h
  · rw [← Except.error.inj h]; simp [faultAt]
  split at h
  · rw [← Except.error.inj h]; simp [faultAt]
  split at h
  · rw [← Except.error.inj h]; simp
  · cases h

/-- **What is wrong with a line of the body is said on one row.** -/
theorem isRow_of_bodyFault? {l : Line} {f : ParseFault} (hl : '\n' ∉ l.content)
    (h : bodyFault? l = some f) : IsRow f.message := by
  unfold bodyFault? BodyLine.read at h
  by_cases hlooks : looksLikeEntry l.content = true
  swap
  · rw [if_neg hlooks] at h
    cases h
  rw [if_pos hlooks] at h
  rcases hread : EntryText.readAfterDash l.start (l.content.drop 1) with fault | t
  · rw [hread] at h
    rw [← Option.some.inj h]
    have hmissing : ∀ c ∈ [ParseCause.noBlank .afterDash, .malformedTime, .noRangeDash,
        .noBlank .afterRange, .noDuration], IsRow c.message := by decide
    exact hmissing _ (EntryText.cause_of_readAfterDash hread)
  · rw [hread] at h
    change (EntryText.readDuration (t.durationAt l.start) t.duration.text).2 = some f at h
    unfold EntryText.readDuration at h
    split at h
    · cases h
    · rw [← Option.some.inj h]
      -- the literal of the duration is part of the line
      have hchars := EntryText.chars_of_readAfterDash hread
      have hliteral : '\n' ∉ t.duration.text := by
        intro hfeed
        have hmem : '\n' ∈ '-' :: l.content.drop 1 := by
          rw [← hchars]
          simp [EntryText.chars, Word.chars, hfeed]
        rcases List.mem_cons.mp hmem with hdash | hmem
        · cases hdash
        · exact hl (List.mem_of_mem_drop hmem)
      exact (IsRow.append (by decide) (isRow_ofList hliteral)).append (by decide)

/-- The value of a field stands on one row. -/
theorem isRow_of_holdsField {l : Line} {key : FieldKey} {p : Located String} (hl : '\n' ∉ l.content)
    (h : l.HoldsField key p) : IsRow p.value := by
  obtain ⟨t, -, -, hchars, rfl⟩ := h
  rw [← hchars] at hl
  exact isRow_ofList fun hfeed => hl (by simp [FieldText.chars, hfeed])

/-- **What is wrong with a line of the block is said on one row.** -/
theorem isRow_of_blockFault? {l : Line} {f : ParseFault} (hl : '\n' ∉ l.content)
    (h : blockFault? l = some f) : IsRow f.message := by
  rcases BlockLine.reports_iff.mpr h with _ | _ | _ | ⟨hfield, hdate⟩ | _
  · exact IsRow.append (by decide) (Date.isRow_of_parse hdate (isRow_of_holdsField hl hfield))
  · exact (by decide : IsRow ParseCause.unexpectedFrontMatterLine.message)

namespace Block

variable {start stop : ℕ} {ls : List Line} {f : ParseFault}

/-- A fault inside a block is one of its lines. -/
theorem exists_blockFault (h : f ∈ (ofLines start stop ls).faults) :
    ∃ l ∈ ls, blockFault? l = some f := by
  rcases ls with _ | ⟨opening, rest⟩
  · cases h
  by_cases hopen : isDelimiter opening.content = true
  · have hfaults : (ofLines start stop (opening :: rest)).faults =
        ((rest.takeWhile fun l => !isDelimiter l.content).map BlockLine.read).filterMap
          BlockLine.fault? := by
      simp only [ofLines, if_pos hopen]
      split <;> rfl
    rw [hfaults, List.filterMap_map] at h
    obtain ⟨l, hl, hlf⟩ := List.mem_filterMap.mp h
    exact ⟨l, List.mem_cons_of_mem _ ((List.takeWhile_prefix _).subset hl), hlf⟩
  · rw [Bool.not_eq_true] at hopen
    rw [ofLines_missing start stop rest hopen] at h
    cases h

/-- Where there is no block, a delimiter is missing. -/
theorem cause_of_outcome (h : (ofLines start stop ls).outcome = .error f) :
    f.cause ∈ [ParseCause.noOpeningDelimiter, .unterminatedFrontMatter] := by
  rcases ls with _ | ⟨opening, rest⟩
  · rw [← Except.error.inj h]; simp
  by_cases hopen : isDelimiter opening.content = true
  · simp only [ofLines, if_pos hopen] at h
    split at h
    · cases h
    · rw [← Except.error.inj h]; simp
  · rw [Bool.not_eq_true] at hopen
    rw [ofLines_missing start stop rest hopen] at h
    rw [← Except.error.inj h]; simp

end Block

namespace Reading

variable {start size : ℕ} {ls : List Line} {f : ParseFault}

theorem isRow_of_mem_ofLines (hls : ∀ l ∈ ls, '\n' ∉ l.content)
    (h : f ∈ (ofLines start size ls).faults) : IsRow f.message := by
  have hblock : ∀ f ∈ (Block.ofLines start size ls).faults, IsRow f.message := by
    intro f hf
    obtain ⟨l, hl, hlf⟩ := Block.exists_blockFault hf
    exact isRow_of_blockFault? (hls l hl) hlf
  rcases houtcome : (Block.ofLines start size ls).outcome with fault | ⟨part, closing, body⟩
  · rw [(ofLines_of_error houtcome).2] at h
    rcases List.mem_cons.mp h with rfl | h
    · have hmissing : ∀ c ∈ [ParseCause.noOpeningDelimiter, .unterminatedFrontMatter],
          IsRow c.message := by decide
      exact hmissing _ (Block.cause_of_outcome houtcome)
    · exact hblock f h
  · obtain ⟨opening, inner, rfl, -, -, -⟩ := exists_sections houtcome
    simp only [ofLines, houtcome] at h
    rcases List.mem_append.mp h with h | h
    · exact hblock f h
    · rw [List.filterMap_map] at h
      obtain ⟨l, hl, hlf⟩ := List.mem_filterMap.mp h
      exact isRow_of_bodyFault? (hls l (by simp [hl])) hlf

/-- **The wording of a fault stands on one row**, in every text. -/
theorem isRow_of_mem_faults {text : List Char} (h : f ∈ (ofText text).faults) :
    IsRow f.message := by
  obtain ⟨marked, r, rfl, hmark⟩ := exists_mark text
  rw [ofText_mark marked r hmark] at h
  refine isRow_of_mem_ofLines (fun l hl => ?_) h
  obtain ⟨before, after, hls⟩ := List.append_of_mem hl
  have hcut := isCut_lines marked.toNat r
  rw [hls] at hcut
  exact hcut.of_append.2.1.noFeed

end Reading

/-! ### Times -/

/-- A time that does not resolve is quoted, and perhaps its hour. -/
theorem TimeToken.isRow_of_resolve {t : TimeToken} {d : Date} {fault : TimeFault}
    (h : t.resolve d = .error fault) (ht : IsRow t.raw) : IsRow fault.message := by
  obtain ⟨rfl, hfirst, -⟩ := resolve_eq_error_iff.mp h
  have hreason : IsRow fault.kind.reason := by
    rcases hkind : fault.kind with _ | _ | _ | _ | ⟨hour, reference⟩
    · decide
    · decide
    · decide
    · decide
    rw [hkind] at hfirst
    obtain ⟨digits, minute, hfields, rfl, rfl⟩ := hfirst.eq_of_dateOverflow
    have hdigits : '\n' ∉ digits := by
      have hraw : [':'].intercalate fault.token.fields = fault.token.raw.toList :=
        List.intercalate_splitOn ':'
      rw [hfields, List.intercalate_cons_cons, List.intercalate_singleton, List.append_assoc] at hraw
      unfold IsRow at ht
      rw [← hraw] at ht
      exact fun hfeed => ht (List.mem_append_left _ hfeed)
    exact ((IsRow.append (by decide) (isRow_ofList hdigits)).append (by decide)).append
      (Date.isRow_toString _)
  exact ((hreason.append (by decide)).append ht).append (by decide)

/-! ### Issues -/

/-- What an issue says stands on one row each, and it refers to other places under one name. -/
structure Issue.IsInRows (i : Issue) (uri : String) : Prop where
  message : IsRow i.message
  suggestion : ∀ s ∈ i.suggestion, IsRow s
  related : ∀ o ∈ i.related, IsRow o.message ∧ o.uri = uri

namespace Issue

variable {uri : String} {t : TimeToken}

/-- An issue that suggests nothing and refers to no other place. -/
theorem isInRows_of_message {i : Issue} (hsuggestion : i.suggestion = none) (hrelated : i.related = [])
    (h : IsRow i.message) : i.IsInRows uri where
  message := h
  suggestion s hs := by rw [hsuggestion] at hs; cases hs
  related o ho := by rw [hrelated] at ho; cases ho

theorem isInRows_parse {f : ParseFault} (h : IsRow f.message) : (parse f).IsInRows uri :=
  isInRows_of_message rfl rfl (IsRow.append (by decide) (ParseFault.isRow_describe h))

theorem isInRows_dateMismatch (expected : Date) : (dateMismatch expected).IsInRows uri where
  message := IsRow.append (by decide) expected.isRow_toString
  suggestion s hs := by rw [← Option.some.inj hs]; exact expected.isRow_toString
  related o ho := nomatch ho

theorem isInRows_startMismatch (ht : IsRow t.raw) : (startMismatch t).IsInRows uri :=
  isInRows_of_message rfl rfl ((IsRow.append (by decide) ht).append (by decide))

theorem isInRows_stopMismatch (ht : IsRow t.raw) (place : Span) :
    (stopMismatch t uri place).IsInRows uri where
  message := IsRow.append (by decide) ((IsRow.append (by decide) ht).append (by decide))
  suggestion s hs := nomatch hs
  related o ho := by
    rw [List.mem_singleton.mp ho]
    exact ⟨(IsRow.append (by decide) ht).append (by decide), rfl⟩

theorem isInRows_missing (field : FieldKey) : (missing field).IsInRows uri :=
  isInRows_of_message rfl rfl (by cases field <;> decide)

theorem isInRows_invalidStart {fault : TimeFault} (h : IsRow fault.message) :
    (invalidStart fault).IsInRows uri :=
  isInRows_of_message rfl rfl (IsRow.append (by decide) h)

theorem isInRows_invalidStop {fault : TimeFault} (h : IsRow fault.message) :
    (invalidStop fault).IsInRows uri :=
  isInRows_of_message rfl rfl (IsRow.append (by decide) h)

theorem isInRows_timeJumped (ht : IsRow t.raw) (place : Span) :
    (timeJumped t uri place).IsInRows uri where
  message := IsRow.append (by decide) (IsRow.append (by decide) ht)
  suggestion s hs := by rw [← Option.some.inj hs]; exact ht
  related o ho := by
    rw [List.mem_singleton.mp ho]
    exact ⟨IsRow.append (by decide) ht, rfl⟩

theorem isInRows_negativeRange (ht : IsRow t.raw) : (negativeRange t).IsInRows uri :=
  isInRows_of_message rfl rfl ((IsRow.append (by decide) ht).append (by decide))

theorem isInRows_incorrectDuration (seconds : ℕ) : (incorrectDuration seconds).IsInRows uri where
  message := IsRow.append (by decide) (Hours.isRow_render seconds)
  suggestion s hs := by rw [← Option.some.inj hs]; exact Hours.isRow_render seconds
  related o ho := nomatch ho

end Issue

/-! ### Findings -/

section Declared

variable {text : List Char} {j : Journal} (hj : (Reading.ofText text).journal = some j)
include hj

theorem isRow_of_mem_parts {p : Located String} (hp : p ∈ j.frontMatter.parts) : IsRow p.value := by
  obtain ⟨D, -, rfl⟩ := exists_document hj
  obtain ⟨f, hf, rfl⟩ := exists_field_of_mem_parts hp
  obtain ⟨l, hl, hread⟩ := D.exists_line_of_field hf
  have hwhole := D.areLines.isWhole_of_mem (List.mem_cons_of_mem _ (List.mem_append_left _ hl))
  exact isRow_of_holdsField hwhole.noFeed (BlockLine.exists_read_iff.mp ⟨f, hread, rfl, rfl⟩)

theorem isRow_of_mem_slot {t : Located TimeToken}
    (h : t ∈ j.frontMatter.start ∨ t ∈ j.frontMatter.stop) : IsRow t.value.raw :=
  isRow_of_mem_parts hj (FrontMatter.literal_mem_parts h)

theorem isRow_of_mem_entries {e : Entry} (he : e ∈ j.entries) :
    IsRow e.start.value.raw ∧ IsRow e.stop.value.raw := by
  obtain ⟨D, -, rfl⟩ := exists_document hj
  obtain ⟨l, -, hread⟩ := D.exists_line_of_mem he
  obtain ⟨t, ht, -, rfl⟩ := BodyLine.exists_entryText hread
  have hparts := t.hasParts_toEntry l.start
  refine ⟨isRow_of_isPlain ?_, isRow_of_isPlain ?_⟩
  · rw [hparts.start]
    exact ht.start_isTime.isPlain
  · rw [hparts.stop]
    exact ht.stop_isTime.isPlain

variable {settings : Settings} {f : Finding}

/-- **What the rules find in a journal is said on one row.** -/
theorem isInRows_of_mem_declared (hf : f ∈ declared settings j) :
    f.issue.IsInRows settings.uri := by
  have hstart := fun {e} (he : e ∈ j.entries) => (isRow_of_mem_entries hj he).1
  have hstop := fun {e} (he : e ∈ j.entries) => (isRow_of_mem_entries hj he).2
  cases Finding.origin_of_mem_declared hf with
  | dateMismatch => exact Issue.isInRows_dateMismatch _
  | dayStart ht hrefused =>
    obtain ⟨d, -, hfault⟩ := hrefused
    exact Issue.isInRows_invalidStart
      (TimeToken.isRow_of_resolve hfault (isRow_of_mem_slot hj (Or.inl ht)))
  | dayStop ht hrefused =>
    obtain ⟨d, -, hfault⟩ := hrefused
    exact Issue.isInRows_invalidStop
      (TimeToken.isRow_of_resolve hfault (isRow_of_mem_slot hj (Or.inr ht)))
  | missing field => exact Issue.isInRows_missing field
  | entryStart he hrefused =>
    obtain ⟨d, -, hfault⟩ := hrefused
    exact Issue.isInRows_invalidStart (TimeToken.isRow_of_resolve hfault (hstart he))
  | entryStop he hrefused =>
    obtain ⟨d, -, hfault⟩ := hrefused
    exact Issue.isInRows_invalidStop (TimeToken.isRow_of_resolve hfault (hstop he))
  | startMismatch he _ => exact Issue.isInRows_startMismatch (hstart he)
  | jumped hlink _ =>
    obtain ⟨before, hbefore, rfl⟩ := Journal.exists_of_mem_chain hlink
    exact Issue.isInRows_timeJumped (hstop hbefore) _
  | negativeRange he => exact Issue.isInRows_negativeRange (hstart he)
  | incorrectDuration => exact Issue.isInRows_incorrectDuration _
  | stopMismatch he _ => exact Issue.isInRows_stopMismatch (hstop he) _

end Declared

/-- **What a check finds is said on one row**, and other places are referred to under the name of the
document. -/
theorem isInRows_of_mem_findings {source : Option String} {text : String} {checked : Checked}
    (hcheck : check source text = .ok checked) {f : Finding} (hf : f ∈ checked.findings) :
    f.issue.IsInRows (source.getD "") := by
  have hfaults : ∀ f ∈ (Reading.ofText text.toList).faults.map Finding.ofFault,
      f.issue.IsInRows (source.getD "") := by
    intro f hf
    obtain ⟨fault, hfault, rfl⟩ := List.mem_map.mp hf
    exact Issue.isInRows_parse (Reading.isRow_of_mem_faults hfault)
  rcases hj : (Reading.ofText text.toList).journal with _ | j
  · rw [check_of_none hj (length_le_of_check hcheck)] at hcheck
    rw [← Except.ok.inj hcheck, Checked.findings, List.append_nil] at hf
    exact hfaults f hf
  · obtain ⟨fileDate, -, rfl⟩ := exists_of_check hcheck hj
    rcases List.mem_append.mp hf with hf | hf
    · exact hfaults f hf
    · exact isInRows_of_mem_declared hj hf

end TimeJournal
