import TimeJournal.Proofs.Edit.LineEdit
import TimeJournal.Proofs.Journal.Setting

/-! # Edits of an entry

The start time of an entry, or its duration, is replaced in the line of the entry: `startEdit` and
`durationEdit` are these edits. What the line is read as afterwards is the old entry with that part
set and all spans moved.

* `EntryText.toEntry_withStart`, `EntryText.toEntry_withDuration`: the parts of the line then. -/

namespace TimeJournal

open Text

/-- A digit ends no line. -/
theorem isPlain_of_isDigit {c : Char} (h : c.isDigit = true) : c ≠ '\r' ∧ c ≠ '\n' := by
  constructor
  · rintro rfl; exact absurd h (by decide)
  · rintro rfl; exact absurd h (by decide)

theorem IsTime.isPlain {s : List Char} (h : IsTime s) : ∀ c ∈ s, c ≠ '\r' ∧ c ≠ '\n' := by
  obtain ⟨hour, minute, rfl, -, -, hh, hm⟩ := h
  intro c hc
  rw [List.mem_append, List.mem_cons] at hc
  rcases hc with hc | rfl | hc
  · exact isPlain_of_isDigit (hh c hc)
  · decide
  · exact isPlain_of_isDigit (hm c hc)

theorem isPlain_of_isShaped {s : List Char} (h : Hours.isShaped s = true) :
    ∀ c ∈ s, c ≠ '\r' ∧ c ≠ '\n' := by
  intro c hc
  have hl := (Hours.isShaped_iff.mp h).2 c hc
  rw [Hours.isLiteralChar, Bool.or_eq_true, beq_iff_eq] at hl
  rcases hl with hd | rfl
  · exact isPlain_of_isDigit hd
  · decide

namespace EntryText

variable {l : Line} {t : EntryText}

/-- The edit that replaces the start time. -/
def startEdit (hl : l.content = t.chars) (ht : t.IsEntry) {token : List Char} (h : IsTime token) :
    LineEdit l where
  front := '-' :: t.lead
  old := t.start
  new := token
  back := '-' :: (t.stop ++ t.gap ++ t.codes.flatMap Word.chars ++ t.duration.chars ++ t.activity)
  content_eq := by rw [hl, chars]; simp only [List.cons_append, List.append_assoc]
  old_ne_nil := ht.start_isTime.ne_nil
  new_ne_nil := h.ne_nil
  new_plain := h.isPlain

/-- The edit that replaces the duration. -/
def durationEdit (hl : l.content = t.chars) (ht : t.IsEntry) {literal : List Char}
    (h : Hours.isShaped literal = true) : LineEdit l where
  front := '-' :: (t.lead ++ t.start ++ '-' :: (t.stop ++ t.gap ++ t.codes.flatMap Word.chars))
  old := t.duration.text
  new := literal
  back := t.duration.gap ++ t.activity
  content_eq := by
    rw [hl, chars]
    simp only [Word.chars, List.cons_append, List.append_assoc]
  old_ne_nil := (fits_of_takeCodes ht.codes_fit).text_ne_nil
  new_ne_nil := (Hours.isShaped_iff.mp h).1
  new_plain := isPlain_of_isShaped h

section Start

variable (hl : l.content = t.chars) (ht : t.IsEntry) {token : List Char} (h : IsTime token)

theorem startEdit_edit : (startEdit hl ht h).edit =
    ⟨Span.ofLength (t.startAt l.start) t.start.length, String.ofList token⟩ := by
  simp only [LineEdit.edit, startEdit, startAt, List.length_cons, Nat.add_assoc, Nat.add_comm 1]

theorem startEdit_content : (startEdit hl ht h).content = (t.withStart token).chars := by
  simp only [LineEdit.content, startEdit, withStart, chars, List.cons_append, List.append_assoc]

end Start

section Duration

variable (hl : l.content = t.chars) (ht : t.IsEntry) {literal : List Char}
  (h : Hours.isShaped literal = true)

theorem durationEdit_edit : (durationEdit hl ht h).edit =
    ⟨Span.ofLength (t.durationAt l.start) t.duration.text.length, String.ofList literal⟩ := by
  have hfront : l.start + (durationEdit hl ht h).front.length = t.durationAt l.start := by
    simp only [durationEdit, durationAt, codesAt, stopAt, startAt, List.length_cons,
      List.length_append]
    omega
  simp only [LineEdit.edit, hfront]
  rfl

theorem durationEdit_content :
    (durationEdit hl ht h).content = (t.withDuration literal).chars := by
  simp only [LineEdit.content, durationEdit, withDuration, chars, Word.chars, List.cons_append,
    List.append_assoc]

end Duration

/-! ### The entry after an edit -/

/-- The entry after its start time was replaced. -/
theorem toEntry_withStart (t : EntryText) (hne : t.start ≠ []) (start : ℕ) (token : List Char) :
    let e : TextEdit := ⟨Span.ofLength (t.startAt start) t.start.length, String.ofList token⟩
    (t.withStart token).toEntry start =
      ((Entry.withStart ⟨String.ofList token⟩ (t.toEntry start).1).move e.move,
        (t.toEntry start).2.map (ParseFault.move e.move)) := by
  intro e
  have hlt : e.span.start < e.span.stop := by
    have := List.length_pos_iff.mpr hne
    show t.startAt start < t.startAt start + t.start.length
    omega
  have hbefore : e.move start = start :=
    TextEdit.move_of_le hlt (by show start ≤ t.startAt start; unfold startAt; omega)
  have hafter : ∀ p, t.startAt start + t.start.length ≤ p →
      e.move p = p - t.start.length + token.length := by
    intro p hp
    rw [TextEdit.move_after hp]
    simp [e, Span.length]
  have hstop : t.startAt start + t.start.length ≤ t.stopAt start := by unfold stopAt; omega
  have hcodes : t.startAt start + t.start.length ≤ t.codesAt start := by unfold codesAt; omega
  have hduration : t.startAt start + t.start.length ≤ t.durationAt start := by
    unfold durationAt; omega
  have hactivity : t.startAt start + t.start.length ≤ t.activityAt start := by
    unfold activityAt; omega
  have hend : t.startAt start + t.start.length ≤ t.endAt start := by unfold endAt; omega
  have hstop' : e.move (t.stopAt start) = (t.withStart token).stopAt start := by
    rw [hafter _ hstop]; simp only [stopAt, startAt, withStart]; omega
  have hcodes' : e.move (t.codesAt start) = (t.withStart token).codesAt start := by
    rw [hafter _ hcodes]; simp only [codesAt, stopAt, startAt, withStart]; omega
  have hduration' : e.move (t.durationAt start) = (t.withStart token).durationAt start := by
    rw [hafter _ hduration]; simp only [durationAt, codesAt, stopAt, startAt, withStart]; omega
  have hactivity' : e.move (t.activityAt start) = (t.withStart token).activityAt start := by
    rw [hafter _ hactivity]
    simp only [activityAt, durationAt, codesAt, stopAt, startAt, withStart]; omega
  have hend' : e.move (t.endAt start) = (t.withStart token).endAt start := by
    rw [hafter _ hend]
    simp only [endAt, activityAt, durationAt, codesAt, stopAt, startAt, withStart]; omega
  have hspan : (Span.ofLength (t.startAt start) t.start.length).move e.move =
      Span.ofLength (t.startAt start) token.length := by
    rw [TextEdit.move_span hlt, TextEdit.newSpan, String.length_ofList]
    rfl
  have hspan' : (⟨start, t.endAt start, t.le_endAt start⟩ : Span).move e.move =
      ⟨start, (t.withStart token).endAt start, (t.withStart token).le_endAt start⟩ :=
    Span.ext hbefore hend'
  have hwords := locateWords_move
    (TextEdit.rigid_after (e := e) hcodes (t.codes.flatMap Word.chars).length) t.codes (k := 0)
    (by omega)
  have hread := readDuration_move (TextEdit.rigid_after (e := e) hduration t.duration.text.length)
    t.duration.text (k := 0) (by omega)
  rw [Nat.add_zero, Nat.add_zero, hcodes'] at hwords
  rw [Nat.add_zero, Nat.add_zero, hduration'] at hread
  have hliteral : (t.withStart token).duration = t.duration := rfl
  simp only [toEntry, hliteral, hread, Entry.withStart, Entry.move, locateTime, locate,
    Located.move, hspan, hspan', hwords, TextEdit.ofLength_after (e := e) hstop, hstop',
    TextEdit.ofLength_after (e := e) hactivity, hactivity']
  rfl

theorem readDuration_of_seconds {place seconds : ℕ} {literal : List Char}
    (h : Hours.seconds? literal = some seconds) : readDuration place literal =
      (.read ⟨seconds, String.ofList literal, Span.ofLength place literal.length⟩, none) := by
  unfold readDuration
  rw [h]

theorem exists_seconds {place : ℕ} {literal : List Char} {d : Duration}
    (h : (readDuration place literal).1.part? = some d) :
    ∃ seconds, Hours.seconds? literal = some seconds := by
  unfold readDuration at h
  rcases hs : Hours.seconds? literal with _ | seconds
  · rw [hs] at h; cases h
  · exact ⟨seconds, rfl⟩

/-- The entry after its duration was replaced. -/
theorem toEntry_withDuration (t : EntryText) (hne : t.duration.text ≠ []) (start : ℕ) {d : Duration}
    (hd : (t.toEntry start).1.duration.part? = some d) {literal : List Char} {seconds : ℕ}
    (hs : Hours.seconds? literal = some seconds) :
    let e : TextEdit :=
      ⟨Span.ofLength (t.durationAt start) t.duration.text.length, String.ofList literal⟩
    (t.withDuration literal).toEntry start =
      ((Entry.withDuration seconds (String.ofList literal) (t.toEntry start).1).move e.move,
        (t.toEntry start).2.map (ParseFault.move e.move)) := by
  intro e
  have hlt : e.span.start < e.span.stop := by
    have := List.length_pos_iff.mpr hne
    show t.durationAt start < t.durationAt start + t.duration.text.length
    omega
  have hle : start + (t.lead.length + t.start.length + t.stop.length) ≤ t.codesAt start := by
    unfold codesAt stopAt startAt; omega
  have hcodes : t.codesAt start + (t.codes.flatMap Word.chars).length ≤ t.durationAt start := le_rfl
  have hbefore : e.move start = start :=
    TextEdit.move_of_le hlt (by show start ≤ t.durationAt start; omega)
  have hstart : t.startAt start + t.start.length ≤ t.durationAt start := by
    unfold durationAt codesAt stopAt; omega
  have hstop : t.stopAt start + t.stop.length ≤ t.durationAt start := by
    unfold durationAt codesAt; omega
  have hafter : ∀ p, t.durationAt start + t.duration.text.length ≤ p →
      e.move p = p - t.duration.text.length + literal.length := by
    intro p hp
    rw [TextEdit.move_after hp]
    simp [e, Span.length]
  have hactivity : t.durationAt start + t.duration.text.length ≤ t.activityAt start := by
    unfold activityAt Word.size; omega
  have hend : t.durationAt start + t.duration.text.length ≤ t.endAt start := by unfold endAt; omega
  have hactivity' : e.move (t.activityAt start) = (t.withDuration literal).activityAt start := by
    rw [hafter _ hactivity]
    simp only [activityAt, durationAt, codesAt, stopAt, startAt, Word.size, withDuration]; omega
  have hend' : e.move (t.endAt start) = (t.withDuration literal).endAt start := by
    rw [hafter _ hend]
    simp only [endAt, activityAt, durationAt, codesAt, stopAt, startAt, Word.size, withDuration]
    omega
  have hspan : (Span.ofLength (t.durationAt start) t.duration.text.length).move e.move =
      Span.ofLength (t.durationAt start) literal.length := by
    rw [TextEdit.move_span hlt, TextEdit.newSpan, String.length_ofList]
    rfl
  have hspan' : (⟨start, t.endAt start, t.le_endAt start⟩ : Span).move e.move =
      ⟨start, (t.withDuration literal).endAt start, (t.withDuration literal).le_endAt start⟩ :=
    Span.ext hbefore hend'
  have hwords := locateWords_move (TextEdit.rigid_before hlt hcodes) t.codes (k := 0) (by omega)
  have hcodesAt : e.move (t.codesAt start) = t.codesAt start :=
    TextEdit.move_of_le hlt (show t.codesAt start ≤ t.durationAt start by omega)
  rw [Nat.add_zero, Nat.add_zero, hcodesAt] at hwords
  obtain ⟨seconds₀, hs₀⟩ := exists_seconds hd
  have hliteral : (t.withDuration literal).duration.text = literal := rfl
  simp only [toEntry, readDuration_of_seconds hs₀, readDuration_of_seconds hs, hliteral,
    Entry.withDuration, Recovered.map, Entry.move, Recovered.move, Duration.move, locateTime,
    locate, Located.move, hspan, hspan', hwords, TextEdit.ofLength_before hlt hstart,
    TextEdit.ofLength_before hlt hstop, TextEdit.ofLength_after (e := e) hactivity, hactivity']
  rfl

end EntryText

end TimeJournal
