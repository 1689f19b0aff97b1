import TimeJournal.Proofs.Edit.DocumentEdit
import TimeJournal.Proofs.Edit.EntryEdit
import TimeJournal.Proofs.Edit.FieldEdit

/-! # Reading an edited text

When the span of a date, a start time or a duration of a journal is replaced by a text of the same
kind, the new text is read as the old journal with that part set and everything behind it moved.

* `Rereads`: what is said about the text before and after such an edit.
* `rereads`: every part that a journal has can be set by an edit of its text. -/

namespace TimeJournal

open Text

/-- The text `s` with the journal `j` is read, after the edit `e`, as the journal with the part `x`
set. -/
structure Rereads (s : List Char) (j : Journal) (x : Setting) (e : TextEdit) : Prop where
  start_lt_stop : e.span.start < e.span.stop
  stop_le_length : e.span.stop ≤ s.length
  journal : (Reading.ofText (TextEdit.splice e.span e.newText.toList s)).journal =
    some ((j.set x).move e.move)
  faults : (Reading.ofText (TextEdit.splice e.span e.newText.toList s)).faults =
    (Reading.ofText s).faults.map (ParseFault.move e.move)

/-! ### The entry of a line -/

namespace Document

variable (D : Document)

theorem exists_bodyLine {i : ℕ} {a : Entry} (h : D.journal.entryAt? i = some a) :
    ∃ before l after, D.body = before ++ l :: after ∧ before.length = i ∧
      (readLine l).1 = .entry a := by
  obtain ⟨front, back, hlines, hi⟩ := Journal.exists_lines h
  have hbody : D.body.map (fun l => (readLine l).1) = front ++ .entry a :: back := by
    rw [← hlines]
    exact (List.map_map).symm
  obtain ⟨before, rest, hD, rfl, hrest⟩ := List.map_eq_append_iff.mp hbody
  obtain ⟨l, after, rfl, hl, -⟩ := List.map_eq_cons_iff.mp hrest
  exact ⟨before, l, after, hD, by rw [← hi, List.length_map], hl⟩

/-- An edit of a line that is an entry before and after. -/
theorem rereads_body {before after : List Line} {l : Line} (h : D.body = before ++ l :: after)
    (E : LineEdit l) {a : Entry} {fault : Option ParseFault} (hl : readLine l = (.entry a, fault))
    {f : Entry → Entry} {x : Setting} (hx : D.journal.set x = D.journal.mapLine before.length f)
    (hread : BodyLine.read l.start E.content =
      (.entry ((f a).move E.edit.move), fault.map (ParseFault.move E.edit.move))) :
    Rereads D.text D.journal x E.edit where
  start_lt_stop := E.start_lt_stop
  stop_le_length := D.stop_le_body h E
  journal := by
    have hentry : (readLine l).1 = .entry a := by rw [hl]
    rw [← D.text_editBody h E, journal_ofText, hx,
      D.journal_editBody h E hentry (f := f) (by rw [hread])]
  faults := by
    rw [← D.text_editBody h E, faults_ofText, faults_ofText,
      D.faults_editBody h E (by rw [hread, hl])]

theorem readLine_of_isEntry {l : Line} {t : EntryText} (h : t.IsEntry) (hl : t.chars = l.content) :
    readLine l = (.entry (t.toEntry l.start).1, (t.toEntry l.start).2) := by
  rw [readLine, ← hl, h.read]

theorem rereads_start {i : ℕ} {a : Entry} (ha : D.journal.entryAt? i = some a) {token : TimeToken}
    (ht : IsTime token.raw.toList) :
    Rereads D.text D.journal (.start i token) ⟨a.start.span, token.raw⟩ := by
  obtain ⟨before, l, after, hbody, rfl, hl⟩ := D.exists_bodyLine ha
  obtain ⟨t, hentry, hchars, rfl⟩ := BodyLine.exists_entryText hl
  let E := EntryText.startEdit hchars.symm hentry ht
  have hE : E.edit = ⟨Span.ofLength (t.startAt l.start) t.start.length,
      String.ofList token.raw.toList⟩ := EntryText.startEdit_edit hchars.symm hentry ht
  have hread := (hentry.withStart ht).read l.start
  rw [← EntryText.startEdit_content hchars.symm hentry ht,
    t.toEntry_withStart hentry.start_isTime.ne_nil l.start token.raw.toList, ← hE] at hread
  have h := D.rereads_body hbody E (readLine_of_isEntry hentry hchars)
    (f := Entry.withStart token) (x := .start before.length token) rfl
    (by rw [hread, String.ofList_toList])
  rw [hE, String.ofList_toList] at h
  exact h

theorem rereads_duration {i : ℕ} {a : Entry} (ha : D.journal.entryAt? i = some a) {d : Duration}
    (hd : a.duration.part? = some d) {seconds : ℕ} {raw : String}
    (hdecimal : Hours.isDecimal raw.toList = true)
    (hs : Hours.seconds? raw.toList = some seconds) :
    Rereads D.text D.journal (.duration i seconds raw) ⟨d.span, raw⟩ := by
  obtain ⟨before, l, after, hbody, rfl, hl⟩ := D.exists_bodyLine ha
  obtain ⟨t, hentry, hchars, rfl⟩ := BodyLine.exists_entryText hl
  have hshaped := Hours.isShaped_of_isDecimal hdecimal
  have hne := (fits_of_takeCodes hentry.codes_fit).text_ne_nil
  let E := EntryText.durationEdit hchars.symm hentry hshaped
  have hE : E.edit = ⟨Span.ofLength (t.durationAt l.start) t.duration.text.length,
      String.ofList raw.toList⟩ := EntryText.durationEdit_edit hchars.symm hentry hshaped
  have hspan : d.span = Span.ofLength (t.durationAt l.start) t.duration.text.length := by
    obtain ⟨seconds₀, hs₀⟩ := EntryText.exists_seconds hd
    have hpart : (EntryText.readDuration (t.durationAt l.start) t.duration.text).1.part? = some d :=
      hd
    rw [EntryText.readDuration_of_seconds hs₀] at hpart
    exact (congrArg Duration.span (Option.some.inj hpart)).symm
  have hread := (hentry.withDuration hdecimal).read l.start
  rw [← EntryText.durationEdit_content hchars.symm hentry hshaped,
    t.toEntry_withDuration hne l.start hd hs, ← hE] at hread
  have h := D.rereads_body hbody E (readLine_of_isEntry hentry hchars)
    (f := Entry.withDuration seconds raw) (x := .duration before.length seconds raw) rfl
    (by rw [hread, String.ofList_toList])
  rw [hE, String.ofList_toList] at h
  rw [hspan]
  exact h

/-! ### The date of the front matter -/

theorem exists_dateLine {old : Located Date} (h : D.journal.frontMatter.date? = some old) :
    ∃ before l after f, D.inner = before ++ l :: after ∧ BlockLine.read l = .field f ∧
      f.key = .date ∧ f.toDate = .read old ∧
      ∀ g ∈ (after.map BlockLine.read).filterMap BlockLine.field?, g.key ≠ .date := by
  obtain ⟨part, hpart, hread⟩ := Option.bind_eq_some_iff.mp h
  obtain ⟨f, hf, rfl⟩ := Option.map_eq_some_iff.mp hpart
  obtain ⟨front, back, hfields, hkey, hlast⟩ := exists_lastField hf
  have hinner : D.inner.filterMap (fun l => (BlockLine.read l).field?) = front ++ f :: back := by
    rw [← hfields, fields, blockLines, List.filterMap_map]
    rfl
  obtain ⟨before, rest, hD, -, hrest⟩ := List.filterMap_eq_append_iff.mp hinner
  obtain ⟨skipped, l, after, rfl, -, hl, hafter⟩ := List.filterMap_eq_cons_iff.mp hrest
  refine ⟨before ++ skipped, l, after, f, by rw [hD, List.append_assoc],
    BlockLine.field?_eq_some_iff.mp hl, hkey, Recovered.part?_eq_some_iff.mp hread, ?_⟩
  rw [List.filterMap_map,
    show BlockLine.field? ∘ BlockLine.read = fun l => (BlockLine.read l).field? from rfl, hafter]
  exact hlast

theorem fault?_of_parse {f : Field} {d : Date} (h : Date.parse f.value = .ok d) :
    (BlockLine.field f).fault? = none := by
  unfold BlockLine.fault?
  by_cases hkey : f.key = .date
  · simp only [if_pos hkey, h]
  · simp only [if_neg hkey]

theorem rereads_value {old : Located Date} (ho : D.journal.frontMatter.date? = some old)
    {value : String} (hvalue_ne : value.toList ≠ [])
    (hspace : ∀ c ∈ value.toList, isSpace c = false) {d : Date} (hvalue : Date.parse value = .ok d) :
    Rereads D.text D.journal (.date d) ⟨old.span, value⟩ := by
  obtain ⟨before, l, after, f, hinner, hread, hkey, hold, hlast⟩ := D.exists_dateLine ho
  obtain ⟨hparse, hspan⟩ := Field.parse_of_toDate hold
  have hfault : (BlockLine.read l).fault? = none := by
    rw [hread]
    exact fault?_of_parse hparse
  have hfault' : (BlockLine.field (f.withValue value)).fault? = none := fault?_of_parse hvalue
  obtain ⟨t, ht, rfl⟩ := BlockLine.exists_fieldText hread
  have hne : t.value ≠ [] := by
    intro hnil
    have hempty : Date.parse (String.ofList t.value) = .error (.layout "") := by rw [hnil]; rfl
    rw [hempty] at hparse
    cases hparse
  have hchars := (FieldText.chars_of_read ht).symm
  let E := FieldText.valueEdit hchars hne hvalue_ne hspace
  have hE : E.edit = ⟨Span.ofLength (l.start + t.valueOffset) t.value.length,
      String.ofList value.toList⟩ :=
    FieldText.valueEdit_edit hchars hne hvalue_ne hspace
  rw [String.ofList_toList] at hE
  have hdelimiter : isDelimiter E.content = false := by
    rw [FieldText.valueEdit_content hchars hne hvalue_ne hspace]
    exact (t.withValue _).chars_head.1
  have hnew := FieldText.read_valueEdit hchars hne hvalue_ne hspace ht
  rw [String.ofList_toList] at hnew
  have htext := D.text_editInner hinner E hdelimiter
  have h : Rereads D.text D.journal (.date d) E.edit :=
    { start_lt_stop := E.start_lt_stop
      stop_le_length := D.stop_le_inner hinner E
      journal := by
        rw [← htext, journal_ofText,
          D.journal_editInner hinner E hdelimiter hread hkey hold hlast hvalue hnew]
      faults := by
        rw [← htext, faults_ofText, faults_ofText,
          D.faults_editInner hinner E hdelimiter hfault hfault' hnew] }
  rw [hE] at h
  rw [hspan]
  exact h

theorem rereads_date {old : Located Date} (ho : D.journal.frontMatter.date? = some old) (d : Date) :
    Rereads D.text D.journal (.date d) ⟨old.span, d.toString⟩ :=
  D.rereads_value ho d.toList_toString_ne_nil (fun _ => Date.isSpace_toString) d.parse_toString

end Document

/-- **Every part of a journal is set by an edit of its text**, and all else is read as before, behind
the edit at other offsets. -/
theorem rereads {s : List Char} {j : Journal} (hj : (Reading.ofText s).journal = some j)
    {x : Setting} {span : Span} (hspan : j.partSpan? x = some span) (hx : x.IsWritten) :
    Rereads s j x ⟨span, x.text⟩ := by
  obtain ⟨D, rfl, rfl⟩ := exists_document hj
  cases x with
  | date d =>
    obtain ⟨old, hold, rfl⟩ := Option.map_eq_some_iff.mp hspan
    exact D.rereads_date hold d
  | start i token =>
    obtain ⟨a, ha, rfl⟩ := Option.map_eq_some_iff.mp hspan
    exact D.rereads_start ha hx
  | duration i seconds raw =>
    obtain ⟨a, ha, hpart⟩ := Option.bind_eq_some_iff.mp hspan
    obtain ⟨d, hd, rfl⟩ := Option.map_eq_some_iff.mp hpart
    exact D.rereads_duration ha hd hx.1 hx.2

end TimeJournal
