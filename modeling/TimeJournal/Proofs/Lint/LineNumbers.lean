import TimeJournal.Editor
import TimeJournal.Proofs.Export.Accounting
import TimeJournal.Proofs.Text.LineStarts
import TimeJournal.Report

/-! # Line numbers

The lines of a journal are lines of the line index of its text, with the same numbers from the front
matter on. So the line that a report prints for a finding, and the one where an editor shows it, is
the line of the journal that the finding is about.

* `Document.standsAt`, `Document.shownAt`: a line of the body of a document, and a place in it, in
  the index under the number of the line; `Document.isNumbered`: how many lines there are.
* `hasPiece_of_mem_findings`: every place of a finding lies in the front matter or in a line.
* `ofText_numbered`: both for every text that has a journal. -/

namespace TimeJournal

open Text Lint

/-! ### Numbers of lines -/

/-- A line of a journal is the line of the index with a number, but for carriage returns at its
end. -/
structure BodyLine.StandsAt (l : BodyLine) (ix : LineIndex) (n : ℕ) : Prop where
  start : l.span.start = ix.offset ⟨n, 0⟩
  stop : (ix.position l.span.stop).line = n
  text : (l.span.slice ix.text).rdropWhile (· == '\r') = ix.lineText n

/-- A place in a line is shown on the line with a number. -/
structure Span.ShownAt (s : Span) (ix : LineIndex) (l : BodyLine) (n : ℕ) : Prop where
  within : s.Within l.span
  range : ix.toRange s = ⟨⟨n, s.start - l.span.start⟩, ⟨n, s.stop - l.span.start⟩⟩
  place : Report.place (ix.position s.start) =
    toString (n + 1) ++ ":" ++ toString (s.start - l.span.start + 1)

/-- The number of the line behind the front matter. -/
def Journal.firstLine (j : Journal) (ix : LineIndex) : ℕ :=
  (ix.position j.frontMatter.span.stop).line + 1

/-- The lines of a journal are the lines of the index behind the front matter. If the text ends in a
line feed, the index has an empty line more. -/
structure Journal.IsNumbered (j : Journal) (ix : LineIndex) : Prop where
  length : j.firstLine ix + j.lines.length + (if ix.text.getLast? = some '\n' then 1 else 0) =
    ix.lineCount
  line : ∀ (i : ℕ) (l : BodyLine), j.lines[i]? = some l → l.StandsAt ix (j.firstLine ix + i)

/-- A place of a journal is shown where it is: in front of the first line if it lies in the front
matter, and otherwise on the line of the journal in which it lies. -/
def Journal.Shows (j : Journal) (ix : LineIndex) (s : Span) : Prop :=
  (s.Within j.frontMatter.span ∧ (ix.toRange s).start.line < j.firstLine ix ∧
      (ix.toRange s).stop.line < j.firstLine ix) ∨
    ∃ (i : ℕ) (l : BodyLine), j.lines[i]? = some l ∧ s.ShownAt ix l (j.firstLine ix + i)

/-! ### Documents -/

namespace Document

variable (D : Document)

/-- The line index of the text of a document. -/
def index : LineIndex := LineIndex.ofText D.text

theorem take_text : D.text.take D.marked.toNat = D.mark := by
  rw [text, ← D.length_mark, List.take_left]

theorem notMem_take_text : '\n' ∉ D.text.take D.marked.toNat := by
  rw [take_text, mark]
  cases D.marked <;> decide

/-- The closing line has the number of the lines in front of it. -/
theorem position_closing : D.index.position D.closing.stop =
    ⟨D.inner.length + 1, D.closing.content.length⟩ := by
  have hlines : AreLines D.text D.marked.toNat ((D.opening :: D.inner) ++ D.closing :: D.body) :=
    D.areLines
  have hposition := hlines.position_eq D.notMem_take_text (List.cons_ne_nil _ _)
    (Nat.le_add_right _ _) le_rfl
  rw [Nat.add_sub_cancel_left, List.length_cons] at hposition
  exact hposition

theorem firstLine_journal : D.journal.firstLine D.index = D.inner.length + 2 := by
  show (D.index.position D.blockSpan.stop).line + 1 = _
  rw [blockSpan_stop, position_closing]

/-- The lines of a document, cut at a line of the body. -/
theorem areLines_of_body {before after : List Line} {l : Line}
    (hbody : D.body = before ++ l :: after) :
    AreLines D.text D.marked.toNat
      ((D.opening :: (D.inner ++ D.closing :: before)) ++ l :: after) := by
  have hlines := D.areLines
  rw [lines, hbody] at hlines
  rw [List.cons_append, List.append_assoc]
  exact hlines

theorem length_before (before : List Line) :
    (D.opening :: (D.inner ++ D.closing :: before)).length =
      D.journal.firstLine D.index + before.length := by
  rw [firstLine_journal, List.length_cons, List.length_append, List.length_cons]
  omega

section Body

variable {before after : List Line} {l : Line} (hbody : D.body = before ++ l :: after)
include hbody

/-- **A line of the body stands in the index under its number.** -/
theorem standsAt : (BodyLine.read l.start l.content).1.StandsAt D.index
    (D.journal.firstLine D.index + before.length) := by
  have hlines := D.areLines_of_body hbody
  have hmark := D.notMem_take_text
  have hne := List.cons_ne_nil D.opening (D.inner ++ D.closing :: before)
  have hspan := BodyLine.span_read l.start l.content
  have hstands := (hlines.stands_of_mem (l := l) (by simp)).left
  rw [← D.length_before before]
  constructor
  · rw [hspan]
    exact (hlines.offset_eq hmark hne).symm
  · rw [hspan]
    exact congrArg Position.line (hlines.position_eq hmark hne (Nat.le_add_right _ _) le_rfl)
  · rw [hspan]
    show (Span.slice _ D.text).rdropWhile _ = _
    rw [hstands.slice]
    exact (hlines.lineText_eq hmark hne).symm

/-- **A place in a line of the body is shown on that line.** -/
theorem shownAt {s : Span} (hs : s.Within l.span) :
    s.ShownAt D.index (BodyLine.read l.start l.content).1
      (D.journal.firstLine D.index + before.length) := by
  have hlines := D.areLines_of_body hbody
  have hne := List.cons_ne_nil D.opening (D.inner ++ D.closing :: before)
  have hposition := fun {o} => hlines.position_eq D.notMem_take_text hne (o := o)
  have hspan : (BodyLine.read l.start l.content).1.span = l.span :=
    BodyLine.span_read l.start l.content
  have hle := s.start_le_stop
  obtain ⟨hstart, hstop⟩ := hs
  change l.start ≤ s.start at hstart
  change s.stop ≤ l.stop at hstop
  have hfirst := hposition hstart (hle.trans hstop)
  have hlast := hposition (hstart.trans hle) hstop
  rw [D.length_before before] at hfirst hlast
  refine ⟨?_, ?_, ?_⟩
  · rw [hspan]
    exact ⟨hstart, hstop⟩
  · rw [hspan]
    exact congrArg₂ Range.mk hfirst hlast
  · rw [hspan, show D.index.position s.start = _ from hfirst]
    rfl

end Body

/-- **The lines of its journal are those of its index.** -/
theorem isNumbered : D.journal.IsNumbered D.index where
  length := by
    obtain ⟨before, l, hlast⟩ : ∃ before l, D.lines = before ++ [l] :=
      ⟨_, _, (List.dropLast_concat_getLast (List.cons_ne_nil _ _)).symm⟩
    have hlines := D.areLines
    rw [hlast] at hlines
    have hlength := congrArg List.length hlast
    rw [lines, D.length_before, List.length_append, List.length_singleton] at hlength
    rw [journal_lines, List.length_map, hlength]
    exact (hlines.lineCount_eq D.notMem_take_text).symm
  line i b hb := by
    rw [journal_lines, List.getElem?_map, Option.map_eq_some_iff] at hb
    obtain ⟨l, hl, rfl⟩ := hb
    obtain ⟨hi, hl⟩ := List.getElem?_eq_some_iff.mp hl
    have hbody : D.body = D.body.take i ++ l :: D.body.drop (i + 1) := by
      rw [← hl, List.getElem_cons_drop, List.take_append_drop]
    have hstands := D.standsAt hbody
    rwa [List.length_take_of_le hi.le] at hstands

/-- **A place in a piece of its journal is shown where it is.** -/
theorem shows_of_within {piece s : Span} (hpiece : piece ∈ D.journal.pieces)
    (hs : s.Within piece) : D.journal.Shows D.index s := by
  rcases List.mem_cons.mp hpiece with rfl | hpiece
  · have hline : ∀ o ≤ D.journal.frontMatter.span.stop,
        (D.index.position o).line < D.journal.firstLine D.index :=
      fun o ho => Nat.lt_succ_of_le (LineIndex.line_position_mono D.text ho)
    exact Or.inl ⟨hs, hline _ (s.start_le_stop.trans hs.2), hline _ hs.2⟩
  · obtain ⟨b, hb, rfl⟩ := List.mem_map.mp hpiece
    obtain ⟨l, hl, rfl⟩ := D.exists_line_of_mem_lines hb
    obtain ⟨before, after, hbody⟩ := List.append_of_mem hl
    rw [BodyLine.span_read] at hs
    refine Or.inr ⟨before.length, _, ?_, D.shownAt hbody hs⟩
    rw [journal_lines, hbody, List.getElem?_map, List.getElem?_append_right le_rfl, Nat.sub_self]
    rfl

end Document

/-! ### Places of findings -/

/-- The spans of which a report and an editor show the positions. -/
def Finding.places (f : Finding) : List Span := f.span :: f.related.map Related.span

/-- The ranges of a finding in an editor are those of its places. -/
theorem Editor.Diagnostic.ranges_ofFinding (ix : LineIndex) (f : Finding) :
    (ofFinding ix f).range :: (ofFinding ix f).related.map RelatedPlace.range =
      f.places.map ix.toRange := by
  rw [Finding.places, List.map_cons, List.map_map]
  show _ :: (f.related.map _).map _ = _
  rw [List.map_map]
  rfl

section Places

variable {text : List Char} {j : Journal} {s : Span}

/-- The span lies in the front matter or in a line. -/
def Journal.HasPiece (j : Journal) (s : Span) : Prop := ∃ piece ∈ j.pieces, s.Within piece

theorem Journal.hasPiece_of_front (h : s.Within j.frontMatter.span) : j.HasPiece s :=
  ⟨_, List.mem_cons_self, h⟩

theorem Journal.hasPiece_of_holds {e : Entry} (he : e ∈ j.entries) (h : e.Holds s) :
    j.HasPiece s := by
  obtain ⟨b, hb, hentry⟩ := List.mem_filterMap.mp he
  rw [BodyLine.entry?_eq_some_iff] at hentry
  exact ⟨b.span, List.mem_cons_of_mem _ (List.mem_map_of_mem hb), by
    rw [hentry]
    exact ⟨h.1.le, h.2⟩⟩

variable (hj : (Reading.ofText text).journal = some j)
include hj

theorem hasPiece_of_fault {fault : ParseFault} (h : fault ∈ (Reading.ofText text).faults) :
    j.HasPiece fault.span := by
  obtain ⟨D, rfl, rfl⟩ := exists_document hj
  rw [D.faults_ofText, D.faults_eq] at h
  rcases List.mem_append.mp h with h | h
  · exact Journal.hasPiece_of_front (D.inner_fault_within h)
  · obtain ⟨l, hl, hlf⟩ := List.mem_filterMap.mp h
    refine ⟨l.span, List.mem_cons_of_mem _ ?_, (foundIn_bodyFault? l fault hlf).within⟩
    rw [D.map_span_lines]
    exact List.mem_map_of_mem hl

theorem hasPiece_of_part {p : Located String} (hp : p ∈ j.frontMatter.parts) :
    j.HasPiece p.span := by
  obtain ⟨D, rfl, rfl⟩ := exists_document hj
  exact Journal.hasPiece_of_front (D.slice_of_mem_frontMatter hp).2

theorem hasPiece_of_time {t : Located TimeToken}
    (h : t ∈ j.frontMatter.start ∨ t ∈ j.frontMatter.stop) : j.HasPiece t.span :=
  hasPiece_of_part hj (FrontMatter.literal_mem_parts h)

variable {settings : Settings} {f : Finding}

/-- Every place of a finding of the rules lies in the front matter or in a line. -/
theorem hasPiece_of_mem_declared (hf : f ∈ declared settings j) (hs : s ∈ f.places) :
    j.HasPiece s := by
  have hparts := (isOrdered_of_ofText hj).holds
  cases Finding.origin_of_mem_declared hf with
  | dateMismatch hd _ _ =>
    rw [List.mem_singleton.mp hs]
    exact hasPiece_of_part hj (FrontMatter.written_mem_parts hd)
  | dayStart ht _ =>
    rw [List.mem_singleton.mp hs]
    exact hasPiece_of_time hj (Or.inl ht)
  | dayStop ht _ =>
    rw [List.mem_singleton.mp hs]
    exact hasPiece_of_time hj (Or.inr ht)
  | missing _ =>
    rw [List.mem_singleton.mp hs]
    exact Journal.hasPiece_of_front ⟨le_rfl, le_rfl⟩
  | entryStart he _ =>
    rw [List.mem_singleton.mp hs]
    exact Journal.hasPiece_of_holds he (hparts _ he).start
  | entryStop he _ =>
    rw [List.mem_singleton.mp hs]
    exact Journal.hasPiece_of_holds he (hparts _ he).stop
  | startMismatch _ ht =>
    rw [List.mem_singleton.mp hs]
    exact hasPiece_of_time hj (Or.inl ht)
  | jumped hlink _ =>
    rcases List.mem_cons.mp hs with rfl | hs
    · have he := mem_of_mem_chain hlink
      exact Journal.hasPiece_of_holds he (hparts _ he).start
    · obtain ⟨before, hbefore, rfl⟩ := Journal.exists_of_mem_chain hlink
      rw [List.mem_singleton.mp hs]
      exact Journal.hasPiece_of_holds hbefore (hparts _ hbefore).stop
  | negativeRange he =>
    rw [List.mem_singleton.mp hs]
    exact Journal.hasPiece_of_holds he (hparts _ he).stop
  | incorrectDuration he hd _ _ _ _ =>
    have hduration := (hparts _ he).duration
    rw [Entry.durationSpan, Recovered.part?_eq_some_iff.mp hd] at hduration
    rw [List.mem_singleton.mp hs]
    exact Journal.hasPiece_of_holds he hduration
  | stopMismatch he ht =>
    rcases List.mem_cons.mp hs with rfl | hs
    · exact hasPiece_of_time hj (Or.inr ht)
    · rw [List.mem_singleton.mp hs]
      exact Journal.hasPiece_of_holds he (hparts _ he).stop

end Places

/-- What lies in the front matter or in a line lies in the text. -/
theorem Journal.HasPiece.stop_le_length {text : List Char} {j : Journal}
    (hj : (Reading.ofText text).journal = some j) {s : Span} (h : j.HasPiece s) :
    s.stop ≤ text.length := by
  obtain ⟨D, rfl, rfl⟩ := exists_document hj
  obtain ⟨piece, hpiece, -, hstop⟩ := h
  refine hstop.trans ?_
  rcases List.mem_cons.mp hpiece with rfl | hpiece
  · have hclosing : D.closing ∈ D.lines := by simp [Document.lines]
    show D.blockSpan.stop ≤ _
    rw [D.blockSpan_stop]
    exact (D.areLines.stands_of_mem hclosing).left.add_le_length
  · obtain ⟨b, hb, rfl⟩ := List.mem_map.mp hpiece
    obtain ⟨l, hl, rfl⟩ := D.exists_line_of_mem_lines hb
    rw [BodyLine.span_read]
    exact (D.areLines_body.stands_of_mem hl).left.add_le_length

/-- **Every place of a finding in a text lies in the front matter or in a line.** -/
theorem hasPiece_of_mem_findings {source : Option String} {text : String} {j : Journal}
    {checked : Checked} (hj : (Reading.ofText text.toList).journal = some j)
    (hcheck : check source text = .ok checked) {f : Finding} (hf : f ∈ checked.findings)
    {s : Span} (hs : s ∈ f.places) : j.HasPiece s := by
  obtain ⟨fileDate, -, rfl⟩ := exists_of_check hcheck hj
  rcases List.mem_append.mp hf with hf | hf
  · obtain ⟨fault, hfault, rfl⟩ := List.mem_map.mp hf
    rw [List.mem_singleton.mp hs]
    exact hasPiece_of_fault hj hfault
  · exact hasPiece_of_mem_declared hj hf hs

/-- **The lines of a journal are those of the line index**, in every text that has one: behind the
front matter they have the same numbers, the same places and, but for carriage returns at the end,
the same content. So whatever a check finds is shown on the line that it is about, in a report and
in an editor. -/
theorem ofText_numbered (text : String) {j : Journal}
    (hj : (Reading.ofText text.toList).journal = some j) :
    j.IsNumbered (LineIndex.ofText text.toList) ∧
      ∀ source checked, check source text = .ok checked → ∀ f ∈ checked.findings,
        (Editor.Diagnostic.ofFinding (LineIndex.ofText text.toList) f).range ::
            (Editor.Diagnostic.ofFinding (LineIndex.ofText text.toList) f).related.map
              Editor.RelatedPlace.range =
          f.places.map (LineIndex.ofText text.toList).toRange ∧
        ∀ s ∈ f.places, j.Shows (LineIndex.ofText text.toList) s := by
  refine ⟨?_, fun source checked hcheck f hf =>
    ⟨Editor.Diagnostic.ranges_ofFinding _ f, fun s hs => ?_⟩⟩
  · obtain ⟨D, hD, rfl⟩ := exists_document hj
    rw [← hD]
    exact D.isNumbered
  · obtain ⟨piece, hpiece, hwithin⟩ := hasPiece_of_mem_findings hj hcheck hf hs
    obtain ⟨D, hD, rfl⟩ := exists_document hj
    rw [← hD]
    exact D.shows_of_within hpiece hwithin

/-- A text with a byte order mark, with carriage returns inside and at the end of a line, with two
separators that end no line, and without a line feed at its end. -/
def separatedText : String :=
  "\uFEFF---\r\ndate: 2024-01-03\n---\r\n- 09:00-10:00 1.00 a\u2028b\r\r\n\u2029\n" ++
    "- 10:30-11:00 0.50 c\rd\r"

/-- The jump is shown on the sixth line, with the end time on the fourth one. -/
theorem ofText_numbered_separatedText : ∃ j checked,
    (Reading.ofText separatedText.toList).journal = some j ∧
    check none separatedText = .ok checked ∧
    j.firstLine (LineIndex.ofText separatedText.toList) = 3 ∧ j.lines.length = 3 ∧
    (LineIndex.ofText separatedText.toList).lineCount = 6 ∧
    checked.findings.map (fun f => f.places.map fun s =>
      (LineIndex.ofText separatedText.toList).position s.start) =
        [[⟨0, 1⟩], [⟨0, 1⟩], [⟨5, 2⟩, ⟨3, 8⟩]] ∧
    j.IsNumbered (LineIndex.ofText separatedText.toList) ∧
    ∀ f ∈ checked.findings, ∀ s ∈ f.places,
      j.Shows (LineIndex.ofText separatedText.toList) s := by
  have hsizes : (Reading.ofText separatedText.toList).journal.map (fun j =>
      (j.firstLine (LineIndex.ofText separatedText.toList), j.lines.length)) = some (3, 3) := by
    decide +kernel
  obtain ⟨j, hj, hboth⟩ := Option.map_eq_some_iff.mp hsizes
  obtain ⟨hfirst, hlength⟩ := Prod.mk.inj hboth
  have hplaces : (check none separatedText).toOption.map (fun checked =>
      checked.findings.map fun f => f.places.map fun s =>
        (LineIndex.ofText separatedText.toList).position s.start) =
      some [[⟨0, 1⟩], [⟨0, 1⟩], [⟨5, 2⟩, ⟨3, 8⟩]] := by decide +kernel
  have hcheck : check none separatedText = .ok ⟨_, declared ⟨_, none, defaultTolerance⟩ j⟩ :=
    check_eq rfl hj (by decide +kernel)
  rw [hcheck] at hplaces
  obtain ⟨hnumbered, hshows⟩ := ofText_numbered separatedText hj
  exact ⟨j, _, hj, hcheck, hfirst, hlength, by decide +kernel, Option.some.inj hplaces, hnumbered,
    fun f hf => (hshows none _ hcheck f hf).2⟩

end TimeJournal
