import TimeJournal.Proofs.Report.Pieces
import TimeJournal.Proofs.Text.LineAround

/-! # Underlines

With an excerpt a report shows the line that a finding begins on, and below it carets under the
characters of the finding. A finding may end on a later line, it may begin where its line ends, and it
may hold no character at all; in the last two cases a single caret marks where it begins.

* `Excerpt.Underlines`: what the two rows show of a span.
* `Text.Line.caret_iff`: the columns from the first one on, as many as are underlined, are those in
  the span.
* `Report.exists_underlines`: every span of a text is underlined so.
* `Report.finding_underlines`: every finding of a check, for every text whose carriage returns end
  lines. -/

namespace TimeJournal

open Text

/-- The character in a column of a line is in a span. -/
def Text.Line.IsCovered (l : Line) (s : Span) (column : ℕ) : Prop :=
  column < l.content.length ∧ s.start ≤ l.start + column ∧ l.start + column < s.stop

/-- The two rows of an excerpt: a line of a text behind a margin, and marks behind another one. -/
structure Excerpt where
  margin : List Char
  line : Line
  blank : List Char
  marks : List Char

namespace Excerpt

/-- The row with the line. -/
def upper (e : Excerpt) : String := String.ofList (e.margin ++ e.line.content)

/-- The row with the marks. -/
def lower (e : Excerpt) : String := String.ofList (e.blank ++ e.marks)

/-- An excerpt shows the line that a span begins on, with its number in the margin, and underlines the
span: a caret stands under each character of the line that is in the span, or, if none is, in the
column where the span begins, and nowhere else. -/
structure Underlines (e : Excerpt) (text : List Char) (s : Span) : Prop where
  line : e.line.Holds text s.start
  margin : e.margin = (Nat.repr ((text.take s.start).count '\n' + 1)).toList ++ [' ', '|', ' ']
  aligned : e.blank.length = e.margin.length
  blank : ∀ c ∈ e.blank, c = ' ' ∨ c = '|'
  marks : ∀ c ∈ e.marks, c = ' ' ∨ c = '^'
  caret : ∀ column, e.marks[column]? = some '^' ↔ e.line.IsCovered s column ∨
    (∀ c, ¬ e.line.IsCovered s c) ∧ e.line.start + column = s.start

/-- The rows hold no line feed. -/
theorem Underlines.isRow {e : Excerpt} {text : List Char} {s : Span} (h : e.Underlines text s) :
    IsRow e.upper ∧ IsRow e.lower := by
  refine ⟨isRow_ofList fun hfeed => ?_, isRow_ofList fun hfeed => ?_⟩
  · rw [h.margin, List.mem_append, List.mem_append] at hfeed
    rcases hfeed with (hfeed | hfeed) | hfeed
    · exact isRow_repr _ hfeed
    · exact absurd hfeed (by decide)
    · exact h.line.noFeed hfeed
  · rcases List.mem_append.mp hfeed with hfeed | hfeed
    · exact absurd (h.blank _ hfeed) (by decide)
    · exact absurd (h.marks _ hfeed) (by decide)

end Excerpt

/-! ### Columns -/

/-- Carets behind blanks. -/
theorem getElem?_carets {start width column : ℕ} :
    (List.replicate start ' ' ++ List.replicate width '^')[column]? = some '^' ↔
      start ≤ column ∧ column < start + width := by
  rw [List.getElem?_append, List.length_replicate, List.getElem?_replicate, List.getElem?_replicate]
  split_ifs with hblank hcaret
  · exact iff_of_false (by decide) (by omega)
  · exact iff_of_true rfl (by omega)
  · exact iff_of_false nofun (by omega)

/-- **The underlined columns are those in the span**, or the one where it begins. The last column is
the one where the span ends, or the last one of the line if the span goes on behind it. -/
theorem Text.Line.caret_iff {l : Line} {s : Span} {last : ℕ} (hstart : l.start ≤ s.start)
    (hlast : last = s.stop - l.start ∨
      last = l.content.length ∧ l.start + l.content.length ≤ s.stop) (column : ℕ) :
    s.start - l.start ≤ column ∧ column < s.start - l.start +
        max 1 (min last l.content.length - (s.start - l.start)) ↔
      l.IsCovered s column ∨ (∀ c, ¬ l.IsCovered s c) ∧ l.start + column = s.start := by
  have hspan := s.start_le_stop
  unfold IsCovered
  by_cases hfirst : s.start - l.start < l.content.length ∧ s.start < s.stop
  · -- the span has the character where it begins
    have hcovered : ¬ ∀ c, ¬ (c < l.content.length ∧ s.start ≤ l.start + c ∧ l.start + c < s.stop) :=
      fun hnone => hnone (s.start - l.start) (by omega)
    rw [or_iff_left fun h => hcovered h.1]
    omega
  · have hnone : ∀ c, ¬ (c < l.content.length ∧ s.start ≤ l.start + c ∧ l.start + c < s.stop) :=
      fun c hc => hfirst (by omega)
    have hwidth : max 1 (min last l.content.length - (s.start - l.start)) = 1 := by omega
    rw [hwidth, or_iff_right (hnone column), and_iff_right hnone]
    omega

namespace Excerpt

/-- The excerpt of a line under its number, with some carets from a column on. -/
def draw (number : ℕ) (l : Line) (start width : ℕ) : Excerpt where
  margin := (Nat.repr number).toList ++ [' ', '|', ' ']
  line := l
  blank := List.replicate (Nat.repr number).length ' ' ++ [' ', '|', ' ']
  marks := List.replicate start ' ' ++ List.replicate width '^'

theorem upper_draw (number : ℕ) (l : Line) (start width : ℕ) :
    (draw number l start width).upper = Nat.repr number ++ " | " ++ String.ofList l.content := by
  refine String.toList_inj.mp ?_
  simp only [upper, draw, String.toList_append, String.toList_ofList]
  rfl

theorem lower_draw (number : ℕ) (l : Line) (start width : ℕ) :
    (draw number l start width).lower = "".pushn ' ' (Nat.repr number).length ++ " | " ++
      "".pushn ' ' start ++ "".pushn '^' width := by
  refine String.toList_inj.mp ?_
  simp only [lower, draw, String.toList_append, String.toList_ofList, toList_pushn,
    List.append_assoc]
  rfl

/-- **An excerpt drawn from the column of a span on underlines it.** -/
theorem draw_underlines {text : List Char} {s : Span} {l : Line} (hl : l.Holds text s.start)
    {last : ℕ} (hlast : last = s.stop - l.start ∨
      last = l.content.length ∧ l.start + l.content.length ≤ s.stop) :
    (draw ((text.take s.start).count '\n' + 1) l (s.start - l.start)
      (max 1 (min last l.content.length - (s.start - l.start)))).Underlines text s where
  line := hl
  margin := rfl
  aligned := by
    unfold draw
    rw [List.length_append, List.length_append, List.length_replicate, String.length_toList]
  blank c hc := by
    rcases List.mem_append.mp hc with hc | hc
    · exact Or.inl (List.eq_of_mem_replicate hc)
    · simp only [List.mem_cons, List.not_mem_nil, or_false] at hc
      rcases hc with rfl | rfl | rfl
      · exact Or.inl rfl
      · exact Or.inr rfl
      · exact Or.inl rfl
  marks c hc := by
    rcases List.mem_append.mp hc with hc | hc
    · exact Or.inl (List.eq_of_mem_replicate hc)
    · exact Or.inr (List.eq_of_mem_replicate hc)
  caret column := getElem?_carets.trans (Line.caret_iff hl.start_le hlast column)

end Excerpt

/-- What the line index has for a span: the line where it begins, and how far to underline. -/
theorem exists_line_of_span {text : List Char} {s : Span} (hstop : s.stop ≤ text.length)
    (hreturns : ReturnsEndLines text) : ∃ (l : Line) (last : ℕ), l.Holds text s.start ∧
      (LineIndex.ofText text).position s.start =
        ⟨(text.take s.start).count '\n', s.start - l.start⟩ ∧
      (LineIndex.ofText text).lineText ((text.take s.start).count '\n') = l.content ∧
      Report.underlineWidth ⟨(text.take s.start).count '\n', s.start - l.start⟩
          ((LineIndex.ofText text).position s.stop) l.content.length =
        max 1 (min last l.content.length - (s.start - l.start)) ∧
      (last = s.stop - l.start ∨
        last = l.content.length ∧ l.start + l.content.length ≤ s.stop) := by
  have hspan := s.start_le_stop
  obtain ⟨l, before, after, hl, htext, hcut, hstart⟩ := exists_holds (hspan.trans hstop) hreturns
  have hle := hl.le_stop
  have hge := hl.start_le
  rw [hstart] at hle hge
  have hposition := LineIndex.position_of_isCutAround hcut hge hle
  rw [← htext] at hposition
  have hcount : (text.take s.start).count '\n' = before.count '\n' :=
    congrArg Position.line ((LineIndex.position_eq (hspan.trans hstop)).symm.trans hposition)
  have hcontent : l.content.rdropWhile (· == '\r') = l.content := by
    rw [List.rdropWhile_eq_self_iff]
    intro hne hlast
    exact hl.noReturn (by rw [← beq_iff_eq.mp hlast]; exact List.getLast_mem hne)
  have hlineText := LineIndex.lineText_of_isCutAround hcut
  rw [← htext, l.ending.rdropWhile_returns, hcontent] at hlineText
  rw [hcount]
  unfold Report.underlineWidth
  dsimp only
  rcases Nat.lt_or_ge (before.length + (l.content ++ l.ending.returns).length) s.stop with hlt | hge'
  · -- the span goes on behind the line
    have hline := LineIndex.line_lt_of_isCutAround hcut hlt (htext ▸ hstop)
    rw [← htext] at hline
    rw [List.length_append] at hlt
    refine ⟨l, l.content.length, hl, hstart ▸ hposition, hlineText, ?_, Or.inr ⟨rfl, by omega⟩⟩
    rw [if_neg hline.ne']
  · have hsame := LineIndex.position_of_isCutAround hcut (hge.trans hspan) hge'
    rw [← htext, ← hstart] at hsame
    refine ⟨l, s.stop - l.start, hl, hstart ▸ hposition, hlineText, ?_, Or.inl rfl⟩
    rw [hsame, if_pos rfl]

namespace Report

/-! ### Rows -/

/-- **The rows with the line and with the marks are the fourth and the fifth one** of a finding. -/
theorem exists_excerpt_rows (r : Report) (ix : LineIndex) {f : Finding} {uri : String}
    (hf : f.issue.IsInRows uri) : ∃ head foot : List String, head.length = 3 ∧
      (IsRow r.fileName → ∀ row ∈ head, IsRow row) ∧
      r.fancy ix f = "\n".intercalate (head ++
        [Nat.repr ((ix.position f.span.start).line + 1) ++ " | " ++
            String.ofList (ix.lineText (ix.position f.span.start).line),
          "".pushn ' ' (Nat.repr ((ix.position f.span.start).line + 1)).length ++ " | " ++
              "".pushn ' ' (ix.position f.span.start).character ++
            r.paint .boldRed ("".pushn '^' (underlineWidth (ix.position f.span.start)
              (ix.position f.span.stop) (ix.lineText (ix.position f.span.start).line).length))] ++
        foot) := by
  refine ⟨r.headRows ix f, ?_, rfl,
    fun hname row hrow => (r.isFullRow_headRows ix hf hname row hrow).isRow, ?rows⟩
  case rows =>
    unfold fancy
    dsimp only
    rw [List.append_assoc]
    rfl

/-- **Every span of a text is underlined**, if the carriage returns of the text end lines. -/
theorem exists_underlines (fileName : String) {text : List Char} {f : Finding} {uri : String}
    (hf : f.issue.IsInRows uri) (hstop : f.span.stop ≤ text.length)
    (hreturns : ReturnsEndLines text) : ∃ (e : Excerpt) (head foot : List String),
      e.Underlines text f.span ∧ head.length = 3 ∧ (IsRow fileName → ∀ row ∈ head, IsRow row) ∧
      (⟨.fancy, false, fileName⟩ : Report).fancy (.ofText text) f =
        "\n".intercalate (head ++ [e.upper, e.lower] ++ foot) := by
  obtain ⟨l, last, hl, hposition, hcontent, hwidth, hlast⟩ := exists_line_of_span hstop hreturns
  obtain ⟨head, foot, hlength, hhead, hrows⟩ :=
    exists_excerpt_rows ⟨.fancy, false, fileName⟩ (.ofText text) hf
  refine ⟨_, head, foot, Excerpt.draw_underlines hl hlast, hlength, hhead, ?_⟩
  rw [hrows, hposition, hcontent, hwidth, Excerpt.upper_draw, Excerpt.lower_draw]
  rfl

/-- **Every finding is underlined exactly.** In a text each carriage return of which stands in front of
a line feed, an excerpt without color shows, in its fourth row, the line where the finding begins, and
in its fifth one a caret under each of the finding's characters there, or a single one where the
finding begins if the line has none of them. -/
theorem finding_underlines (fileName : String) {source : Option String} {text : String}
    {checked : Checked} (hreturns : ReturnsEndLines text.toList)
    (hcheck : check source text = .ok checked) {f : Finding} (hf : f ∈ checked.findings) :
    ∃ (e : Excerpt) (head foot : List String), e.Underlines text.toList f.span ∧
      head.length = 3 ∧ (IsRow fileName → ∀ row ∈ head, IsRow row) ∧
      IsRow e.upper ∧ IsRow e.lower ∧
      (⟨.fancy, false, fileName⟩ : Report).finding (.ofText text.toList) f =
        "\n".intercalate (head ++ [e.upper, e.lower] ++ foot) := by
  obtain ⟨e, head, foot, he, hlength, hhead, hrows⟩ := exists_underlines fileName
    (isInRows_of_mem_findings hcheck hf) (span_stop_le_of_mem_findings hcheck hf) hreturns
  exact ⟨e, head, foot, he, hlength, hhead, he.isRow.1, he.isRow.2, hrows⟩

end Report

/-- A text with an entry that breaks off, a bad minute, a day without a start, and a wrong duration;
its lines end in a carriage return and a line feed. -/
def brokenText : String :=
  "---\r\ndate: 2024-01-03\r\nend: 9:60\r\n---\r\n- 9:00-\r\n- 10:30-11:00 0.25 b\r\n"

/-- One of the four findings is empty, at the end of its line, and one goes on over four lines. -/
theorem Report.finding_underlines_brokenText : ReturnsEndLines brokenText.toList ∧
    ∃ checked, check none brokenText = .ok checked ∧
      checked.findings.map (fun f => (f.span.start, f.span.stop)) =
        [(46, 46), (28, 32), (0, 37), (62, 66)] ∧
      ∀ f ∈ checked.findings, ∃ (e : Excerpt) (head foot : List String),
        e.Underlines brokenText.toList f.span ∧ head.length = 3 ∧
        (IsRow "a.md" → ∀ row ∈ head, IsRow row) ∧ IsRow e.upper ∧ IsRow e.lower ∧
        (⟨.fancy, false, "a.md"⟩ : Report).finding (.ofText brokenText.toList) f =
          "\n".intercalate (head ++ [e.upper, e.lower] ++ foot) := by
  have hreturns : ReturnsEndLines brokenText.toList := by decide +kernel
  have hspans : (check none brokenText).toOption.map (fun checked =>
      checked.findings.map fun f => (f.span.start, f.span.stop)) =
      some [(46, 46), (28, 32), (0, 37), (62, 66)] := by decide +kernel
  rcases hcheck : check none brokenText with fault | checked
  · rw [hcheck] at hspans
    cases hspans
  · rw [hcheck] at hspans
    exact ⟨hreturns, checked, rfl, Option.some.inj hspans,
      fun f hf => finding_underlines "a.md" hreturns hcheck hf⟩

end TimeJournal
