import Mathlib.Data.List.Basic
import TimeJournal.Proofs.Journal.Classification
import TimeJournal.Proofs.Journal.Document

/-! # Reading loses nothing

The front matter and the lines of a journal cover its text: between two of them there is a line
ending and nothing else. `Tiles` says so of any spans in a text.

* `Tiles.flatMap_eq`: spans that tile a text, put together with their endings, give it back.
* `AreLines.tiles`: the contents of the lines of a text tile it.
* `Document.readsJournal`: the productions come through a document to its end, with its journal and
  its faults.
* `Document.covers`: the front matter and the lines of its journal cover a document.
* `ofText_covers`: both for every text that has a journal, and for every text that the loop over the
  lines ends. -/

namespace TimeJournal

open Text

/-! ### Spans that cover a text -/

/-- From an offset on the text is what it has in the spans, with an ending behind each. Only the
last span can have an ending that is no line feed. -/
def Tiles (text : List Char) : ℕ → List (Span × Ending) → Prop
  | pos, [] => pos = text.length
  | pos, (s, e) :: rest =>
    s.start = pos ∧ (Span.ofLength s.stop e.chars.length).slice text = e.chars ∧
      (e.IsFinal → rest = []) ∧ Tiles text (s.stop + e.chars.length) rest

/-- **Spans that tile a text give it back.** -/
theorem Tiles.flatMap_eq {text : List Char} {tiles : List (Span × Ending)} {pos : ℕ}
    (h : Tiles text pos tiles) :
    tiles.flatMap (fun p => p.1.slice text ++ p.2.chars) = text.drop pos := by
  induction tiles generalizing pos with
  | nil =>
    rw [List.flatMap_nil, show pos = text.length from h, List.drop_length]
  | cons tile tiles ih =>
    obtain ⟨s, e⟩ := tile
    obtain ⟨rfl, hending, -, hrest⟩ := h
    have hlength : (Span.ofLength s.stop e.chars.length).length = e.chars.length := by
      unfold Span.length
      rw [Span.ofLength_start, Span.ofLength_stop, Nat.add_sub_cancel_left]
    have hle := s.start_le_stop
    have hstop : s.start + s.length = s.stop := by unfold Span.length; omega
    -- the rest of the text is cut behind the span, and again behind the ending
    have hspan := List.take_append_drop s.length (text.drop s.start)
    have hbehind := List.take_append_drop e.chars.length (text.drop s.stop)
    rw [List.drop_drop, hstop] at hspan
    rw [List.drop_drop] at hbehind
    rw [Span.slice, hlength, Span.ofLength_start] at hending
    rw [List.flatMap_cons, ih hrest, ← hspan, ← hbehind, hending, List.append_assoc]
    rfl

/-- **The contents of lines tile a text.** -/
theorem AreLines.tiles {text : List Char} {pos : ℕ} {ls : List Line} (h : AreLines text pos ls) :
    Tiles text pos (ls.map fun l => (Span.ofLength l.start l.content.length, l.ending)) := by
  induction ls generalizing pos with
  | nil => exact h.eq_length
  | cons l ls ih =>
    obtain ⟨rfl, -, hlast, -⟩ := h.cut
    refine ⟨rfl, (h.stands.right (a := l.content)).slice, fun hfinal => ?_, ?_⟩
    · rw [hlast hfinal]
      rfl
    · have hrest := ih h.tail
      rw [Line.chars, List.length_append, ← Nat.add_assoc] at hrest
      exact hrest

/-! ### The lines of a document -/

/-- Whatever a line is read as, its span is the content of the line. -/
theorem BodyLine.span_read (start : ℕ) (content : List Char) :
    (read start content).1.span = Span.ofLength start content.length := by
  rcases read_cases start content with ⟨-, hread⟩ | ⟨t, hchars, -, hread⟩ | ⟨-, -, message, hread⟩
  · rw [hread]
    rfl
  · rw [hread, ← hchars]
    exact Span.ext rfl (t.endAt_eq start)
  · rw [hread]
    rfl

namespace Document

variable (D : Document)

theorem areLines : AreLines D.text D.marked.toNat D.lines where
  le_length := by
    rw [text, List.length_append, D.length_mark]
    omega
  cut := D.cut
  drop_eq := by rw [text, ← D.length_mark, List.drop_left]

/-- From the closing line on. -/
theorem areLines_closing : AreLines D.text D.closing.start (D.closing :: D.body) := by
  have hlines : AreLines D.text D.marked.toNat ((D.opening :: D.inner) ++ D.closing :: D.body) :=
    D.areLines
  have hrest := hlines.of_append
  have hstart := hrest.cut.1
  rw [← hstart] at hrest
  exact hrest

theorem areLines_body :
    AreLines D.text (D.closing.start + D.closing.chars.length) D.body :=
  D.areLines_closing.tail

theorem blockSpan_stop : D.blockSpan.stop = D.closing.stop := by
  have hle := D.cut.start_le D.closing (List.mem_cons_of_mem _ (by simp))
  show D.marked.toNat + (D.closing.stop - D.marked.toNat) = D.closing.stop
  unfold Line.stop
  omega

theorem journal_lines : D.journal.lines =
    D.body.map fun l => (BodyLine.read l.start l.content).1 := by
  show D.bodyLines.map Prod.fst = _
  rw [bodyLines, List.map_map]
  rfl

theorem exists_line_of_mem_lines {b : BodyLine} (h : b ∈ D.journal.lines) :
    ∃ l ∈ D.body, (BodyLine.read l.start l.content).1 = b := by
  rw [journal_lines] at h
  exact List.mem_map.mp h

theorem map_span_lines : D.journal.lines.map BodyLine.span =
    D.body.map fun l => Span.ofLength l.start l.content.length := by
  rw [journal_lines, List.map_map]
  exact List.map_congr_left fun l _ => BodyLine.span_read l.start l.content

end Document

/-! ### The productions in a document -/

/-- The productions read a journal from an offset on, to the end of the text: first the front
matter, then the ending of its last line, then the lines. -/
def Context.ReadsJournal (ctx : Context) (text : List Char) (pos : ℕ) (j : Journal)
    (faults : List ParseFault) : Prop :=
  ∃ closed next ctx₁ ctx₂,
    ctx.frontMatter ⟨text, pos⟩ = (.ok (some (j.frontMatter, closed)), ctx₁) ∧
    closed.skipLineEnd = .ok next ∧ ctx₁.ReadsBody next j.lines ctx₂ ⟨text, text.length⟩ ∧
    ctx₂.faults = ctx.faults ++ faults

namespace Document

variable (D : Document) (ctx : Context)

theorem frontMatter_eq : ctx.frontMatter ⟨D.text, D.marked.toNat⟩ =
    (.ok (some (D.journal.frontMatter, ⟨D.text, D.closing.stop⟩)),
      ctx.report (D.blockLines.filterMap BlockLine.fault?)) := by
  have hlines : Text.lines D.marked.toNat (D.text.drop D.marked.toNat) = D.lines := by
    rw [D.areLines.drop_eq]
    exact lines_eq_of_isCut D.cut
  have hpos : ¬ ((D.marked.toNat : Int) < 0) := by omega
  unfold Context.frontMatter
  rw [Cursor.ahead_natCast]
  dsimp only
  rw [if_neg hpos, Int.toNat_natCast, hlines, D.ofLines_eq]
  rfl

/-- The ending of the closing line leads to the body. -/
theorem skipLineEnd_closing : (⟨D.text, D.closing.stop⟩ : Cursor).skipLineEnd =
    .ok ⟨D.text, (D.closing.start + D.closing.chars.length : ℕ)⟩ := by
  have h := D.areLines_closing
  have hrest : D.text.drop D.closing.stop =
      D.closing.ending.chars ++ D.body.flatMap Line.chars := by
    have hdrop := h.drop_eq
    rw [List.flatMap_cons, Line.chars, List.append_assoc] at hdrop
    rw [Line.stop, ← List.drop_drop, hdrop, List.drop_left]
  unfold Cursor.skipLineEnd
  rw [Cursor.ahead_natCast, hrest]
  show Except.ok (Cursor.move _ _) = _
  rw [endingLength_chars h.rest_eq_nil, Line.chars, List.length_append, ← Nat.add_assoc]
  rfl

/-- **The productions come through a document**, with its journal and its faults. -/
theorem readsJournal : ctx.ReadsJournal D.text D.marked.toNat D.journal D.faults := by
  obtain ⟨ctx₂, hbody, hfaults⟩ := Context.exists_readsBody
    (ctx.report (D.blockLines.filterMap BlockLine.fault?)) D.areLines_body
  refine ⟨_, _, _, ctx₂, D.frontMatter_eq ctx, D.skipLineEnd_closing, ?_, ?_⟩
  · rw [journal_lines]
    exact hbody
  · rw [hfaults]
    show (ctx.faults ++ D.blockLines.filterMap BlockLine.fault?) ++ _ = ctx.faults ++
      (D.blockLines.filterMap BlockLine.fault? ++ (D.body.map _).filterMap Prod.snd)
    rw [List.filterMap_map, List.append_assoc]
    rfl

end Document

/-! ### The pieces of a journal -/

/-- The spans of the front matter and of the lines. -/
def Journal.pieces (j : Journal) : List Span := j.frontMatter.span :: j.lines.map BodyLine.span

/-- A text is a byte order mark, or none, and then the pieces of the journal, with an ending behind
each of them. A line feed stands in no line. -/
structure Journal.Covers (j : Journal) (text : List Char) (marked : Bool) (endings : List Ending) :
    Prop where
  head : marked = true ↔ text.head? = some Reading.byteOrderMark
  length_eq : endings.length = j.pieces.length
  tiles : Tiles text marked.toNat (j.pieces.zip endings)
  eq_flatMap : text = (if marked then [Reading.byteOrderMark] else []) ++
    (j.pieces.zip endings).flatMap fun p => p.1.slice text ++ p.2.chars
  noFeed : ∀ l ∈ j.lines, '\n' ∉ l.span.slice text

namespace Document

variable (D : Document)

/-- The endings behind the pieces of its journal. -/
def endings : List Ending := D.closing.ending :: D.body.map Line.ending

theorem zip_pieces : D.journal.pieces.zip D.endings = (D.blockSpan, D.closing.ending) ::
    D.body.map fun l => (Span.ofLength l.start l.content.length, l.ending) := by
  rw [Journal.pieces, endings, map_span_lines, List.zip_cons_cons, List.zip_map']
  rfl

theorem head_text : D.marked = true ↔ D.text.head? = some Reading.byteOrderMark := by
  have hhead := D.head?_lines
  unfold text mark
  cases D.marked with
  | true => simp
  | false =>
    rw [if_neg (by decide), List.nil_append, hhead]
    decide

theorem covers : D.journal.Covers D.text D.marked D.endings := by
  have htiles : Tiles D.text D.marked.toNat (D.journal.pieces.zip D.endings) := by
    have hclosing := D.areLines_closing
    have hbody := D.areLines_body.tiles
    rw [Line.chars, List.length_append, ← Nat.add_assoc] at hbody
    rw [zip_pieces]
    refine ⟨rfl, ?_, fun hfinal => ?_, ?_⟩
    · rw [blockSpan_stop]
      exact (hclosing.stands.right (a := D.closing.content)).slice
    · rw [hclosing.cut.2.2.1 hfinal]
      rfl
    · rw [blockSpan_stop]
      exact hbody
  refine ⟨D.head_text, ?_, htiles, ?_, fun l hl => ?_⟩
  · rw [Journal.pieces, map_span_lines, endings, List.length_cons, List.length_cons,
      List.length_map, List.length_map]
  · rw [htiles.flatMap_eq, D.areLines.drop_eq]
    rfl
  · obtain ⟨line, hline, rfl⟩ := D.exists_line_of_mem_lines hl
    rw [BodyLine.span_read, (D.areLines_body.stands_of_mem hline).left.slice]
    exact (D.areLines_body.isWhole_of_mem hline).noFeed

end Document

/-- **Reading loses nothing.** Wherever the loop over the lines begins in a text, it comes to its
end. If the text has a journal, the productions read that journal with all faults of the text, and
the pieces of the journal cover the text. -/
theorem ofText_covers (text : List Char) :
    (∀ (ctx : Context) (pos : ℕ), ∃ items ctx',
      ctx.ReadsBody ⟨text, pos⟩ items ctx' ⟨text, (max pos text.length : ℕ)⟩) ∧
    ∀ j, (Reading.ofText text).journal = some j → ∃ marked endings,
      j.Covers text marked endings ∧
      Context.empty.ReadsJournal text marked.toNat j (Reading.ofText text).faults := by
  refine ⟨fun ctx pos => ctx.exists_readsBody_max text pos, fun j hj => ?_⟩
  obtain ⟨D, rfl, rfl⟩ := exists_document hj
  rw [D.faults_ofText]
  exact ⟨D.marked, D.endings, D.covers, D.readsJournal Context.empty⟩

/-- A text with a byte order mark, with three kinds of endings, and with a carriage return that ends
no line. -/
def mixedText : String :=
  "\uFEFF---\r\ndate: 2024-01-03\n---\nnotes\r\n- 09:00-10:00 1.00 read\n- 9 \rx\r"

theorem ofText_covers_mixedText : ∃ j, (Reading.ofText mixedText.toList).journal = some j ∧
    j.pieces = [⟨1, 26, by decide⟩, ⟨27, 32, by decide⟩, ⟨34, 57, by decide⟩, ⟨58, 64, by decide⟩] ∧
    ∃ marked endings, j.Covers mixedText.toList marked endings ∧
      Context.empty.ReadsJournal mixedText.toList marked.toNat j
        (Reading.ofText mixedText.toList).faults := by
  have hread : (Reading.ofText mixedText.toList).journal.map Journal.pieces =
      some [⟨1, 26, by decide⟩, ⟨27, 32, by decide⟩, ⟨34, 57, by decide⟩, ⟨58, 64, by decide⟩] := by
    decide +kernel
  obtain ⟨j, hj, hpieces⟩ := Option.map_eq_some_iff.mp hread
  exact ⟨j, hj, hpieces, (ofText_covers mixedText.toList).2 j hj⟩

end TimeJournal
