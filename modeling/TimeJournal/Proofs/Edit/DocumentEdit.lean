import Mathlib.Data.List.Basic
import Mathlib.Tactic.Set
import Mathlib.Tactic.Tauto
import TimeJournal.Proofs.Edit.LineEdit
import TimeJournal.Proofs.Journal.FieldValue
import TimeJournal.Proofs.Journal.Relocation
import TimeJournal.Proofs.Journal.Setting

/-! # Edits of a document

An edit inside one line of a document gives a document again: `editBody` edits a line of the body,
`editInner` one of the front matter that delimits nothing after the edit. Only what that line is read
as can change, all other parts move.

* `Document.text_editBody`, `Document.text_editInner`: the text of the new document is the old text
  with the span replaced.
* `Document.journal_editBody`, `Document.faults_editBody`, `Document.journal_editInner`,
  `Document.faults_editInner`: what is read in it. -/

namespace TimeJournal

open Text

theorem Text.Line.stop_move {m : ℕ →o ℕ} {l : Line} (h : Rigid m l.start l.content.length) :
    (l.move m).stop = m l.stop := (h _ le_rfl).symm

namespace LineEdit

variable {l : Line} (E : LineEdit l)

theorem length_splice {e : TextEdit} {s : List Char} (h : e.span.stop ≤ s.length) :
    (TextEdit.splice e.span e.newText.toList s).length = e.move s.length := by
  have := e.span.start_le_stop
  rw [TextEdit.move_after h]
  simp only [TextEdit.splice, List.length_append, List.length_take, List.length_drop,
    String.length_toList, Span.length]
  omega

/-- An edit of a line keeps the distances in all other lines of a cut. -/
theorem rigid_other {start : ℕ} {before after : List Line}
    (h : IsCut start (before ++ l :: after)) {x : Line} (hx : x ∈ before ∨ x ∈ after) :
    Rigid E.edit.move x.start x.content.length := by
  obtain ⟨-, hl, hcross⟩ := List.pairwise_append.mp h.pairwise
  rcases hx with hx | hx
  · exact E.rigid_before (hcross x hx l List.mem_cons_self)
  · exact E.rigid_after ((List.pairwise_cons.mp hl).1 x hx) _

theorem stop_le_length {start : ℕ} {before after : List Line} {mark : List Char}
    (h : IsCut start (before ++ l :: after)) (hm : mark.length = start) :
    E.edit.span.stop ≤ (mark ++ (before ++ l :: after).flatMap Line.chars).length := by
  have hl := start_of_isCut h
  have hc := congrArg List.length E.content_eq
  simp only [List.length_append] at hc
  simp only [edit, Span.ofLength_stop, List.length_append, List.flatMap_append, List.flatMap_cons,
    Line.chars]
  omega

end LineEdit

/-- Another date in the last date field is the date of the front matter. -/
theorem frontMatter_withDate {fields fields' : List Field} {f : Field} {span : Span} {d : Date}
    {old : Located Date} {value : String} (hf : f.key = .date) (hold : f.toDate = .read old)
    (hvalue : Date.parse value = .ok d) (hlast : ∀ g ∈ fields', g.key ≠ .date) :
    Block.frontMatter (fields ++ f.withValue value :: fields') span =
      (Block.frontMatter (fields ++ f :: fields') span).withDate d := by
  have hnew : (f.withValue value).toDate = .read { old with value := d } := by
    rw [Field.toDate_of_parse hvalue, (Field.parse_of_toDate hold).2]
    rfl
  have hother : ∀ {key : FieldKey}, key ≠ .date →
      lastField (fields ++ f.withValue value :: fields') key =
        lastField (fields ++ f :: fields') key := by
    intro key hkey
    have hne : f.key ≠ key := by rw [hf]; exact hkey.symm
    exact lastField_other hne hne
  unfold Block.frontMatter FrontMatter.withDate
  rw [lastField_append (f := f.withValue value) hf hlast, lastField_append hf hlast,
    hother (by decide), hother (by decide), Option.map_some, Option.map_some, hnew, hold]
  rfl

namespace Document

variable (D : Document) {before after : List Line} {l : Line}

theorem start_le (hl : l ∈ D.lines) : D.marked.toNat ≤ l.start := D.cut.start_le l hl

/-- The span of the block moves with its ends. -/
theorem blockSpan_move {m : ℕ →o ℕ} {start : ℕ} {closing : Line} (hs : m start = start)
    (hr : Rigid m closing.start closing.content.length) (hle : start ≤ closing.start) :
    (Span.ofLength start (closing.stop - start)).move m =
      Span.ofLength start ((closing.move m).stop - start) := by
  have hstop : start ≤ closing.stop := hle.trans (Nat.le_add_right _ _)
  rw [Span.move_ofLength_sub m hstop, hs, Text.Line.stop_move hr]

theorem textSpan_move {e : TextEdit} (h : e.span.start < e.span.stop) {s : List Char}
    (hs : e.span.stop ≤ s.length) : (Span.ofLength 0 s.length).move e.move =
      Span.ofLength 0 (TextEdit.splice e.span e.newText.toList s).length := by
  refine Span.ext (TextEdit.move_of_le h (Nat.zero_le _)) ?_
  show e.move (0 + s.length) = 0 + _
  rw [Nat.zero_add, Nat.zero_add, LineEdit.length_splice hs]

/-- What a line of the body is, with its fault. -/
def readLine (l : Line) : BodyLine × Option ParseFault := BodyLine.read l.start l.content

theorem map_readLine_move {m : ℕ →o ℕ} {ls : List Line}
    (h : ∀ l ∈ ls, Rigid m l.start l.content.length) : (ls.map (Line.move m)).map readLine =
      (ls.map readLine).map fun r => (r.1.move m, r.2.map (ParseFault.move m)) :=
  (relocates_move h).map_bodyLine

/-! ### A line of the body -/

section Body

theorem lines_eq_body (h : D.body = before ++ l :: after) :
    D.lines = (D.opening :: (D.inner ++ D.closing :: before)) ++ l :: after := by
  rw [lines, h]
  simp only [List.cons_append, List.append_assoc]

theorem cut_body (h : D.body = before ++ l :: after) :
    IsCut D.marked.toNat ((D.opening :: (D.inner ++ D.closing :: before)) ++ l :: after) :=
  D.lines_eq_body h ▸ D.cut

variable (h : D.body = before ++ l :: after) (E : LineEdit l)

/-- The document after an edit of a line of the body. -/
def editBody : Document where
  marked := D.marked
  opening := D.opening.move E.edit.move
  inner := D.inner.map (Line.move E.edit.move)
  closing := D.closing.move E.edit.move
  body := (before ++ E.line :: after).map (Line.move E.edit.move)
  cut := by
    have hedit := E.isCut (D.cut_body h)
    simp only [List.cons_append, List.append_assoc, List.map_cons, List.map_append] at hedit ⊢
    exact hedit
  opens := D.opens
  within := by
    intro x hx
    obtain ⟨y, hy, rfl⟩ := List.mem_map.mp hx
    exact D.within y hy
  closes := D.closes

theorem lines_editBody : (D.editBody h E).lines =
    ((D.opening :: (D.inner ++ D.closing :: before)) ++ E.line :: after).map
      (Line.move E.edit.move) := by
  simp only [lines, editBody, List.cons_append, List.append_assoc, List.map_cons, List.map_append]

/-- **The text of the edited document is the text with the span replaced.** -/
theorem text_editBody : (D.editBody h E).text =
    TextEdit.splice E.edit.span E.edit.newText.toList D.text := by
  have hsplice := E.splice_eq (D.cut_body h) D.length_mark
  have hmark : (D.editBody h E).mark = D.mark := rfl
  rw [text, text, hmark, lines_editBody, hsplice.symm, D.lines_eq_body h]

theorem stop_le_body (h : D.body = before ++ l :: after) (E : LineEdit l) :
    E.edit.span.stop ≤ D.text.length := by
  have hle := E.stop_le_length (D.cut_body h) D.length_mark
  rw [text, D.lines_eq_body h]
  exact hle

theorem rigid_body (h : D.body = before ++ l :: after) (E : LineEdit l) {x : Line}
    (hx : x = D.opening ∨ x ∈ D.inner ∨ x = D.closing ∨ x ∈ before ∨ x ∈ after) :
    Rigid E.edit.move x.start x.content.length := by
  refine E.rigid_other (D.cut_body h) ?_
  simp only [List.mem_cons, List.mem_append]
  tauto

theorem blockLines_editBody :
    (D.editBody h E).blockLines = D.blockLines.map (BlockLine.move E.edit.move) :=
  (relocates_move fun _ hx => D.rigid_body h E (Or.inr (Or.inl hx))).map_blockLine

theorem frontMatter_editBody :
    (D.editBody h E).journal.frontMatter = D.journal.frontMatter.move E.edit.move := by
  have hopen : D.marked.toNat ≤ l.start :=
    D.start_le (by rw [D.lines_eq_body h]; exact List.mem_append_right _ List.mem_cons_self)
  have hclose : D.marked.toNat ≤ D.closing.start := D.start_le (by simp [lines])
  have hm : E.edit.move D.marked.toNat = D.marked.toNat :=
    TextEdit.move_of_le E.start_lt_stop (hopen.trans (Nat.le_add_right _ _))
  have hspan : (D.editBody h E).blockSpan = D.blockSpan.move E.edit.move :=
    (blockSpan_move hm (D.rigid_body h E (by tauto)) hclose).symm
  have hfields : (D.editBody h E).fields = D.fields.map (Field.move E.edit.move) := by
    rw [fields, blockLines_editBody, filterMap_field?_move]
    rfl
  show Block.frontMatter _ _ = (Block.frontMatter _ _).move _
  rw [hspan, hfields, Block.frontMatter_move]

theorem bodyLines_editBody : (D.editBody h E).bodyLines =
    (before.map readLine).map (fun r => (r.1.move E.edit.move, r.2.map (ParseFault.move E.edit.move)))
      ++ BodyLine.read l.start E.content ::
    (after.map readLine).map fun r =>
      (r.1.move E.edit.move, r.2.map (ParseFault.move E.edit.move)) := by
  have hbefore := map_readLine_move fun x hx =>
    D.rigid_body h E (Or.inr (Or.inr (Or.inr (Or.inl hx))))
  have hafter := map_readLine_move fun x hx =>
    D.rigid_body h E (Or.inr (Or.inr (Or.inr (Or.inr hx))))
  have hline : readLine (E.line.move E.edit.move) = BodyLine.read l.start E.content := by
    show BodyLine.read (E.edit.move l.start) E.content = _
    rw [E.move_start]
  show ((before ++ E.line :: after).map (Line.move E.edit.move)).map readLine = _
  rw [List.map_append, List.map_cons, List.map_append, List.map_cons, hbefore, hafter, hline]

theorem lines_journal (h : D.body = before ++ l :: after) : D.journal.lines =
    (before.map readLine).map Prod.fst ++ (readLine l).1 :: (after.map readLine).map Prod.fst := by
  show (D.body.map readLine).map Prod.fst = _
  rw [h]
  simp only [List.map_append, List.map_cons]

theorem faults_body (h : D.body = before ++ l :: after) : D.faults =
    D.blockLines.filterMap BlockLine.fault? ++ ((before.map readLine).filterMap Prod.snd ++
      ((readLine l).2.toList ++ (after.map readLine).filterMap Prod.snd)) := by
  show _ ++ (D.body.map readLine).filterMap Prod.snd = _
  rw [h, List.map_append, List.map_cons, List.filterMap_append, List.filterMap_cons]
  cases (readLine l).2 <;> rfl

/-- **The journal of the edited document**, if the edited line is still an entry. -/
theorem journal_editBody {e : Entry} {f : Entry → Entry} (he : (readLine l).1 = .entry e)
    (hread : (BodyLine.read l.start E.content).1 = .entry ((f e).move E.edit.move)) :
    (D.editBody h E).journal = (D.journal.mapLine before.length f).move E.edit.move := by
  have hlines := D.lines_journal h
  rw [he] at hlines
  have hmap := Journal.mapLine_eq hlines f
  rw [List.length_map, List.length_map] at hmap
  have hspan := textSpan_move E.start_lt_stop (D.stop_le_body h E)
  rw [← D.text_editBody h E] at hspan
  have hbody : (D.editBody h E).journal.lines =
      ((D.journal.mapLine before.length f).move E.edit.move).lines := by
    show (D.editBody h E).bodyLines.map Prod.fst = _
    rw [hmap, bodyLines_editBody, List.map_append, List.map_cons, hread]
    simp only [Journal.move, List.map_append, List.map_cons, List.map_map]
    rfl
  show (⟨(D.editBody h E).journal.frontMatter, (D.editBody h E).journal.lines, _⟩ : Journal) = _
  rw [frontMatter_editBody, hbody, ← hspan, hmap]
  rfl

/-- **The faults in the edited document.** -/
theorem faults_editBody
    (hread : (BodyLine.read l.start E.content).2 = (readLine l).2.map (ParseFault.move E.edit.move)) :
    (D.editBody h E).faults = D.faults.map (ParseFault.move E.edit.move) := by
  have hline : (BodyLine.read l.start E.content).2.toList =
      (readLine l).2.toList.map (ParseFault.move E.edit.move) := by
    rw [hread]
    cases (readLine l).2 <;> rfl
  have hcons : ∀ (r : BodyLine × Option ParseFault) (rs : List (BodyLine × Option ParseFault)),
      (r :: rs).filterMap Prod.snd = r.2.toList ++ rs.filterMap Prod.snd := by
    intro r rs
    rw [List.filterMap_cons]
    cases r.2 <;> rfl
  show (D.editBody h E).blockLines.filterMap BlockLine.fault? ++
    (D.editBody h E).bodyLines.filterMap Prod.snd = _
  rw [blockLines_editBody, filterMap_fault?_move, bodyLines_editBody, List.filterMap_append, hcons,
    filterMap_snd_move, filterMap_snd_move, hline, D.faults_body h]
  simp only [List.map_append]

end Body

/-! ### A line of the front matter -/

section Inner

theorem lines_eq_inner (h : D.inner = before ++ l :: after) :
    D.lines = (D.opening :: before) ++ l :: (after ++ D.closing :: D.body) := by
  rw [lines, h]
  simp only [List.cons_append, List.append_assoc]

theorem cut_inner (h : D.inner = before ++ l :: after) :
    IsCut D.marked.toNat ((D.opening :: before) ++ l :: (after ++ D.closing :: D.body)) :=
  D.lines_eq_inner h ▸ D.cut

variable (h : D.inner = before ++ l :: after) (E : LineEdit l)
  (hE : isDelimiter E.content = false)

/-- The document after an edit of a line of the front matter. -/
def editInner : Document where
  marked := D.marked
  opening := D.opening.move E.edit.move
  inner := (before ++ E.line :: after).map (Line.move E.edit.move)
  closing := D.closing.move E.edit.move
  body := D.body.map (Line.move E.edit.move)
  cut := by
    have hedit := E.isCut (D.cut_inner h)
    simp only [List.cons_append, List.append_assoc, List.map_cons, List.map_append] at hedit ⊢
    exact hedit
  opens := D.opens
  within := by
    intro x hx
    obtain ⟨y, hy, rfl⟩ := List.mem_map.mp hx
    rw [List.mem_append, List.mem_cons] at hy
    rcases hy with hy | rfl | hy
    · exact D.within y (by rw [h]; exact List.mem_append_left _ hy)
    · exact hE
    · exact D.within y (by rw [h]; exact List.mem_append_right _ (List.mem_cons_of_mem _ hy))
  closes := D.closes

theorem lines_editInner : (D.editInner h E hE).lines =
    ((D.opening :: before) ++ E.line :: (after ++ D.closing :: D.body)).map
      (Line.move E.edit.move) := by
  simp only [lines, editInner, List.cons_append, List.append_assoc, List.map_cons, List.map_append]

/-- **The text of the edited document is the text with the span replaced.** -/
theorem text_editInner : (D.editInner h E hE).text =
    TextEdit.splice E.edit.span E.edit.newText.toList D.text := by
  have hsplice := E.splice_eq (D.cut_inner h) D.length_mark
  have hmark : (D.editInner h E hE).mark = D.mark := rfl
  rw [text, text, hmark, lines_editInner, hsplice.symm, D.lines_eq_inner h]

theorem stop_le_inner (h : D.inner = before ++ l :: after) (E : LineEdit l) :
    E.edit.span.stop ≤ D.text.length := by
  have hle := E.stop_le_length (D.cut_inner h) D.length_mark
  rw [text, D.lines_eq_inner h]
  exact hle

theorem rigid_inner (h : D.inner = before ++ l :: after) (E : LineEdit l) {x : Line}
    (hx : x ∈ before ∨ x ∈ after ∨ x = D.closing ∨ x ∈ D.body) :
    Rigid E.edit.move x.start x.content.length := by
  refine E.rigid_other (D.cut_inner h) ?_
  simp only [List.mem_cons, List.mem_append]
  tauto

theorem blockLines_inner (h : D.inner = before ++ l :: after) : D.blockLines =
    before.map BlockLine.read ++ BlockLine.read l :: after.map BlockLine.read := by
  rw [blockLines, h, List.map_append, List.map_cons]

theorem blockLines_editInner {x : BlockLine}
    (hx : BlockLine.read E.line = x.move E.edit.move) : (D.editInner h E hE).blockLines =
      (before.map BlockLine.read ++ x :: after.map BlockLine.read).map
        (BlockLine.move E.edit.move) := by
  have hbefore := (relocates_move fun x hx => D.rigid_inner h E (Or.inl hx)).map_blockLine
  have hafter := (relocates_move fun x hx => D.rigid_inner h E (Or.inr (Or.inl hx))).map_blockLine
  have hline : E.line.move E.edit.move = E.line := by
    show { E.line with start := E.edit.move l.start } = _
    rw [E.move_start]
    rfl
  show ((before ++ E.line :: after).map (Line.move E.edit.move)).map BlockLine.read = _
  rw [List.map_append, List.map_cons, List.map_append, List.map_cons, List.map_append,
    List.map_cons, hbefore, hafter, hline, hx]

theorem bodyLines_editInner : (D.editInner h E hE).bodyLines =
    D.bodyLines.map fun r => (r.1.move E.edit.move, r.2.map (ParseFault.move E.edit.move)) :=
  map_readLine_move fun _ hx => D.rigid_inner h E (Or.inr (Or.inr (Or.inr hx)))

/-- The span of the block after the edit. -/
theorem blockSpan_editInner : (D.editInner h E hE).blockSpan = D.blockSpan.move E.edit.move := by
  have hopen : D.marked.toNat ≤ l.start :=
    D.start_le (by rw [D.lines_eq_inner h]; exact List.mem_append_right _ List.mem_cons_self)
  have hclose : D.marked.toNat ≤ D.closing.start := D.start_le (by simp [lines])
  have hm : E.edit.move D.marked.toNat = D.marked.toNat :=
    TextEdit.move_of_le E.start_lt_stop (hopen.trans (Nat.le_add_right _ _))
  exact (blockSpan_move hm (D.rigid_inner h E (by tauto)) hclose).symm

theorem lines_editInner_journal : (D.editInner h E hE).journal.lines =
    D.journal.lines.map (BodyLine.move E.edit.move) := by
  show (D.editInner h E hE).bodyLines.map Prod.fst = (D.bodyLines.map Prod.fst).map _
  rw [bodyLines_editInner, List.map_map, List.map_map]
  rfl

variable {f : Field} {d : Date} {old : Located Date} {value : String}

/-- **The journal of the edited document**, if the edited line holds the last date. -/
theorem journal_editInner (hf : BlockLine.read l = .field f) (hkey : f.key = .date)
    (hold : f.toDate = .read old)
    (hlast : ∀ g ∈ (after.map BlockLine.read).filterMap BlockLine.field?, g.key ≠ .date)
    (hvalue : Date.parse value = .ok d)
    (hnew : BlockLine.read E.line = (BlockLine.field (f.withValue value)).move E.edit.move) :
    (D.editInner h E hE).journal = (D.journal.set (.date d)).move E.edit.move := by
  have hspan := textSpan_move E.start_lt_stop (D.stop_le_inner h E)
  rw [← D.text_editInner h E hE] at hspan
  have hfields : D.fields = (before.map BlockLine.read).filterMap BlockLine.field? ++
      f :: (after.map BlockLine.read).filterMap BlockLine.field? := by
    rw [fields, D.blockLines_inner h, hf, List.filterMap_append]
    rfl
  have hfields' : (D.editInner h E hE).fields =
      ((before.map BlockLine.read).filterMap BlockLine.field? ++ f.withValue value ::
        (after.map BlockLine.read).filterMap BlockLine.field?).map (Field.move E.edit.move) := by
    rw [fields, D.blockLines_editInner h E hE hnew, filterMap_field?_move, List.filterMap_append]
    rfl
  have hfront : (D.editInner h E hE).journal.frontMatter =
      (D.journal.frontMatter.withDate d).move E.edit.move := by
    show Block.frontMatter _ _ = ((Block.frontMatter _ _).withDate d).move _
    rw [hfields', blockSpan_editInner, Block.frontMatter_move, hfields,
      frontMatter_withDate hkey hold hvalue hlast]
  show (⟨(D.editInner h E hE).journal.frontMatter, (D.editInner h E hE).journal.lines, _⟩ :
    Journal) = _
  rw [hfront, lines_editInner_journal, ← hspan]
  rfl

/-- **The faults in the edited document**, if the edited line has none before and after. -/
theorem faults_editInner {x : BlockLine} (hold : (BlockLine.read l).fault? = none)
    (hx : x.fault? = none) (hnew : BlockLine.read E.line = x.move E.edit.move) :
    (D.editInner h E hE).faults = D.faults.map (ParseFault.move E.edit.move) := by
  show (D.editInner h E hE).blockLines.filterMap BlockLine.fault? ++
    (D.editInner h E hE).bodyLines.filterMap Prod.snd = _
  rw [D.blockLines_editInner h E hE hnew, filterMap_fault?_move, bodyLines_editInner,
    filterMap_snd_move, faults, D.blockLines_inner h]
  simp only [List.filterMap_append, List.filterMap_cons, hold, hx, List.map_append]

end Inner

end Document

end TimeJournal
