import TimeJournal.Proofs.Edit.Reread
import TimeJournal.Proofs.Export.Accounting

/-! # Texts that differ in their date

All dates are written with the same number of characters. So when the date of a text is replaced by
another one, nothing moves: the new text has the old journal with that date, and the old faults.

* `FixesOutside`: a map that changes offsets inside a span only. If that span is the value of a field,
  the map leaves a document as it is (`Document.journal_move_eq`, `Document.faults_move_eq`).
* `SameButDate`: two texts that differ in the date of the front matter only; `SameButDate.symm`: each
  of them is the other one with its date replaced.
* `SameButDate.reading_eq`: what is read in the second text. -/

namespace TimeJournal

open Text

/-- The map changes offsets inside the span only. -/
def FixesOutside (m : ℕ →o ℕ) (s : Span) : Prop := ∀ p, p ≤ s.start ∨ s.stop ≤ p → m p = p

namespace FixesOutside

variable {m : ℕ →o ℕ} {s : Span}

theorem rigid (h : FixesOutside m s) {start length : ℕ}
    (hline : start + length ≤ s.start ∨ s.stop ≤ start) :
    m start = start ∧ Rigid m start length := by
  have hstart : m start = start := h start (by omega)
  refine ⟨hstart, fun k hk => ?_⟩
  rw [hstart, h (start + k) (by omega)]

/-- A span whose ends do not lie inside the span stays. -/
theorem move_span (h : FixesOutside m s) {t : Span} (hstart : t.start ≤ s.start ∨ s.stop ≤ t.start)
    (hstop : t.stop ≤ s.start ∨ s.stop ≤ t.stop) : t.move m = t :=
  Span.ext (h _ hstart) (h _ hstop)

theorem blockLine (h : FixesOutside m s) {l : Line}
    (hline : l.stop ≤ s.start ∨ s.stop ≤ l.start) :
    (BlockLine.read l).move m = BlockLine.read l := by
  obtain ⟨hstart, hrigid⟩ := h.rigid hline
  have hmove : l.move m = l := by
    show { l with start := m l.start } = l
    rw [hstart]
  rw [← BlockLine.read_move hrigid, hmove]

theorem bodyLine (h : FixesOutside m s) {l : Line} (hline : s.stop ≤ l.start) :
    ((BodyLine.read l.start l.content).1.move m,
      (BodyLine.read l.start l.content).2.map (ParseFault.move m)) =
        BodyLine.read l.start l.content := by
  obtain ⟨hstart, hrigid⟩ : m l.start = l.start ∧ Rigid m l.start l.content.length :=
    h.rigid (Or.inr hline)
  rw [← BodyLine.read_move hrigid, hstart]

end FixesOutside

/-- An edit that writes as many characters as it takes away moves nothing. -/
theorem TextEdit.fixesOutside {e : TextEdit} (h : e.span.start < e.span.stop)
    (hlength : e.newText.length = e.span.length) : FixesOutside e.move e.span := by
  rintro p (hp | hp)
  · exact move_of_le h hp
  · rw [move_after hp, hlength]
    unfold Span.length
    omega

/-! ### Documents -/

namespace Document

variable (D : Document) {before after : List Line} {l : Line} {f : Field} {m : ℕ →o ℕ}
  (hinner : D.inner = before ++ l :: after) (hread : BlockLine.read l = .field f)
  (hm : FixesOutside m f.span)

include hinner hread

/-- The value of a field lies in its line, the other lines in front of it or behind it. -/
theorem within_field : l.start ≤ f.span.start ∧ f.span.stop ≤ l.stop ∧
    (∀ x ∈ before, x.stop ≤ f.span.start) ∧
    ∀ x ∈ after ++ D.closing :: D.body, f.span.stop ≤ x.start := by
  have hstop := BlockLine.span_le hread
  obtain ⟨t, -, rfl⟩ := BlockLine.exists_fieldText hread
  have hstart : l.start ≤ l.start + t.valueOffset := Nat.le_add_right _ _
  obtain ⟨-, hpairwise, hcross⟩ := List.pairwise_append.mp (D.cut_inner hinner).pairwise
  refine ⟨hstart, hstop, fun x hx => ?_, fun x hx => ?_⟩
  · exact (hcross x (List.mem_cons_of_mem _ hx) l List.mem_cons_self).trans hstart
  · exact hstop.trans ((List.pairwise_cons.mp hpairwise).1 x hx)

include hm

theorem blockLines_move_eq : D.blockLines.map (BlockLine.move m) = D.blockLines := by
  obtain ⟨hstart, -, hbefore, hafter⟩ := D.within_field hinner hread
  rw [blockLines, List.map_map]
  refine List.map_congr_left fun x hx => ?_
  rw [hinner, List.mem_append, List.mem_cons] at hx
  rcases hx with hx | rfl | hx
  · exact hm.blockLine (Or.inl (hbefore x hx))
  · have hspan := hm.move_span (t := f.span) (Or.inl le_rfl) (Or.inr le_rfl)
    obtain ⟨t, -, rfl⟩ := BlockLine.exists_fieldText hread
    have hline := hm x.start (Or.inl hstart)
    show (BlockLine.read x).move m = BlockLine.read x
    rw [hread]
    show BlockLine.field ⟨_, _, _, _⟩ = _
    rw [hspan, hline]
  · exact hm.blockLine (Or.inr (hafter x (List.mem_append_left _ hx)))

theorem bodyLines_move_eq :
    (D.bodyLines.map fun r => (r.1.move m, r.2.map (ParseFault.move m))) = D.bodyLines := by
  obtain ⟨-, -, -, hafter⟩ := D.within_field hinner hread
  rw [bodyLines, List.map_map]
  exact List.map_congr_left fun x hx =>
    hm.bodyLine (hafter x (List.mem_append_right _ (List.mem_cons_of_mem _ hx)))

/-- **Its journal stays where it is.** -/
theorem journal_move_eq : D.journal.move m = D.journal := by
  obtain ⟨hstart, hstop, -, hafter⟩ := D.within_field hinner hread
  have hfields : D.fields.map (Field.move m) = D.fields := by
    rw [fields, ← filterMap_field?_move, D.blockLines_move_eq hinner hread hm]
  have hopen : D.marked.toNat ≤ l.start :=
    D.start_le (by rw [D.lines_eq_inner hinner]; exact List.mem_append_right _ List.mem_cons_self)
  have hclosing : f.span.stop ≤ D.closing.start :=
    hafter _ (List.mem_append_right _ List.mem_cons_self)
  have hblock : D.blockSpan.move m = D.blockSpan := by
    refine hm.move_span (Or.inl (hopen.trans hstart)) (Or.inr ?_)
    rw [blockSpan_stop]
    exact hclosing.trans (Nat.le_add_right _ _)
  have htext : (Span.ofLength 0 D.text.length).move m = Span.ofLength 0 D.text.length := by
    refine hm.move_span (Or.inl (Nat.zero_le _)) (Or.inr ?_)
    have hlength := (D.areLines.stands_of_mem (l := D.closing) (by simp [lines])).add_le_length
    show _ ≤ 0 + D.text.length
    omega
  have hlines : (D.bodyLines.map Prod.fst).map (BodyLine.move m) = D.bodyLines.map Prod.fst := by
    conv_rhs => rw [← D.bodyLines_move_eq hinner hread hm]
    rw [List.map_map, List.map_map]
    rfl
  show (⟨(Block.frontMatter D.fields D.blockSpan).move m, (D.bodyLines.map Prod.fst).map _,
    (Span.ofLength 0 D.text.length).move m⟩ : Journal) = _
  rw [← Block.frontMatter_move, hfields, hblock, hlines, htext]
  rfl

/-- **Its faults stay where they are.** -/
theorem faults_move_eq : D.faults.map (ParseFault.move m) = D.faults := by
  rw [faults, List.map_append, ← filterMap_fault?_move, ← filterMap_snd_move,
    D.blockLines_move_eq hinner hread hm, D.bodyLines_move_eq hinner hread hm]

end Document

/-! ### Another date -/

/-- Setting the date moves nothing. -/
theorem Journal.set_date_move (j : Journal) (d : Date) (m : ℕ →o ℕ) :
    (j.set (.date d)).move m = (j.move m).set (.date d) := by
  have hdate : (j.frontMatter.withDate d).move m = (j.frontMatter.move m).withDate d := by
    unfold FrontMatter.withDate FrontMatter.move
    dsimp only
    rcases j.frontMatter.date with _ | part
    · rfl
    · cases part <;> rfl
  show (⟨(j.frontMatter.withDate d).move m, _, _⟩ : Journal) = _
  rw [hdate]
  rfl

/-- A text in three parts: what stands in front of a span, in it and behind it. -/
theorem Span.take_slice_drop (s : Span) (text : List Char) :
    text.take s.start ++ s.slice text ++ text.drop s.stop = text := by
  have hle := s.start_le_stop
  have hdrop : text.drop s.stop = (text.drop s.start).drop s.length := by
    unfold length
    rw [List.drop_drop, Nat.add_sub_cancel' hle]
  rw [slice, hdrop, List.append_assoc, List.take_append_drop, List.take_append_drop]

/-- The second text is the first one with another date in the place of the date of its front matter,
which is the value of the last date field. -/
structure SameButDate (s s' : List Char) (j : Journal) (a : Located Date) (d' : Date) : Prop where
  journal : (Reading.ofText s).journal = some j
  date : j.frontMatter.date? = some a
  text : s' = TextEdit.splice a.span d'.toString.toList s

namespace SameButDate

variable {s s' : List Char} {j : Journal} {a : Located Date} {d' : Date}
  (h : SameButDate s s' j a d')

include h

theorem rereads : Rereads s j (.date d') ⟨a.span, d'.toString⟩ :=
  TimeJournal.rereads h.journal (Journal.partSpan?_date h.date d') trivial

/-- The date stands in its span. -/
theorem slice_eq : a.span.slice s = a.value.toString.toList := by
  obtain ⟨D, rfl, rfl⟩ := exists_document h.journal
  exact (D.slice_of_mem_frontMatter (FrontMatter.written_mem_parts h.date)).1

theorem stop_eq : a.span.stop = a.span.start + 10 := by
  have hlength := congrArg List.length h.slice_eq
  have hstop := h.rereads.stop_le_length
  have hle := a.span.start_le_stop
  rw [Span.slice, List.length_take, List.length_drop, String.length_toList,
    Date.length_toString, Span.length] at hlength
  dsimp only at hstop
  omega

/-- **The journal of the second text is the one of the first text, with the other date**, and the
faults are the same. -/
theorem reading_eq : (Reading.ofText s').journal = some (j.set (.date d')) ∧
    (Reading.ofText s').faults = (Reading.ofText s).faults := by
  have hreads := h.rereads
  have hjournal := hreads.journal
  have hfaults := hreads.faults
  have hfixes : FixesOutside (TextEdit.move ⟨a.span, d'.toString⟩) a.span := by
    refine TextEdit.fixesOutside hreads.start_lt_stop ?_
    have hstop := h.stop_eq
    show d'.toString.length = a.span.length
    rw [Date.length_toString, Span.length]
    omega
  obtain ⟨D, rfl, rfl⟩ := exists_document h.journal
  obtain ⟨before, l, after, f, hinner, hread, -, hdate, -⟩ := D.exists_dateLine h.date
  have hfield : FixesOutside (TextEdit.move ⟨a.span, d'.toString⟩) f.span := by
    rw [← (Field.parse_of_toDate hdate).2]
    exact hfixes
  rw [Journal.set_date_move, D.journal_move_eq hinner hread hfield] at hjournal
  rw [D.faults_ofText, D.faults_move_eq hinner hread hfield, ← D.faults_ofText] at hfaults
  rw [h.text]
  exact ⟨hjournal, hfaults⟩

/-- **The first text is the second one with the first date in the place of its date.** -/
theorem symm : SameButDate s' s (j.set (.date d')) { a with value := d' } a.value where
  journal := h.reading_eq.1
  date := by
    show (j.frontMatter.withDate d').date? = _
    rw [FrontMatter.date?_withDate, h.date]
    rfl
  text := by
    have hstop := h.stop_eq
    have hspan : ∀ d : Date, a.span = Span.ofLength (s.take a.span.start).length
        d.toString.toList.length := by
      intro d
      have hle := h.rereads.stop_le_length
      dsimp only at hle
      have hstart : (s.take a.span.start).length = a.span.start := List.length_take_of_le (by omega)
      rw [hstart, String.length_toList, Date.length_toString]
      exact Span.ext rfl hstop
    have hs := a.span.take_slice_drop s
    rw [h.slice_eq] at hs
    have hback := TextEdit.splice_append (s.take a.span.start) d'.toString.toList
      (s.drop a.span.stop) a.value.toString.toList
    rw [← hspan, hs] at hback
    rw [h.text]
    exact hback.symm

theorem length_eq : s'.length = s.length := by
  have hstop := h.stop_eq
  have hle := h.rereads.stop_le_length
  dsimp only at hle
  rw [h.text, TextEdit.splice, List.length_append, List.length_append, List.length_take,
    List.length_drop, String.length_toList, Date.length_toString]
  omega

end SameButDate

end TimeJournal
