import TimeJournal.Edit.TextEdit
import TimeJournal.Proofs.Journal.Move

/-! # Edits inside a line

A `LineEdit` replaces a piece of the content of a line by characters that end no line.
`TextEdit.move` says where the offsets of a text are found after an edit: those up to the edit stay,
those behind it move by the difference in length.

* `LineEdit.isCut`: the cut of the text after the edit has the edited line in place of the old one
  and all lines at their new places.
* `LineEdit.splice_eq`: its characters are those of the text with the span replaced. -/

namespace TimeJournal

open Text

/-- The offset where something in front of or behind an edit is found after the edit; offsets inside
are taken to its beginning. -/
def TextEdit.move (e : TextEdit) : ℕ →o ℕ where
  toFun p := if p < e.span.stop then min p e.span.start else p - e.span.length + e.newText.length
  monotone' p q hpq := by
    have := e.span.start_le_stop
    unfold Span.length
    dsimp only
    split_ifs <;> omega

namespace TextEdit

variable {e : TextEdit}

theorem move_apply (e : TextEdit) (p : ℕ) : e.move p =
    if p < e.span.stop then min p e.span.start else p - e.span.length + e.newText.length := rfl

theorem move_of_le (h : e.span.start < e.span.stop) {p : ℕ} (hp : p ≤ e.span.start) :
    e.move p = p := by
  rw [move_apply, if_pos (by omega), min_eq_left hp]

theorem move_stop_add (e : TextEdit) (k : ℕ) :
    e.move (e.span.stop + k) = e.span.start + e.newText.length + k := by
  have := e.span.start_le_stop
  rw [move_apply, if_neg (by omega)]
  unfold Span.length
  omega

theorem rigid_before (h : e.span.start < e.span.stop) {start length : ℕ}
    (hl : start + length ≤ e.span.start) : Rigid e.move start length := by
  intro k hk
  rw [move_of_le h (by omega), move_of_le h (by omega)]

theorem rigid_after {start : ℕ} (hs : e.span.stop ≤ start) (length : ℕ) :
    Rigid e.move start length := by
  intro k _
  obtain ⟨d, rfl⟩ := Nat.exists_eq_add_of_le hs
  simp only [Nat.add_assoc, move_stop_add]

theorem move_after {p : ℕ} (hp : e.span.stop ≤ p) :
    e.move p = p - e.span.length + e.newText.length := by
  rw [move_apply, if_neg (by omega)]

theorem ofLength_after {p : ℕ} (hp : e.span.stop ≤ p) (n : ℕ) :
    (Span.ofLength p n).move e.move = Span.ofLength (e.move p) n :=
  (rigid_after hp n).ofLength_move (k := 0) (by omega)

theorem ofLength_before (h : e.span.start < e.span.stop) {p n : ℕ} (hp : p + n ≤ e.span.start) :
    (Span.ofLength p n).move e.move = Span.ofLength p n := by
  have hr := (rigid_before h hp).ofLength_move (k := 0) (n := n) (by omega)
  rw [move_of_le h (p := p) (by omega)] at hr
  exact hr

theorem splice_append (front old back new : List Char) :
    splice (Span.ofLength front.length old.length) new (front ++ old ++ back) =
      front ++ new ++ back := by
  simp only [splice, Span.ofLength_start, Span.ofLength_stop, List.append_assoc]
  rw [List.take_left, ← List.append_assoc front old, ← List.length_append, List.drop_left]

/-- The span of the new text. -/
def newSpan (e : TextEdit) : Span := Span.ofLength e.span.start e.newText.length

theorem move_span (h : e.span.start < e.span.stop) : e.span.move e.move = e.newSpan :=
  Span.ext (move_of_le h le_rfl) (move_stop_add e 0)

end TextEdit

/-- A piece of the content of a line, and what replaces it. -/
structure LineEdit (l : Line) where
  front : List Char
  old : List Char
  new : List Char
  back : List Char
  content_eq : l.content = front ++ old ++ back
  old_ne_nil : old ≠ []
  new_ne_nil : new ≠ []
  new_plain : ∀ c ∈ new, c ≠ '\r' ∧ c ≠ '\n'

namespace LineEdit

variable {l : Line} (E : LineEdit l)

/-- The edit of the text. -/
def edit : TextEdit := ⟨Span.ofLength (l.start + E.front.length) E.old.length, String.ofList E.new⟩

/-- The content of the line after the edit. -/
def content : List Char := E.front ++ E.new ++ E.back

/-- The line after the edit. -/
def line : Line := { l with content := E.content }

theorem length_newText : E.edit.newText.length = E.new.length := by simp [edit]

theorem start_lt_stop : E.edit.span.start < E.edit.span.stop := by
  have := List.length_pos_iff.mpr E.old_ne_nil
  simp only [edit, Span.ofLength_start, Span.ofLength_stop]
  omega

theorem move_start : E.edit.move l.start = l.start :=
  TextEdit.move_of_le E.start_lt_stop (by simp [edit])

/-- The edit keeps the distances behind the old piece. -/
theorem move_after (k : ℕ) :
    E.edit.move (l.start + l.content.length + k) = l.start + E.content.length + k := by
  have h := E.edit.move_stop_add (E.back.length + k)
  rw [E.length_newText] at h
  simp only [edit, Span.ofLength_start, Span.ofLength_stop] at h
  simp only [E.content_eq, content, List.length_append]
  simp only [Nat.add_assoc] at h ⊢
  exact h

theorem rigid_before {start length : ℕ} (h : start + length ≤ l.start) :
    Rigid E.edit.move start length :=
  TextEdit.rigid_before E.start_lt_stop (by
    simp only [edit, Span.ofLength_start]; omega)

theorem rigid_after {start : ℕ} (h : l.start + l.content.length ≤ start) (length : ℕ) :
    Rigid E.edit.move start length := by
  refine TextEdit.rigid_after ?_ length
  have := congrArg List.length E.content_eq
  simp only [List.length_append] at this
  simp only [edit, Span.ofLength_stop]
  omega

theorem getLast?_new : E.new.getLast? ≠ some '\r' := fun h =>
  (E.new_plain _ (List.mem_of_getLast? h)).1 rfl

theorem isWhole (h : l.IsWhole) : E.line.IsWhole := by
  obtain ⟨hfeed, hreturn, -⟩ := h
  rw [E.content_eq] at hfeed hreturn
  refine ⟨?_, fun he => ?_, fun _ => ?_⟩
  · show '\n' ∉ E.front ++ E.new ++ E.back
    have hn : '\n' ∉ E.new := fun h => (E.new_plain _ h).2 rfl
    simp only [List.mem_append, not_or] at hfeed ⊢
    exact ⟨⟨hfeed.1.1, hn⟩, hfeed.2⟩
  · show (E.front ++ E.new ++ E.back).getLast? ≠ some '\r'
    have hback := hreturn he
    rw [List.getLast?_append] at hback ⊢
    cases hb : E.back.getLast? with
    | some c => rw [hb] at hback; exact hback
    | none =>
      rw [Option.none_or, List.getLast?_append]
      cases hn : E.new.getLast? with
      | some c => rw [Option.some_or, ← hn]; exact E.getLast?_new
      | none => exact absurd (List.getLast?_eq_none_iff.mp hn) E.new_ne_nil
  · show E.front ++ E.new ++ E.back ≠ []
    simp [E.new_ne_nil]

/-! ### The text after the edit -/

section Cut

variable {start : ℕ} {before after : List Line}

theorem start_of_isCut (h : IsCut start (before ++ l :: after)) :
    l.start = start + (before.flatMap Line.chars).length :=
  h.of_append.1

/-- **The lines after the edit are a cut.** -/
theorem isCut (h : IsCut start (before ++ l :: after)) :
    IsCut start ((before ++ E.line :: after).map (Line.move E.edit.move)) := by
  have hl := start_of_isCut h
  induction before generalizing start with
  | nil =>
    obtain ⟨hs, hw, hlast, hcut⟩ := h
    have hw' := E.isWhole hw
    refine ⟨?_, ⟨hw'.noFeed, hw'.noReturn, hw'.ne_nil⟩, fun he => ?_, ?_⟩
    · rw [← hs]; exact E.move_start
    · rw [hlast he]; rfl
    · have hstop : E.edit.move (start + l.chars.length) =
          start + (E.line.move E.edit.move).chars.length := by
        have hafter := E.move_after l.ending.chars.length
        show _ = start + (E.content ++ l.ending.chars).length
        rw [Line.chars, List.length_append, List.length_append, ← hs, ← Nat.add_assoc, hafter,
          Nat.add_assoc]
      rw [← hstop]
      refine hcut.move fun k => ?_
      have hle : l.start + l.content.length ≤ start + l.chars.length := by
        simp only [Line.chars, List.length_append, hs]
        omega
      exact E.rigid_after hle k k le_rfl
  | cons x before ih =>
    obtain ⟨hs, hw, hlast, hcut⟩ := h
    rw [List.flatMap_cons, List.length_append] at hl
    have hx : E.edit.move x.start = x.start :=
      TextEdit.move_of_le E.start_lt_stop (by
        simp only [edit, Span.ofLength_start]; omega)
    refine ⟨hx.trans hs, ⟨hw.noFeed, hw.noReturn, hw.ne_nil⟩, fun he => ?_, ?_⟩
    · exact absurd (hlast he) (by simp)
    · rw [Line.chars_move]
      exact ih hcut (by omega)

/-- **The characters of the lines after the edit are those of the text with the span replaced**;
`mark` is what stands in front of the first line. -/
theorem splice_eq (h : IsCut start (before ++ l :: after)) {mark : List Char}
    (hm : mark.length = start) :
    TextEdit.splice E.edit.span E.edit.newText.toList
        (mark ++ (before ++ l :: after).flatMap Line.chars) =
      mark ++ ((before ++ E.line :: after).map (Line.move E.edit.move)).flatMap Line.chars := by
  have hl := start_of_isCut h
  have hspan : E.edit.span =
      Span.ofLength (mark ++ before.flatMap Line.chars ++ E.front).length E.old.length := by
    simp only [edit, List.length_append, hl, hm]
  have htext : mark ++ (before ++ l :: after).flatMap Line.chars =
      (mark ++ before.flatMap Line.chars ++ E.front) ++ E.old ++
        (E.back ++ l.ending.chars ++ after.flatMap Line.chars) := by
    simp only [List.flatMap_append, List.flatMap_cons, Line.chars, E.content_eq, List.append_assoc]
  have hafter : mark ++ (before ++ E.line :: after).flatMap Line.chars =
      (mark ++ before.flatMap Line.chars ++ E.front) ++ E.new ++
        (E.back ++ l.ending.chars ++ after.flatMap Line.chars) := by
    simp only [List.flatMap_append, List.flatMap_cons, Line.chars, LineEdit.line, content,
      List.append_assoc]
  rw [flatMap_chars_move, hafter, htext, hspan, TextEdit.splice_append]
  simp [edit]

end Cut

end LineEdit

end TimeJournal
