import Mathlib.Data.Nat.Notation
import TimeJournal.Proofs.Text.Cut
import TimeJournal.Span

/-! # Pieces of a text

`Stands text place piece` says that a piece stands in a text at an offset; parts of the piece then
stand in the text behind one another (`Stands.left`, `Stands.right`), and parts that meet are a piece
(`Stands.append`). `Span.slice` is what a text has in a span: the piece, if it stands there
(`Stands.slice`).

`AreLines text pos ls` says that the lines of a cut are what a text has from an offset on. Every
line of them stands where it begins (`AreLines.stands_of_mem`), and behind some of them the others
are left (`AreLines.of_append`). -/

namespace TimeJournal

/-- The characters of a text in a span. -/
def Span.slice (s : Span) (text : List Char) : List Char := (text.drop s.start).take s.length

/-- The piece stands in the text at an offset. -/
def Stands (text : List Char) (place : ℕ) (piece : List Char) : Prop :=
  ∃ before after, text = before ++ (piece ++ after) ∧ before.length = place

namespace Stands

variable {text piece a b : List Char} {place : ℕ}

theorem nil (h : place ≤ text.length) : Stands text place [] := by
  refine ⟨text.take place, text.drop place, ?_, List.length_take_of_le h⟩
  rw [List.nil_append, List.take_append_drop]

/-- Pieces that meet are one piece. -/
theorem append (h : Stands text place a) (h' : Stands text (place + a.length) b) :
    Stands text place (a ++ b) := by
  obtain ⟨before, after, rfl, rfl⟩ := h
  obtain ⟨before', after', htext, hlength⟩ := h'
  rw [← List.append_assoc] at htext
  have hsame := List.append_inj htext (by rw [List.length_append, hlength])
  exact ⟨before, after', by rw [hsame.2, List.append_assoc], rfl⟩

theorem left (h : Stands text place (a ++ b)) : Stands text place a := by
  obtain ⟨before, after, htext, hlength⟩ := h
  exact ⟨before, b ++ after, by rw [htext, List.append_assoc], hlength⟩

theorem right (h : Stands text place (a ++ b)) : Stands text (place + a.length) b := by
  obtain ⟨before, after, htext, hlength⟩ := h
  refine ⟨before ++ a, after, ?_, ?_⟩
  · rw [htext, List.append_assoc, List.append_assoc]
  · rw [List.length_append, hlength]

/-- What follows two pieces stands behind both. -/
theorem behind {more : List Char} (h : Stands text place (a ++ b ++ more)) :
    Stands text (place + a.length + b.length) more := by
  have hmore := h.right
  rwa [List.length_append, ← Nat.add_assoc] at hmore

theorem tail {c : Char} (h : Stands text place (c :: a)) : Stands text (place + 1) a :=
  Stands.right (a := [c]) h

theorem add_le_length (h : Stands text place piece) : place + piece.length ≤ text.length := by
  obtain ⟨before, after, rfl, rfl⟩ := h
  rw [List.length_append, List.length_append]
  omega

/-- The characters of a piece are characters of the text. -/
theorem subset (h : Stands text place piece) : piece ⊆ text := by
  obtain ⟨before, after, rfl, rfl⟩ := h
  exact fun c hc => List.mem_append_right _ (List.mem_append_left _ hc)

/-- **What a text has in the span of a piece is the piece.** -/
theorem slice (h : Stands text place piece) :
    (Span.ofLength place piece.length).slice text = piece := by
  obtain ⟨before, after, rfl, rfl⟩ := h
  unfold Span.slice Span.length
  rw [Span.ofLength_start, Span.ofLength_stop, List.drop_left, Nat.add_sub_cancel_left,
    List.take_left]

/-- The piece between two offsets. -/
theorem slice_of_eq {s : Span} (h : Stands text s.start piece)
    (hstop : s.stop = s.start + piece.length) : s.slice text = piece := by
  have hs : s = Span.ofLength s.start piece.length := Span.ext rfl hstop
  rw [hs]
  exact h.slice

end Stands

/-! ### Lines of a text -/

open Text

/-- The lines from an offset on: a cut whose characters are the rest of the text. -/
structure AreLines (text : List Char) (pos : ℕ) (ls : List Line) : Prop where
  le_length : pos ≤ text.length
  cut : IsCut pos ls
  drop_eq : text.drop pos = ls.flatMap Line.chars

/-- The rest of a text is made up of lines. -/
theorem areLines_lines {text : List Char} {pos : ℕ} (h : pos ≤ text.length) :
    AreLines text pos (lines pos (text.drop pos)) where
  le_length := h
  cut := isCut_lines pos _
  drop_eq := by rw [List.flatMap_def, lines_flatten]

namespace AreLines

variable {text : List Char} {pos : ℕ} {l : Line} {ls : List Line}

theorem eq_length (h : AreLines text pos []) : pos = text.length :=
  Nat.le_antisymm h.le_length (List.drop_eq_nil_iff.mp h.drop_eq)

theorem stands (h : AreLines text pos (l :: ls)) : Stands text pos l.chars := by
  have hle := h.le_length
  refine ⟨text.take pos, ls.flatMap Line.chars, ?_, ?_⟩
  · have hdrop := h.drop_eq
    rw [List.flatMap_cons] at hdrop
    rw [← hdrop, List.take_append_drop]
  · rw [List.length_take]
    omega

theorem tail (h : AreLines text pos (l :: ls)) : AreLines text (pos + l.chars.length) ls where
  le_length := h.stands.add_le_length
  cut := h.cut.2.2.2
  drop_eq := by rw [← List.drop_drop, h.drop_eq, List.flatMap_cons, List.drop_left]

/-- Only the last line has an ending that is no line feed. -/
theorem rest_eq_nil (h : AreLines text pos (l :: ls)) (hfinal : l.ending.IsFinal) :
    ls.flatMap Line.chars = [] := by
  rw [h.cut.2.2.1 hfinal]
  rfl

theorem of_append {before after : List Line} (h : AreLines text pos (before ++ after)) :
    AreLines text (pos + (before.flatMap Line.chars).length) after := by
  induction before generalizing pos with
  | nil => exact h
  | cons l before ih =>
    rw [List.flatMap_cons, List.length_append, ← Nat.add_assoc]
    exact ih h.tail

/-- **Every line stands where it begins.** -/
theorem stands_of_mem (h : AreLines text pos ls) (hl : l ∈ ls) : Stands text l.start l.chars := by
  obtain ⟨before, after, rfl⟩ := List.append_of_mem hl
  have hrest := h.of_append
  rw [hrest.cut.1]
  exact hrest.stands

theorem isWhole_of_mem (h : AreLines text pos ls) (hl : l ∈ ls) : l.IsWhole := by
  obtain ⟨before, after, rfl⟩ := List.append_of_mem hl
  exact h.of_append.cut.2.1

end AreLines

end TimeJournal
