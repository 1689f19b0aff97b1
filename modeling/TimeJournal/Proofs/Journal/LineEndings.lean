import TimeJournal.Proofs.Journal.Relocation
import TimeJournal.Proofs.Text.Writing

/-! # Line endings and the byte order mark

A journal does not depend on how its text is written. Each line keeps its content, so it is read as
the same, at the place where it stands then.

* `Writing.relocates_lines`: the lines go to their new places.
* `Writing.reading_write`: what is read in the text that is written.
* `Writing.journal_eq_move`: without a byte order mark the whole journal moves. -/

namespace TimeJournal

open Text

/-- A text that has no carriage return, and no byte order mark in front. -/
structure IsBare (s : List Char) : Prop where
  noReturn : '\r' ∉ s
  noMark : s.head? ≠ some Reading.byteOrderMark

namespace Writing

variable (w : Writing) {s : List Char}

/-- The journal of a text with its new spans. Only the span of the whole does not move at its
beginning, as the byte order mark is a part of the text. -/
def journal (s : List Char) (j : Journal) : Journal :=
  { j.move (w.offset s) with span := Span.ofLength 0 (w.write s).length }

/-- The lines go to their new places. -/
theorem relocates_lines (s : List Char) : Relocates (w.offset s) (w.line s) (lines 0 s) where
  start_eq _ _ := rfl
  content_eq _ _ := rfl
  rigid l hl := by
    have hlines : AreLines s 0 (lines 0 s) := areLines_lines (Nat.zero_le _)
    exact rigid (hlines.stands_of_mem hl).left (hlines.isWhole_of_mem hl).noFeed

/-- Without a byte order mark the beginning of the text stays where it is. -/
theorem journal_eq_move {j : Journal} (hw : w.marked = false)
    (hj : (Reading.ofText s).journal = some j) : w.journal s j = j.move (w.offset s) := by
  obtain ⟨D, rfl, rfl⟩ := exists_document hj
  have hspan : D.journal.span.move (w.offset D.text) = Span.ofLength 0 (w.write D.text).length := by
    refine Span.ext ?_ ?_
    · show w.offset D.text 0 = 0
      rw [offset_zero, hw, Bool.toNat_false]
    · show w.offset D.text (0 + D.text.length) = 0 + _
      rw [Nat.zero_add, Nat.zero_add, offset_length]
  rw [journal, ← hspan]
  rfl

variable (h : IsBare s)
include h

theorem head?_flatMap_char : (s.flatMap w.char).head? ≠ some Reading.byteOrderMark := by
  rcases s with _ | ⟨c, s⟩
  · exact nofun
  · rw [List.flatMap_cons, char]
    split
    · exact (by decide : some '\r' ≠ some Reading.byteOrderMark)
    · exact h.noMark

theorem ofText_bare : Reading.ofText s = Reading.ofLines 0 s.length (lines 0 s) := by
  have hmark := ofText_mark false s fun _ => h.noMark
  rwa [Bool.toNat_false, Nat.zero_add] at hmark

theorem ofText_write : Reading.ofText (w.write s) =
    Reading.ofLines (w.offset s 0) (w.offset s s.length) ((lines 0 s).map (w.line s)) := by
  have hmark := ofText_mark w.marked (s.flatMap w.char) fun _ => w.head?_flatMap_char h
  have hlength : (w.write s).length = w.marked.toNat + (s.flatMap w.char).length := by
    rw [write, List.length_append, length_mark]
  rw [offset_zero, offset_length, hlength, ← lines_write h.noReturn]
  exact hmark

/-- **The text that is written is read as the text**, at its new places. -/
theorem reading_write :
    (Reading.ofText (w.write s)).journal = (Reading.ofText s).journal.map (w.journal s) ∧
      (Reading.ofText (w.write s)).faults =
        (Reading.ofText s).faults.map (ParseFault.move (w.offset s)) := by
  have hcut := isCut_lines 0 s
  have hstart : ∀ l ∈ (lines 0 s).head?, l.start = 0 := by
    intro l hl
    rcases hlines : lines 0 s with _ | ⟨l', ls⟩
    · rw [hlines] at hl
      cases hl
    · rw [hlines] at hcut hl
      rw [← Option.mem_some_iff.mp hl]
      exact hcut.1
  have hmap := Reading.ofLines_map (w.relocates_lines s) hstart (fun _ _ => Nat.zero_le _)
    (Nat.zero_le s.length)
  rw [ofText_write w h, ofText_bare h]
  rw [offset_length] at hmap ⊢
  exact hmap

end Writing

end TimeJournal
