import Mathlib.Data.List.TakeWhile
import Mathlib.Order.Nat
import TimeJournal.Text.LineIndex

/-! # From an offset to a position and back

* `LineIndex.offset_position`: an offset that does not lie past the end of the text is the offset of
  its position.
* `LineIndex.toSpan?_toRange`: so a span of the text is the span of its range. -/

namespace TimeJournal.Text

/-- The offsets behind the line feeds of a text that stands at an offset. -/
def feeds (place : ℕ) : List Char → List ℕ
  | [] => []
  | c :: text => (if c = '\n' then [place + 1] else []) ++ feeds (place + 1) text

theorem lineStarts_go_eq (done : List ℕ) (place : ℕ) (text : List Char) :
    lineStarts.go done place text = done.reverse ++ feeds place text := by
  induction text generalizing done place with
  | nil => exact (List.append_nil _).symm
  | cons c text ih =>
    rw [lineStarts.go, ih, feeds]
    split_ifs
    · rw [List.reverse_cons, List.append_assoc]
    · rfl

/-- The first line begins where the text does, any other one behind a line feed. -/
theorem lineStarts_eq (text : List Char) : lineStarts text = 0 :: feeds 0 text :=
  lineStarts_go_eq [0] 0 text

/-- Every offset has a line that begins at it or in front of it, while the next line begins behind
it. -/
theorem exists_split_lineStarts (text : List Char) (o : ℕ) : ∃ before start after,
    lineStarts text = before ++ start :: after ∧
      (lineStarts text).takeWhile (· ≤ o) = before ++ [start] ∧ start ≤ o ∧
      ∀ next ∈ after.head?, o < next := by
  set upTo := (lineStarts text).takeWhile (· ≤ o) with hupTo
  set after := (lineStarts text).dropWhile (· ≤ o) with hafter
  have hsplit : lineStarts text = upTo ++ after := (List.takeWhile_append_dropWhile).symm
  have hne : upTo ≠ [] := by
    rw [hupTo, lineStarts_eq, List.takeWhile_cons_of_pos (by simp)]
    exact List.cons_ne_nil _ _
  obtain ⟨before, start, hlast⟩ : ∃ before start, upTo = before ++ [start] :=
    ⟨_, _, (List.dropLast_concat_getLast hne).symm⟩
  refine ⟨before, start, after, ?_, hlast, ?_, fun next hnext => ?_⟩
  · rw [hsplit, hlast, List.append_assoc]
    rfl
  · have hmem : start ∈ upTo := by
      rw [hlast]
      exact List.mem_append_right _ List.mem_cons_self
    rw [hupTo] at hmem
    exact of_decide_eq_true (List.mem_takeWhile_imp (p := (· ≤ o)) hmem)
  · have hnot := List.head?_dropWhile_not (fun x => decide (x ≤ o)) (lineStarts text)
    rw [← hafter, hnext] at hnot
    simpa using hnot

namespace LineIndex

variable (text : List Char)

/-- An offset is on the last of the lines that begin at it or in front of it. -/
theorem position_of_takeWhile {o start : ℕ} {before : List ℕ} (h : o ≤ text.length)
    (htake : (lineStarts text).takeWhile (· ≤ o) = before ++ [start]) :
    (ofText text).position o = ⟨before.length, o - start⟩ := by
  unfold position ofText
  dsimp only
  rw [min_eq_left h, htake, List.length_append, List.length_singleton, Nat.add_sub_cancel,
    List.getLastD_concat]

/-- An offset that lies further on is on no earlier line. -/
theorem line_position_mono {o o' : ℕ} (h : o ≤ o') :
    ((ofText text).position o).line ≤ ((ofText text).position o').line := by
  set upTo := (lineStarts text).takeWhile fun s => decide (s ≤ min o' text.length) with hupTo
  have htake : ((lineStarts text).takeWhile fun s => decide (s ≤ min o text.length)) =
      upTo.takeWhile fun s => decide (s ≤ min o text.length) := by
    rw [hupTo, List.takeWhile_takeWhile]
    congr 1
    funext s
    rw [decide_eq_decide, decide_eq_true_iff, decide_eq_true_iff]
    omega
  have hle : ((lineStarts text).takeWhile fun s => decide (s ≤ min o text.length)).length ≤
      upTo.length := by
    rw [htake]
    exact (List.takeWhile_prefix _).length_le
  exact Nat.sub_le_sub_right hle 1

/-- **An offset is the offset of its position.** -/
theorem offset_position {o : ℕ} (h : o ≤ text.length) :
    (ofText text).offset ((ofText text).position o) = o := by
  obtain ⟨before, start, after, hsplit, htake, hle, hnext⟩ := exists_split_lineStarts text o
  have hposition := position_of_takeWhile text h htake
  have hline : (ofText text).starts[before.length]? = some start := by
    show (lineStarts text)[before.length]? = _
    rw [hsplit, List.getElem?_append_right le_rfl, Nat.sub_self]
    rfl
  have hfollowing : (ofText text).starts[before.length + 1]? = after.head? := by
    show (lineStarts text)[before.length + 1]? = _
    rw [hsplit, List.getElem?_append_right (by omega), Nat.add_sub_cancel_left,
      List.getElem?_cons_succ, List.head?_eq_getElem?]
  have hstop : o ≤ (ofText text).contentStop before.length := by
    unfold contentStop
    rw [hfollowing]
    rcases hhead : after.head? with _ | next
    · exact h
    · have hlt := hnext next hhead
      show o ≤ next - 1
      omega
  rw [hposition]
  unfold offset
  rw [hline]
  show min (start + (o - start)) _ = o
  rw [Nat.add_sub_cancel' hle]
  exact min_eq_left hstop

theorem position?_natCast (ix : LineIndex) (o : ℕ) : ix.position? o = .ok (ix.position o) := by
  unfold position?
  rw [if_neg (by omega), Int.toNat_natCast]

theorem offset?_natCast (ix : LineIndex) (p : Position) :
    ix.offset? p.line p.character = .ok (ix.offset p) := by
  unfold offset?
  rw [if_neg (by omega), Int.toNat_natCast, Int.toNat_natCast]

/-- **A span is the span of its range.** -/
theorem toSpan?_toRange {s : Span} (h : s.stop ≤ text.length) :
    (ofText text).toSpan?
      (((ofText text).toRange s).start.line, ((ofText text).toRange s).start.character)
      (((ofText text).toRange s).stop.line, ((ofText text).toRange s).stop.character) = .ok s := by
  have hle := s.start_le_stop
  have hoffset : ∀ o ≤ text.length, (ofText text).offset? ((ofText text).position o).line
      ((ofText text).position o).character = .ok o := by
    intro o ho
    rw [offset?_natCast, offset_position text ho]
  have hspan : Span.ofInts s.start s.stop = .ok s := by
    unfold Span.ofInts
    rw [dif_neg (by omega), dif_neg (by omega)]
    rfl
  unfold toSpan? toRange
  dsimp only
  rw [hoffset s.start (hle.trans h), hoffset s.stop h]
  dsimp only [bind, Except.bind]
  rw [hspan]

end LineIndex

end TimeJournal.Text
