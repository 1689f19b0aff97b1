import TimeJournal.Proofs.Journal.Document
import TimeJournal.Proofs.Text.Piece

/-! # Ways to write a text

The lines of a text can be written with line feeds alone or with carriage returns in front of them,
and the text with a byte order mark or without one. A `Writing` is such a way; `Writing.write`
writes a text so, and `Writing.offset` says where a place of the text is found then.

* `Writing.rigid`: where no line feed stands, the distances are kept.
* `Writing.slice_write`: what stands between two places, as it is written.
* `Writing.lines_write`: the lines of the text that is written are the lines of the text, at their
  new places, with other endings. -/

namespace TimeJournal

open Text

/-- A way to write a text: with a byte order mark or without, and with carriage returns in front of
the line feeds or without. -/
structure Writing where
  marked : Bool
  returns : Bool
  deriving DecidableEq, Repr

namespace Writing

variable (w : Writing)

/-- How a character is written. -/
def char (c : Char) : List Char := if w.returns = true ∧ c = '\n' then ['\r', '\n'] else [c]

/-- What stands in front of the first character. -/
def mark : List Char := if w.marked then [Reading.byteOrderMark] else []

/-- The text as it is written. -/
def write (s : List Char) : List Char := w.mark ++ s.flatMap w.char

/-- Where a place of the text is found in the text that is written. -/
def offset (s : List Char) : ℕ →o ℕ where
  toFun p := (w.write (s.take p)).length
  monotone' p q hpq := by
    obtain ⟨more, hmore⟩ : s.take p <+: s.take q := List.take_prefix_take_left hpq
    dsimp only
    rw [← hmore, write, write, List.flatMap_append, ← List.append_assoc]
    exact (List.prefix_append _ _).length_le

/-! ### Characters -/

theorem length_mark : w.mark.length = w.marked.toNat := Reading.length_mark w.marked

theorem flatMap_char_of_notMem {s : List Char} (h : '\n' ∉ s) : s.flatMap w.char = s := by
  induction s with
  | nil => rfl
  | cons c s ih =>
    have hc : c ≠ '\n' := fun hc => h (hc ▸ List.mem_cons_self)
    rw [List.flatMap_cons, ih fun hs => h (List.mem_cons_of_mem c hs), char,
      if_neg fun hn => hc hn.2]
    rfl

theorem length_le_flatMap_char (s : List Char) : s.length ≤ (s.flatMap w.char).length := by
  induction s with
  | nil => exact le_rfl
  | cons c s ih =>
    have hc : 1 ≤ (w.char c).length := by
      unfold char
      split <;> simp
    rw [List.flatMap_cons, List.length_append, List.length_cons]
    omega

/-- No text gets shorter. -/
theorem length_le_length_write (s : List Char) : s.length ≤ (w.write s).length := by
  have h := w.length_le_flatMap_char s
  rw [write, List.length_append]
  omega

/-! ### Places -/

variable {w} {s : List Char}

theorem offset_apply (p : ℕ) :
    w.offset s p = w.marked.toNat + ((s.take p).flatMap w.char).length := by
  show (w.write (s.take p)).length = _
  rw [write, List.length_append, length_mark]

theorem offset_zero : w.offset s 0 = w.marked.toNat := by
  rw [offset_apply]
  rfl

theorem offset_length : w.offset s s.length = (w.write s).length := by
  show (w.write (s.take s.length)).length = _
  rw [List.take_length]

/-- The place behind a piece is as far from the place in front of it as the piece is long when it is
written. -/
theorem offset_add {place : ℕ} {piece : List Char} (h : Stands s place piece) :
    w.offset s (place + piece.length) = w.offset s place + (piece.flatMap w.char).length := by
  obtain ⟨front, rest, rfl, rfl⟩ := h
  rw [offset_apply, offset_apply, ← List.append_assoc, ← List.length_append, List.take_left,
    List.append_assoc, List.take_left, List.flatMap_append, List.length_append, Nat.add_assoc]

/-- **Where no line feed stands, the distances are kept.** -/
theorem rigid {place : ℕ} {piece : List Char} (h : Stands s place piece) (hfeed : '\n' ∉ piece) :
    Rigid (w.offset s) place piece.length := by
  intro k hk
  have hfront : Stands s place (piece.take k) := by
    rw [← List.take_append_drop k piece] at h
    exact h.left
  have hadd := offset_add (w := w) hfront
  rwa [flatMap_char_of_notMem w fun hmem => hfeed (List.mem_of_mem_take hmem), List.length_take,
    Nat.min_eq_left hk] at hadd

theorem drop_write (p : ℕ) : (w.write s).drop (w.offset s p) = (s.drop p).flatMap w.char := by
  have hcut : w.write s = w.write (s.take p) ++ (s.drop p).flatMap w.char := by
    rw [write, write, List.append_assoc, ← List.flatMap_append, List.take_append_drop]
  rw [hcut]
  exact List.drop_left

/-- **What stands between two places**, as it is written. -/
theorem slice_write (p q : ℕ) :
    ((w.write s).drop (w.offset s p)).take (w.offset s q - w.offset s p) =
      ((s.drop p).take (q - p)).flatMap w.char := by
  rcases Nat.le_total p q with hpq | hqp
  · obtain ⟨k, rfl⟩ := Nat.exists_eq_add_of_le hpq
    have htake : s.take (p + k) = s.take p ++ (s.drop p).take k := List.take_add
    have hcut : (s.drop p).flatMap w.char =
        ((s.drop p).take k).flatMap w.char ++ ((s.drop p).drop k).flatMap w.char := by
      rw [← List.flatMap_append, List.take_append_drop]
    have hlength : w.offset s (p + k) - w.offset s p =
        (((s.drop p).take k).flatMap w.char).length := by
      rw [offset_apply, offset_apply, htake, List.flatMap_append, List.length_append]
      omega
    rw [drop_write, hlength, Nat.add_sub_cancel_left, hcut, List.take_left]
  · have hle : w.offset s q - w.offset s p = 0 := Nat.sub_eq_zero_of_le ((w.offset s).monotone hqp)
    rw [hle, Nat.sub_eq_zero_of_le hqp, List.take_zero, List.take_zero]
    rfl

/-! ### Lines -/

/-- How a line ends when it is written. -/
def ending (w : Writing) (e : Ending) : Ending := if w.returns = true ∧ e = .lf then .crlf else e

/-- A line of the text that is written. -/
def line (w : Writing) (s : List Char) (l : Line) : Line :=
  ⟨w.offset s l.start, l.content, w.ending l.ending⟩

theorem isFinal_ending {e : Ending} : (w.ending e).IsFinal ↔ e.IsFinal := by
  unfold ending
  split
  · rename_i h
    rw [h.2]
    exact Iff.rfl
  · exact Iff.rfl

theorem chars_ending {e : Ending} (h : '\r' ∉ e.chars) :
    (w.ending e).chars = e.chars.flatMap w.char := by
  cases e with
  | lf =>
    unfold ending
    by_cases hreturns : w.returns = true
    · simp [hreturns, Ending.chars, char]
    · simp [hreturns, Ending.chars, char]
  | crlf => simp [Ending.chars] at h
  | cr => simp [Ending.chars] at h
  | eof => simp [ending, Ending.chars]

/-- A line is written as its characters are. -/
theorem chars_line {l : Line} (hw : l.IsWhole) (h : '\r' ∉ l.chars) :
    (w.line s l).chars = l.chars.flatMap w.char := by
  have hending : '\r' ∉ l.ending.chars := fun hmem => h (List.mem_append_right _ hmem)
  show l.content ++ (w.ending l.ending).chars = _
  rw [chars_ending hending, Line.chars, List.flatMap_append, flatMap_char_of_notMem w hw.noFeed]

theorem isWhole_line {l : Line} (hw : l.IsWhole) (h : '\r' ∉ l.chars) : (w.line s l).IsWhole where
  noFeed := hw.noFeed
  noReturn := fun _ hlast => h (List.mem_append_left _ (List.mem_of_getLast? hlast))
  ne_nil := by
    intro heof
    refine hw.ne_nil ?_
    change w.ending l.ending = .eof at heof
    unfold ending at heof
    split at heof
    · cases heof
    · exact heof

/-- **The lines of a text are written one after the other.** -/
theorem isCut_line {ls : List Line} {pos : ℕ} (h : AreLines s pos ls) (hreturn : '\r' ∉ s) :
    IsCut (w.offset s pos) (ls.map (w.line s)) ∧
      (ls.map (w.line s)).flatMap Line.chars = (ls.flatMap Line.chars).flatMap w.char := by
  induction ls generalizing pos with
  | nil => exact ⟨trivial, rfl⟩
  | cons l ls ih =>
    obtain ⟨hstart, hw, hlast, -⟩ := h.cut
    have hchars : '\r' ∉ l.chars := fun hmem => hreturn (h.stands.subset hmem)
    have hline := chars_line (w := w) (s := s) hw hchars
    obtain ⟨hcut, hflat⟩ := ih h.tail
    rw [offset_add h.stands, ← hline] at hcut
    constructor
    · refine ⟨congrArg (w.offset s) hstart, isWhole_line hw hchars, fun hfinal => ?_, hcut⟩
      rw [hlast (isFinal_ending.mp hfinal)]
      rfl
    · rw [List.map_cons, List.flatMap_cons, List.flatMap_cons, List.flatMap_append, hline, hflat]

/-- **The lines of the text that is written** are those of the text. -/
theorem lines_write (hreturn : '\r' ∉ s) :
    lines w.marked.toNat (s.flatMap w.char) = (lines 0 s).map (w.line s) := by
  have hlines : AreLines s 0 (lines 0 s) := areLines_lines (Nat.zero_le _)
  obtain ⟨hcut, hflat⟩ := isCut_line (w := w) hlines hreturn
  rw [offset_zero] at hcut
  rw [← hlines.drop_eq, List.drop_zero] at hflat
  rw [← hflat, lines_eq_of_isCut hcut]

end Writing

end TimeJournal
