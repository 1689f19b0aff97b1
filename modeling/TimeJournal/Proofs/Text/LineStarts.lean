import Mathlib.Data.List.DropRight
import TimeJournal.Proofs.Text.LineIndex
import TimeJournal.Proofs.Text.Piece

/-! # The lines of a cut in the line index

A line index knows of line feeds only, a cut also of the carriage returns that belong to an ending.
All the same a line of a cut begins where a line of the index does: every line but the last one
ends in a line feed, and holds no other.

* `Line.IsWhole.feeds_of_not_isFinal`, `Line.IsWhole.feeds_of_isFinal`: the line feeds of one line;
  `IsCut.feeds_flatMap`: those of the lines in front of some line.
* `AreLines.offset_eq`, `AreLines.position_eq`, `AreLines.lineText_eq`: where the index has a line
  of a text, under the number of the lines in front of it, and what it has there.
* `AreLines.lineCount_eq`: how many lines the index has. -/

namespace TimeJournal.Text

/-! ### Line feeds -/

theorem feeds_append (place : ℕ) (s t : List Char) :
    feeds place (s ++ t) = feeds place s ++ feeds (place + s.length) t := by
  induction s generalizing place with
  | nil => rfl
  | cons c s ih =>
    rw [List.cons_append, feeds, feeds, ih, List.append_assoc, List.length_cons, Nat.add_assoc,
      Nat.add_comm 1]

theorem feeds_eq_nil {s : List Char} (h : '\n' ∉ s) (place : ℕ) : feeds place s = [] := by
  induction s generalizing place with
  | nil => rfl
  | cons c s ih =>
    obtain ⟨hc, hs⟩ := not_or.mp (List.mem_cons.not.mp h)
    rw [feeds, if_neg (Ne.symm hc), ih hs]
    rfl

theorem lt_of_mem_feeds {s : List Char} {place o : ℕ} (h : o ∈ feeds place s) : place < o := by
  induction s generalizing place with
  | nil => cases h
  | cons c s ih =>
    rw [feeds, List.mem_append] at h
    rcases h with h | h
    · split_ifs at h
      · rw [List.mem_singleton] at h
        omega
      · cases h
    · have := ih h
      omega

theorem pairwise_feeds (place : ℕ) (s : List Char) : (feeds place s).Pairwise (· < ·) := by
  induction s generalizing place with
  | nil => exact List.Pairwise.nil
  | cons c s ih =>
    rw [feeds]
    split_ifs
    · exact List.Pairwise.cons (fun o ho => lt_of_mem_feeds ho) (ih _)
    · exact ih _

/-- The lines of an index begin one behind the other. -/
theorem pairwise_lineStarts (text : List Char) : (lineStarts text).Pairwise (· < ·) := by
  rw [lineStarts_eq]
  exact List.Pairwise.cons (fun o ho => lt_of_mem_feeds ho) (pairwise_feeds 0 text)

/-! ### The line feeds of lines -/

/-- The offset behind a line and its ending. -/
def Line.next (l : Line) : ℕ := l.start + l.chars.length

/-- The characters of an ending in front of its line feed. -/
def Ending.returns : Ending → List Char
  | .crlf | .cr => ['\r']
  | .lf | .eof => []

theorem Ending.chars_of_not_isFinal {e : Ending} (h : ¬ e.IsFinal) :
    e.chars = e.returns ++ ['\n'] := by
  cases e with
  | lf => rfl
  | crlf => rfl
  | cr => exact absurd trivial h
  | eof => exact absurd trivial h

theorem Ending.chars_of_isFinal {e : Ending} (h : e.IsFinal) : e.chars = e.returns := by
  cases e with
  | lf => cases h
  | crlf => cases h
  | cr => rfl
  | eof => rfl

theorem Ending.notMem_returns (e : Ending) : '\n' ∉ e.returns := by
  cases e <;> decide

/-- Carriage returns at the end of a content and in front of its line feed are dropped alike. -/
theorem Ending.rdropWhile_returns (e : Ending) (content : List Char) :
    (content ++ e.returns).rdropWhile (· == '\r') = content.rdropWhile (· == '\r') := by
  cases e with
  | lf => rw [returns, List.append_nil]
  | crlf => exact List.rdropWhile_concat_pos _ _ _ rfl
  | cr => exact List.rdropWhile_concat_pos _ _ _ rfl
  | eof => rw [returns, List.append_nil]

namespace Line

variable {l : Line}

/-- A line as its content, what its ending has in front of a line feed, and the line feed. -/
theorem chars_of_not_isFinal (h : ¬ l.ending.IsFinal) :
    l.chars = (l.content ++ l.ending.returns) ++ ['\n'] := by
  rw [chars, Ending.chars_of_not_isFinal h, List.append_assoc]

theorem chars_of_isFinal (h : l.ending.IsFinal) : l.chars = l.content ++ l.ending.returns := by
  rw [chars, Ending.chars_of_isFinal h]

theorem next_of_not_isFinal (h : ¬ l.ending.IsFinal) :
    l.next = l.start + (l.content ++ l.ending.returns).length + 1 := by
  rw [next, chars_of_not_isFinal h]
  simp only [List.length_append, List.length_singleton]
  omega

/-- A content and the carriage return behind it hold no line feed. -/
theorem IsWhole.notMem_returns (h : l.IsWhole) : '\n' ∉ l.content ++ l.ending.returns :=
  fun hmem => (List.mem_append.mp hmem).elim h.noFeed l.ending.notMem_returns

/-- A line that ends in a line feed has this one only. -/
theorem IsWhole.feeds_of_not_isFinal (h : l.IsWhole) (hfinal : ¬ l.ending.IsFinal)
    (rest : List Char) :
    feeds l.start (l.chars ++ rest) = l.next :: feeds l.next rest := by
  rw [feeds_append, ← next, next_of_not_isFinal hfinal, chars_of_not_isFinal hfinal, feeds_append,
    feeds_eq_nil h.notMem_returns]
  rfl

/-- Another line has none. -/
theorem IsWhole.feeds_of_isFinal (h : l.IsWhole) (hfinal : l.ending.IsFinal) :
    feeds l.start l.chars = [] := by
  rw [chars_of_isFinal hfinal]
  exact feeds_eq_nil h.notMem_returns l.start

/-- The last character of a line is a line feed if its ending has one. -/
theorem IsWhole.getLast?_chars (h : l.IsWhole) :
    l.chars.getLast? = some '\n' ↔ ¬ l.ending.IsFinal := by
  constructor
  · intro hlast hfinal
    rw [chars_of_isFinal hfinal] at hlast
    exact h.notMem_returns (List.mem_of_getLast? hlast)
  · intro hfinal
    rw [chars_of_not_isFinal hfinal, List.getLast?_concat]

end Line

/-- **The line feeds of some lines are those behind the lines in front of the last one**, and those
of the rest. -/
theorem IsCut.feeds_flatMap {before after : List Line} {l : Line} : ∀ {pos : ℕ},
    IsCut pos (before ++ l :: after) →
    feeds pos ((before ++ l :: after).flatMap Line.chars) =
      before.map Line.next ++ feeds l.start ((l :: after).flatMap Line.chars) := by
  induction before with
  | nil =>
    rintro pos ⟨rfl, -⟩
    rfl
  | cons x before ih =>
    rintro pos ⟨rfl, hwhole, hlast, hcut⟩
    have hfinal : ¬ x.ending.IsFinal := fun h => by simpa using hlast h
    rw [List.cons_append, List.flatMap_cons, hwhole.feeds_of_not_isFinal hfinal, Line.next, ih hcut]
    rfl

end TimeJournal.Text

namespace TimeJournal

open Text

/-! ### Lines in the index -/

namespace AreLines

variable {text : List Char} {pos : ℕ} {before after : List Line} {l : Line}

/-- The line feeds of a text in front of one of its lines, and the rest. -/
theorem lineStarts_eq (h : AreLines text pos (before ++ l :: after)) (hmark : '\n' ∉ text.take pos) :
    lineStarts text = 0 :: (before.map Line.next ++
      feeds l.start ((l :: after).flatMap Line.chars)) := by
  have hlength : (text.take pos).length = pos := by
    rw [List.length_take]
    exact Nat.min_eq_left h.le_length
  rw [Text.lineStarts_eq, ← h.cut.feeds_flatMap, ← h.drop_eq]
  conv_lhs => rw [← List.take_append_drop pos text]
  rw [feeds_append, feeds_eq_nil hmark, hlength, Nat.zero_add]
  rfl

/-- **The number of lines in the index**: one more than there are line feeds. -/
theorem lineCount_eq (h : AreLines text pos (before ++ [l])) (hmark : '\n' ∉ text.take pos) :
    (LineIndex.ofText text).lineCount =
      before.length + 1 + if text.getLast? = some '\n' then 1 else 0 := by
  have hwhole := h.isWhole_of_mem (List.mem_append_right before List.mem_cons_self)
  have hlast : text.getLast? = l.chars.getLast? := by
    have hdrop := h.drop_eq
    rw [List.flatMap_append, List.flatMap_singleton] at hdrop
    rw [← List.take_append_drop pos text, hdrop, ← List.append_assoc,
      List.getLast?_append_of_ne_nil _ hwhole.chars_ne_nil]
  show (lineStarts text).length = _
  rw [h.lineStarts_eq hmark, List.length_cons, List.length_append, List.length_map,
    List.flatMap_singleton, hlast]
  by_cases hfinal : l.ending.IsFinal
  · rw [hwhole.feeds_of_isFinal hfinal, if_neg (hwhole.getLast?_chars.not.mpr (not_not_intro hfinal))]
    rfl
  · have hfeeds := hwhole.feeds_of_not_isFinal hfinal []
    rw [List.append_nil] at hfeeds
    rw [hfeeds, if_pos (hwhole.getLast?_chars.mpr hfinal)]
    show before.length + 1 + 1 = _
    omega

variable (h : AreLines text pos (before ++ l :: after)) (hmark : '\n' ∉ text.take pos)
  (hne : before ≠ [])
include h hmark hne

/-- A line of the text begins where one of the index does, under the number of the lines in front
of it, and the next one begins behind its line feed. -/
theorem exists_starts : ∃ starts rest, lineStarts text = starts ++ l.start :: rest ∧
    starts.length = before.length ∧
    (l.ending.IsFinal ∧ rest = [] ∧ text.length = l.next ∨
      ¬ l.ending.IsFinal ∧ rest.head? = some l.next) := by
  obtain ⟨before, x, rfl⟩ : ∃ before' x, before = before' ++ [x] :=
    ⟨_, _, (List.dropLast_concat_getLast hne).symm⟩
  have hstarts := h.lineStarts_eq hmark
  rw [List.append_assoc] at h
  have hx := h.of_append
  have hnext : x.next = l.start := by
    rw [Line.next, hx.cut.1, hx.tail.cut.1]
  have hl : AreLines text l.start (l :: after) := by
    rw [← hnext, Line.next, hx.cut.1]
    exact hx.tail
  have hwhole := hl.cut.2.1
  refine ⟨0 :: before.map Line.next, feeds l.start ((l :: after).flatMap Line.chars), ?_, ?_, ?_⟩
  · rw [hstarts, List.map_append, List.map_singleton, hnext, List.append_assoc]
    rfl
  · rw [List.length_cons, List.length_map, List.length_append]
    rfl
  by_cases hfinal : l.ending.IsFinal
  · refine Or.inl ⟨hfinal, ?_, ?_⟩
    · rw [List.flatMap_cons, hl.rest_eq_nil hfinal, List.append_nil,
        hwhole.feeds_of_isFinal hfinal]
    · have htail := hl.tail
      rw [hl.cut.2.2.1 hfinal] at htail
      exact htail.eq_length.symm
  · refine Or.inr ⟨hfinal, ?_⟩
    rw [List.flatMap_cons, hwhole.feeds_of_not_isFinal hfinal, List.head?_cons]

/-- In the index a line has the carriage return of its ending. -/
theorem contentStop_eq : (LineIndex.ofText text).contentStop before.length =
    l.start + (l.content ++ l.ending.returns).length := by
  obtain ⟨starts, rest, hstarts, hlength, hcases⟩ := h.exists_starts hmark hne
  have hfollowing : (LineIndex.ofText text).starts[before.length + 1]? = rest.head? := by
    show (lineStarts text)[before.length + 1]? = _
    rw [hstarts, ← hlength, List.getElem?_append_right (by omega), Nat.add_sub_cancel_left,
      List.getElem?_cons_succ, List.head?_eq_getElem?]
  unfold LineIndex.contentStop
  rw [hfollowing]
  rcases hcases with ⟨hfinal, rfl, htext⟩ | ⟨hfinal, hhead⟩
  · show text.length = _
    rw [htext, Line.next, Line.chars_of_isFinal hfinal]
  · rw [hhead]
    show l.next - 1 = _
    rw [Line.next_of_not_isFinal hfinal, Nat.add_sub_cancel]

theorem getElem?_starts :
    (LineIndex.ofText text).starts[before.length]? = some l.start := by
  obtain ⟨starts, rest, hstarts, hlength, -⟩ := h.exists_starts hmark hne
  show (lineStarts text)[before.length]? = _
  rw [hstarts, ← hlength, List.getElem?_append_right le_rfl, Nat.sub_self]
  rfl

/-- **A line begins at the offset of its number.** -/
theorem offset_eq : (LineIndex.ofText text).offset ⟨before.length, 0⟩ = l.start := by
  unfold LineIndex.offset
  rw [h.getElem?_starts hmark hne, h.contentStop_eq hmark hne]
  dsimp only
  omega

/-- **The content of a line is the one of the line with its number**, but for carriage returns. -/
theorem lineText_eq : (LineIndex.ofText text).lineText before.length =
    l.content.rdropWhile (· == '\r') := by
  have hmem : l ∈ before ++ l :: after := by simp
  have hstands : Stands text l.start (l.content ++ l.ending.returns) := by
    have hchars := h.stands_of_mem hmem
    by_cases hfinal : l.ending.IsFinal
    · rw [Line.chars_of_isFinal hfinal] at hchars
      exact hchars
    · rw [Line.chars_of_not_isFinal hfinal] at hchars
      exact hchars.left
  have hslice := hstands.slice
  rw [Span.slice, Span.length, Span.ofLength_start, Span.ofLength_stop] at hslice
  unfold LineIndex.lineText
  rw [h.getElem?_starts hmark hne, h.contentStop_eq hmark hne]
  show List.rdropWhile _ ((text.drop l.start).take _) = _
  rw [hslice, l.ending.rdropWhile_returns]

/-- **An offset in a line is on the line with its number.** -/
theorem position_eq {o : ℕ} (hstart : l.start ≤ o) (hstop : o ≤ l.stop) :
    (LineIndex.ofText text).position o = ⟨before.length, o - l.start⟩ := by
  have hstands := (h.stands_of_mem (l := l) (by simp)).left.add_le_length
  obtain ⟨starts, rest, hstarts, hlength, hcases⟩ := h.exists_starts hmark hne
  rw [← hlength]
  refine LineIndex.position_of_takeWhile text (hstop.trans hstands) ?_
  have hordered := pairwise_lineStarts text
  rw [hstarts, List.pairwise_append] at hordered
  have hupTo : ∀ s ∈ starts ++ [l.start], decide (s ≤ o) = true := by
    intro s hs
    rcases List.mem_append.mp hs with hs | hs
    · have := hordered.2.2 s hs l.start List.mem_cons_self
      exact decide_eq_true (by omega)
    · rw [List.mem_singleton.mp hs]
      exact decide_eq_true hstart
  have hrest : rest.takeWhile (· ≤ o) = [] := by
    rcases hcases with ⟨-, rfl, -⟩ | ⟨hfinal, hhead⟩
    · rfl
    · obtain ⟨rest, rfl⟩ := List.head?_eq_some_iff.mp hhead
      have hlt : l.stop < l.next := by
        rw [Line.next_of_not_isFinal hfinal, Line.stop, List.length_append]
        omega
      exact List.takeWhile_cons_of_neg (by rw [decide_eq_true_iff]; omega)
  rw [hstarts, ← List.singleton_append, ← List.append_assoc, List.takeWhile_append_of_pos hupTo,
    hrest, List.append_nil]

end AreLines

end TimeJournal
