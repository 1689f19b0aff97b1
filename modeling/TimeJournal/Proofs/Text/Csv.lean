import Mathlib.Data.List.Basic
import Mathlib.Tactic.SplitIfs
import TimeJournal.Text.Csv

/-! # Reading CSV text

A reader goes through a text character by character. Outside quotation marks a comma ends a cell and
a line feed ends a row; between them two quotation marks are one, and everything else stands for
itself. It is strict: a quotation mark inside a bare cell, anything but an end behind a closing mark,
a carriage return that is not quoted, and a cell that is never closed are refused.

* `Reader.foldlM_writeCell`: reading a cell that was written; `Reader.foldlM_writeRow`: a row of
  them, by induction on its cells.
* `read_write`: rows that were written are read back, if no row is a single empty cell, which is
  written as an empty line. -/

namespace TimeJournal.Text.Csv

/-- Where a reader stands in a cell, and the characters of it that have been seen: outside quotation
marks, between them, or behind a mark that closes the cell unless another one follows. -/
inductive Place where
  | bare (cell : List Char)
  | quoted (cell : List Char)
  | closed (cell : List Char)
  deriving DecidableEq, Repr

/-- What a reader has seen: rows, the cells of a row that has not ended, and part of a cell. -/
structure Reader where
  rows : List (List (List Char))
  row : List (List Char)
  place : Place
  deriving DecidableEq, Repr

namespace Reader

/-- The reader in front of a text. -/
def init : Reader := ⟨[], [], .bare []⟩

/-- A cell has ended at a comma. -/
def endCell (r : Reader) (cell : List Char) : Reader := ⟨r.rows, r.row ++ [cell], .bare []⟩

/-- A cell has ended, and the row with it. -/
def endRow (r : Reader) (cell : List Char) : Reader := ⟨r.rows ++ [r.row ++ [cell]], [], .bare []⟩

/-- The reader behind another character, if it may stand there. -/
def step (r : Reader) (c : Char) : Option Reader :=
  match r.place with
  | .bare cell =>
    if c = '"' then if cell = [] then some { r with place := .quoted [] } else none
    else if c = ',' then some (r.endCell cell)
    else if c = '\n' then
      -- a line with nothing on it is a row without cells
      some (if r.row = [] ∧ cell = [] then { r with rows := r.rows ++ [[]] } else r.endRow cell)
    else if c = '\r' then none
    else some { r with place := .bare (cell ++ [c]) }
  | .quoted cell =>
    if c = '"' then some { r with place := .closed cell }
    else some { r with place := .quoted (cell ++ [c]) }
  | .closed cell =>
    if c = '"' then some { r with place := .quoted (cell ++ ['"']) }
    else if c = ',' then some (r.endCell cell)
    else if c = '\n' then some (r.endRow cell)
    else none

/-- The rows at the end of a text; the last one may lack its line feed. -/
def finish (r : Reader) : Option (List (List (List Char))) :=
  match r.place with
  | .bare cell => some (if r.row = [] ∧ cell = [] then r.rows else (r.endRow cell).rows)
  | .quoted _ => none
  | .closed cell => some (r.endRow cell).rows

end Reader

/-- The rows of a text, if it is CSV text. -/
def read (text : List Char) : Option (List (List (List Char))) :=
  (text.foldlM Reader.step Reader.init).bind Reader.finish

namespace Reader

variable (rows : List (List (List Char))) (row : List (List Char)) (cell : List Char)

/-! ### Cells -/

theorem foldlM_bare {s : List Char} (hs : ∀ c ∈ s, isSpecial c = false) :
    s.foldlM step ⟨rows, row, .bare cell⟩ = some ⟨rows, row, .bare (cell ++ s)⟩ := by
  induction s generalizing cell with
  | nil => rw [List.append_nil]; rfl
  | cons c s ih =>
    have hspecial := hs c List.mem_cons_self
    simp only [isSpecial, Bool.or_eq_false_iff, beq_eq_false_iff_ne] at hspecial
    obtain ⟨⟨⟨hcomma, hquote⟩, hfeed⟩, hreturn⟩ := hspecial
    have hstep : step ⟨rows, row, .bare cell⟩ c = some ⟨rows, row, .bare (cell ++ [c])⟩ := by
      unfold step
      dsimp only
      rw [if_neg hquote, if_neg hcomma, if_neg hfeed, if_neg hreturn]
    rw [List.foldlM_cons, hstep]
    exact (ih (cell ++ [c]) fun d hd => hs d (List.mem_cons_of_mem c hd)).trans
      (by rw [List.append_assoc]; rfl)

theorem foldlM_double (s : List Char) :
    (double s).foldlM step ⟨rows, row, .quoted cell⟩ = some ⟨rows, row, .quoted (cell ++ s)⟩ := by
  induction s generalizing cell with
  | nil => rw [List.append_nil]; rfl
  | cons c s ih =>
    have hstep : (if c = '"' then ['"', '"'] else [c]).foldlM step ⟨rows, row, .quoted cell⟩ =
        some ⟨rows, row, .quoted (cell ++ [c])⟩ := by
      by_cases hc : c = '"'
      · rw [if_pos hc, hc]
        rfl
      · rw [if_neg hc]
        unfold step
        simp [hc]
    rw [double, List.flatMap_cons, List.foldlM_append, hstep]
    exact (ih (cell ++ [c])).trans (by rw [List.append_assoc]; rfl)

/-- **A cell that was written is read**, up to its end. -/
theorem foldlM_writeCell :
    ∃ place, (writeCell cell).foldlM step ⟨rows, row, .bare []⟩ = some ⟨rows, row, place⟩ ∧
      (place = .bare cell ∨ place = .closed cell) := by
  unfold writeCell
  by_cases hspecial : cell.any isSpecial = true
  · refine ⟨.closed cell, ?_, Or.inr rfl⟩
    rw [if_pos hspecial, List.foldlM_cons]
    show (double cell ++ ['"']).foldlM step ⟨rows, row, .quoted []⟩ = _
    rw [List.foldlM_append, foldlM_double]
    rfl
  · refine ⟨.bare cell, ?_, Or.inl rfl⟩
    rw [if_neg hspecial]
    rw [List.any_eq_true, not_exists] at hspecial
    exact foldlM_bare rows row [] fun c hc => Bool.eq_false_iff.mpr fun h => hspecial c ⟨hc, h⟩

variable {rows row cell} {place : Place} (hplace : place = .bare cell ∨ place = .closed cell)

include hplace

theorem step_comma : step ⟨rows, row, place⟩ ',' = some ⟨rows, row ++ [cell], .bare []⟩ := by
  rcases hplace with rfl | rfl <;> rfl

theorem step_feed (hne : ¬ (row = [] ∧ cell = [])) :
    step ⟨rows, row, place⟩ '\n' = some ⟨rows ++ [row ++ [cell]], [], .bare []⟩ := by
  rcases hplace with rfl | rfl
  · unfold step
    simp only [if_neg hne]
    rfl
  · rfl

omit hplace

/-! ### Rows -/

/-- **A row that was written is read**, whatever cells stand in front of it. -/
theorem foldlM_writeRow {cells : List (List Char)} (hne : cells ≠ [])
    (hempty : ¬ (row = [] ∧ cells = [[]])) :
    (writeRow cells).foldlM step ⟨rows, row, .bare []⟩ =
      some ⟨rows ++ [row ++ cells], [], .bare []⟩ := by
  induction cells generalizing row with
  | nil => exact absurd rfl hne
  | cons cell cells ih =>
    obtain ⟨place, hread, hplace⟩ := foldlM_writeCell rows row cell
    rcases cells with _ | ⟨next, cells⟩
    · have hfeed : step ⟨rows, row, place⟩ '\n' = some ⟨rows ++ [row ++ [cell]], [], .bare []⟩ :=
        step_feed hplace fun h => hempty ⟨h.1, by rw [h.2]⟩
      rw [writeRow, List.map_singleton, List.intercalate_singleton, List.foldlM_append, hread]
      show ['\n'].foldlM step ⟨rows, row, place⟩ = _
      rw [List.foldlM_cons, hfeed]
      rfl
    · have hrest := @ih (row ++ [cell]) (List.cons_ne_nil _ _) fun h => by simpa using h.1
      rw [writeRow, List.map_cons, List.map_cons, List.intercalate_cons_cons, List.append_assoc,
        List.append_assoc, List.foldlM_append, hread]
      show (',' :: writeRow (next :: cells)).foldlM step _ = _
      rw [List.foldlM_cons, step_comma hplace]
      exact hrest.trans (by rw [List.append_assoc]; rfl)

end Reader

theorem foldlM_write (rows : List (List (List Char))) {more : List (List (List Char))}
    (h : ∀ cells ∈ more, cells ≠ [[]]) :
    (write more).foldlM Reader.step ⟨rows, [], .bare []⟩ = some ⟨rows ++ more, [], .bare []⟩ := by
  induction more generalizing rows with
  | nil => rw [List.append_nil]; rfl
  | cons cells more ih =>
    have hrow : (writeRow cells).foldlM Reader.step ⟨rows, [], .bare []⟩ =
        some ⟨rows ++ [cells], [], .bare []⟩ := by
      rcases eq_or_ne cells [] with rfl | hne
      · rfl
      · exact Reader.foldlM_writeRow hne fun hsingle => h cells List.mem_cons_self hsingle.2
    rw [write, List.flatMap_cons, List.foldlM_append, hrow]
    exact (ih (rows ++ [cells]) fun c hc => h c (List.mem_cons_of_mem _ hc)).trans
      (by rw [List.append_assoc]; rfl)

/-- **Rows that were written are read back**, unless one of them looks like an empty line. -/
theorem read_write {rows : List (List (List Char))} (h : ∀ cells ∈ rows, cells ≠ [[]]) :
    read (write rows) = some rows := by
  unfold read Reader.init
  rw [foldlM_write [] h]
  rfl

example : read "a,\"b \"\"c\"\"\",\n\n\"d\"\n".toList =
    some [["a".toList, "b \"c\"".toList, []], [], ["d".toList]] := by decide

end TimeJournal.Text.Csv
