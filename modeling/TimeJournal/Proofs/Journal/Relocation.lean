import Mathlib.Data.List.Basic
import TimeJournal.Proofs.Journal.Document

/-! # Lines at other places

Reading a line does not depend on where the line stands, nor on how it ends. So a block and a body
whose lines stand at other places are read as the same, at those places.

* `Relocates`: the lines are taken to other places, with their contents.
* `Block.ofLines_map`: the block among the lines is found as before.
* `Reading.ofLines_map`: the reading of the lines, but for the span of the whole journal, which
  begins at the beginning of the text wherever the lines begin. -/

namespace TimeJournal

open Text

/-- The lines stand at other places, each with its content and with the distances in it. -/
structure Relocates (m : ℕ →o ℕ) (g : Line → Line) (ls : List Line) : Prop where
  start_eq : ∀ l ∈ ls, (g l).start = m l.start
  content_eq : ∀ l ∈ ls, (g l).content = l.content
  rigid : ∀ l ∈ ls, Rigid m l.start l.content.length

theorem relocates_move {m : ℕ →o ℕ} {ls : List Line}
    (h : ∀ l ∈ ls, Rigid m l.start l.content.length) : Relocates m (Line.move m) ls :=
  ⟨fun _ _ => rfl, fun _ _ => rfl, h⟩

namespace Relocates

variable {m : ℕ →o ℕ} {g : Line → Line} {ls ls' : List Line} {l : Line}

theorem subset (h : Relocates m g ls) (hs : ls' ⊆ ls) : Relocates m g ls' :=
  ⟨fun l hl => h.start_eq l (hs hl), fun l hl => h.content_eq l (hs hl),
    fun l hl => h.rigid l (hs hl)⟩

theorem stop_eq (h : Relocates m g ls) (hl : l ∈ ls) : (g l).stop = m l.stop := by
  rw [Line.stop, Line.stop, h.start_eq l hl, h.content_eq l hl, h.rigid l hl _ le_rfl]

theorem blockLine (h : Relocates m g ls) (hl : l ∈ ls) :
    BlockLine.read (g l) = (BlockLine.read l).move m := by
  rw [← BlockLine.read_move (h.rigid l hl)]
  unfold BlockLine.read
  rw [h.start_eq l hl, h.content_eq l hl]
  rfl

theorem bodyLine (h : Relocates m g ls) (hl : l ∈ ls) :
    BodyLine.read (g l).start (g l).content = ((BodyLine.read l.start l.content).1.move m,
      (BodyLine.read l.start l.content).2.map (ParseFault.move m)) := by
  rw [h.start_eq l hl, h.content_eq l hl, BodyLine.read_move (h.rigid l hl)]

theorem map_blockLine (h : Relocates m g ls) :
    (ls.map g).map BlockLine.read = (ls.map BlockLine.read).map (BlockLine.move m) := by
  rw [List.map_map, List.map_map]
  exact List.map_congr_left fun l hl => h.blockLine hl

theorem map_bodyLine (h : Relocates m g ls) :
    (ls.map g).map (fun l => BodyLine.read l.start l.content) =
      (ls.map fun l => BodyLine.read l.start l.content).map fun r =>
        (r.1.move m, r.2.map (ParseFault.move m)) := by
  rw [List.map_map, List.map_map]
  exact List.map_congr_left fun l hl => h.bodyLine hl

theorem of_cons (h : Relocates m g (l :: ls)) : Relocates m g ls :=
  h.subset (List.subset_cons_self l ls)

theorem takeWhile (h : Relocates m g ls) :
    (ls.map g).takeWhile (fun l => !isDelimiter l.content) =
      (ls.takeWhile fun l => !isDelimiter l.content).map g := by
  induction ls with
  | nil => rfl
  | cons l ls ih =>
    rw [List.map_cons, List.takeWhile_cons, List.takeWhile_cons, h.content_eq l List.mem_cons_self]
    split
    · rw [ih h.of_cons, List.map_cons]
    · rfl

theorem dropWhile (h : Relocates m g ls) :
    (ls.map g).dropWhile (fun l => !isDelimiter l.content) =
      (ls.dropWhile fun l => !isDelimiter l.content).map g := by
  induction ls with
  | nil => rfl
  | cons l ls ih =>
    rw [List.map_cons, List.dropWhile_cons, List.dropWhile_cons, h.content_eq l List.mem_cons_self]
    split
    · exact ih h.of_cons
    · rfl

end Relocates

/-! ### What is found in the lines -/

theorem filterMap_fault?_move (m : ℕ →o ℕ) (ls : List BlockLine) :
    (ls.map (BlockLine.move m)).filterMap BlockLine.fault? =
      (ls.filterMap BlockLine.fault?).map (ParseFault.move m) := by
  rw [List.filterMap_map, List.map_filterMap]
  exact List.filterMap_congr fun l _ => BlockLine.fault?_move m l

theorem filterMap_field?_move (m : ℕ →o ℕ) (ls : List BlockLine) :
    (ls.map (BlockLine.move m)).filterMap BlockLine.field? =
      (ls.filterMap BlockLine.field?).map (Field.move m) := by
  rw [List.filterMap_map, List.map_filterMap]
  exact List.filterMap_congr fun l _ => BlockLine.field?_move m l

theorem filterMap_snd_move (m : ℕ →o ℕ) (rs : List (BodyLine × Option ParseFault)) :
    (rs.map fun r => (r.1.move m, r.2.map (ParseFault.move m))).filterMap Prod.snd =
      (rs.filterMap Prod.snd).map (ParseFault.move m) := by
  rw [List.filterMap_map, List.map_filterMap]
  rfl

/-- A span between two offsets goes with them. -/
theorem Span.move_ofLength_sub (m : ℕ →o ℕ) {start stop : ℕ} (h : start ≤ stop) :
    (Span.ofLength start (stop - start)).move m = Span.ofLength (m start) (m stop - m start) := by
  have hmono := m.monotone h
  refine Span.ext rfl ?_
  show m (start + (stop - start)) = m start + (m stop - m start)
  rw [Nat.add_sub_cancel' h, Nat.add_sub_cancel' hmono]

/-! ### Blocks and readings -/

/-- A block whose lines stand at other places. -/
def Block.relocate (m : ℕ →o ℕ) (g : Line → Line) (b : Block) : Block where
  outcome :=
    match b.outcome with
    | .ok (part, closing, rest) => .ok (part.move m, g closing, rest.map g)
    | .error fault => .error (fault.move m)
  fields := b.fields.map (Field.move m)
  faults := b.faults.map (ParseFault.move m)

section Relocate

variable {m : ℕ →o ℕ} {g : Line → Line} {ls : List Line} {start stop : ℕ}

/-- **The block among the lines is found as before.** -/
theorem Block.ofLines_map (h : Relocates m g ls) (hstart : ∀ l ∈ ls.head?, l.start = start)
    (hle : ∀ l ∈ ls, start ≤ l.start) (hstop : start ≤ stop) :
    ofLines (m start) (m stop) (ls.map g) = (ofLines start stop ls).relocate m g := by
  rcases ls with _ | ⟨opening, rest⟩
  · rfl
  have hcontent := h.content_eq opening List.mem_cons_self
  rw [List.map_cons]
  unfold ofLines
  dsimp only
  rw [hcontent]
  by_cases hopen : isDelimiter opening.content = true
  swap
  · have hspan : (Span.ofLength start opening.content.length).move m =
        Span.ofLength (m start) opening.content.length := by
      rw [← hstart opening rfl]
      exact (h.rigid opening List.mem_cons_self).ofLength_move (Nat.zero_add _).le
    rw [if_neg hopen, if_neg hopen, ← hspan]
    rfl
  have hrest := h.of_cons
  have hinner := hrest.subset (List.takeWhile_subset fun l => !isDelimiter l.content)
  rw [if_pos hopen, if_pos hopen, hrest.takeWhile, hrest.dropWhile, hinner.map_blockLine,
    filterMap_field?_move, filterMap_fault?_move]
  rcases hdrop : rest.dropWhile fun l => !isDelimiter l.content with _ | ⟨closing, body⟩
  · rw [hdrop, List.map_nil]
    dsimp only
    rw [← Span.move_ofLength_sub m hstop]
    rfl
  · have hclosing : closing ∈ rest :=
      (List.dropWhile_suffix _).subset (by rw [hdrop]; exact List.mem_cons_self)
    have hstop' : start ≤ closing.stop :=
      (hle closing (List.mem_cons_of_mem _ hclosing)).trans (Nat.le_add_right _ _)
    rw [hdrop, List.map_cons]
    dsimp only
    rw [hrest.stop_eq hclosing, ← Span.move_ofLength_sub m hstop', frontMatter_move]
    rfl

/-- **The lines are read as before.** -/
theorem Reading.ofLines_map (h : Relocates m g ls) (hstart : ∀ l ∈ ls.head?, l.start = start)
    (hle : ∀ l ∈ ls, start ≤ l.start) (hstop : start ≤ stop) :
    (ofLines (m start) (m stop) (ls.map g)).journal =
        (ofLines start stop ls).journal.map (fun j =>
          { j.move m with span := Span.ofLength 0 (m stop) }) ∧
      (ofLines (m start) (m stop) (ls.map g)).faults =
        (ofLines start stop ls).faults.map (ParseFault.move m) := by
  unfold ofLines
  rw [Block.ofLines_map h hstart hle hstop]
  dsimp only [Block.relocate]
  rcases houtcome : (Block.ofLines start stop ls).outcome with fault | ⟨part, closing, body⟩
  · exact ⟨rfl, rfl⟩
  · obtain ⟨opening, inner, rfl, -⟩ := exists_sections houtcome
    have hbody : Relocates m g body := h.subset fun x hx =>
      List.mem_cons_of_mem _ (List.mem_append_right _ (List.mem_cons_of_mem _ hx))
    dsimp only
    rw [hbody.map_bodyLine, filterMap_snd_move, List.map_append]
    constructor
    · simp only [Journal.move, Option.map_some, List.map_map]
      rfl
    · rfl

end Relocate

end TimeJournal
