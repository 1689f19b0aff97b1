import Mathlib.Data.List.TakeWhile
import TimeJournal.Proofs.Journal.Move

/-! # Documents

A `Document` is a text that has a journal, cut into its lines and sorted by what they are for: the
line that opens the front matter, the lines inside, the line that closes it, and the body. That the
lines are a cut and that the block closes at the first line that can close it is part of the type,
so a document is read without any failure.

* `Document.journal_ofText`, `Document.faults_ofText`: what reading the text of a document gives.
* `exists_document`: every text that has a journal is the text of a document. -/

namespace TimeJournal

open Text

theorem Reading.length_mark (marked : Bool) :
    (if marked then [byteOrderMark] else []).length = marked.toNat := by
  cases marked <;> rfl

/-- A text with a front matter, in lines. -/
structure Document where
  marked : Bool
  opening : Line
  inner : List Line
  closing : Line
  body : List Line
  cut : IsCut marked.toNat (opening :: (inner ++ closing :: body))
  opens : isDelimiter opening.content = true
  within : ∀ l ∈ inner, isDelimiter l.content = false
  closes : isDelimiter closing.content = true

namespace Document

variable (D : Document)

/-- The lines of a document. -/
def lines : List Line := D.opening :: (D.inner ++ D.closing :: D.body)

/-- What stands in front of the first line: nothing, or a byte order mark. -/
def mark : List Char := if D.marked then [Reading.byteOrderMark] else []

/-- The text of a document. -/
def text : List Char := D.mark ++ D.lines.flatMap Line.chars

/-- What the lines inside the front matter are. -/
def blockLines : List BlockLine := D.inner.map BlockLine.read

/-- The fields of the front matter. -/
def fields : List Field := D.blockLines.filterMap BlockLine.field?

/-- The span of the front matter, from the opening line to the content of the closing one. -/
def blockSpan : Span := Span.ofLength D.marked.toNat (D.closing.stop - D.marked.toNat)

/-- What the lines of the body are, with their faults. -/
def bodyLines : List (BodyLine × Option ParseFault) :=
  D.body.map fun l => BodyLine.read l.start l.content

/-- The journal of a document. -/
def journal : Journal where
  frontMatter := Block.frontMatter D.fields D.blockSpan
  lines := D.bodyLines.map Prod.fst
  span := Span.ofLength 0 D.text.length

/-- The faults in a document. -/
def faults : List ParseFault :=
  D.blockLines.filterMap BlockLine.fault? ++ D.bodyLines.filterMap Prod.snd

theorem length_mark : D.mark.length = D.marked.toNat := Reading.length_mark D.marked

/-! ### Reading a document -/

/-- The block is found where the document has it. -/
theorem ofLines_eq (stop : ℕ) : Block.ofLines D.marked.toNat stop D.lines =
    ⟨.ok (Block.frontMatter D.fields D.blockSpan, D.closing, D.body), D.fields,
      D.blockLines.filterMap BlockLine.fault?⟩ := by
  have htake : (D.inner ++ D.closing :: D.body).takeWhile (fun l => !isDelimiter l.content) =
      D.inner := by
    rw [List.takeWhile_append_of_pos (by simpa using D.within)]
    simp [D.closes]
  have hdrop : (D.inner ++ D.closing :: D.body).dropWhile (fun l => !isDelimiter l.content) =
      D.closing :: D.body := by
    rw [List.dropWhile_append_of_pos (by simpa using D.within)]
    simp [D.closes]
  unfold Block.ofLines lines
  simp only [D.opens, if_true, htake, hdrop]
  rfl

theorem ofLines_reading (size : ℕ) :
    (Reading.ofLines D.marked.toNat size D.lines).journal =
        some { D.journal with span := Span.ofLength 0 size } ∧
      (Reading.ofLines D.marked.toNat size D.lines).faults = D.faults := by
  unfold Reading.ofLines
  rw [D.ofLines_eq]
  exact ⟨rfl, rfl⟩

end Document

theorem exists_dash_of_isDelimiter {content : List Char} (h : isDelimiter content = true) :
    ∃ r, content = '-' :: r := by
  unfold isDelimiter at h
  cases content with
  | nil => simp at h
  | cons c r =>
    by_cases hc : c = '-'
    · exact ⟨r, by rw [hc]⟩
    · simp [hc] at h

/-- The reading of a text, with the mark taken off. -/
theorem ofText_mark (marked : Bool) (s : List Char)
    (h : marked = false → s.head? ≠ some Reading.byteOrderMark) :
    Reading.ofText ((if marked then [Reading.byteOrderMark] else []) ++ s) =
      Reading.ofLines marked.toNat (marked.toNat + s.length) (lines marked.toNat s) := by
  cases marked with
  | true => simp [Reading.ofText, Nat.add_comm]
  | false =>
    cases s with
    | nil => rfl
    | cons c r =>
      have hc : c ≠ Reading.byteOrderMark := by simpa using h rfl
      simp [Reading.ofText, hc]

namespace Document

variable (D : Document)

theorem head?_lines : (D.lines.flatMap Line.chars).head? = some '-' := by
  obtain ⟨r, hr⟩ := exists_dash_of_isDelimiter D.opens
  rw [lines, List.flatMap_cons, Line.chars, hr]
  rfl

theorem ofText_eq : Reading.ofText D.text =
    Reading.ofLines D.marked.toNat D.text.length D.lines := by
  have hcut : Text.lines D.marked.toNat (D.lines.flatMap Line.chars) = D.lines :=
    lines_eq_of_isCut D.cut
  have hlen : D.text.length = D.marked.toNat + (D.lines.flatMap Line.chars).length := by
    rw [text, List.length_append, D.length_mark]
  have hhead : D.marked = false → (D.lines.flatMap Line.chars).head? ≠ some Reading.byteOrderMark :=
    fun _ => by rw [D.head?_lines]; decide
  have h := ofText_mark D.marked (D.lines.flatMap Line.chars) hhead
  rw [hcut, ← hlen] at h
  exact h

/-- **The journal of the text of a document.** -/
theorem journal_ofText : (Reading.ofText D.text).journal = some D.journal := by
  rw [D.ofText_eq, (D.ofLines_reading _).1]
  rfl

/-- **The faults in the text of a document.** -/
theorem faults_ofText : (Reading.ofText D.text).faults = D.faults := by
  rw [D.ofText_eq, (D.ofLines_reading _).2]

end Document

theorem exists_mark (s : List Char) : ∃ (marked : Bool) (r : List Char),
    s = (if marked then [Reading.byteOrderMark] else []) ++ r ∧
      (marked = false → r.head? ≠ some Reading.byteOrderMark) := by
  cases s with
  | nil => exact ⟨false, [], rfl, by simp⟩
  | cons c r =>
    by_cases hc : c = Reading.byteOrderMark
    · exact ⟨true, r, by simp [hc], by simp⟩
    · exact ⟨false, c :: r, rfl, by simpa using hc⟩

/-- A text that is short enough is read. -/
theorem Journal.read_of_le {text : String} {limit : ℕ} (h : limit = 0 ∨ text.length ≤ limit) :
    Journal.read text limit = .ok (Reading.ofText text.toList) :=
  if_neg (by omega)

/-- What is read is the reading of the whole text, which is short enough. -/
theorem Journal.read_eq_ok_iff {text : String} {limit : ℕ} {reading : Reading} :
    Journal.read text limit = .ok reading ↔
      (limit = 0 ∨ text.length ≤ limit) ∧ reading = Reading.ofText text.toList := by
  unfold Journal.read
  split
  · exact iff_of_false nofun fun h => by omega
  · rw [Except.ok.injEq, eq_comm]
    exact ⟨fun h => ⟨by omega, h⟩, And.right⟩

/-- Lines with a front matter are sorted as those of a document. -/
theorem exists_sections {start stop : ℕ} {ls body : List Line} {part : FrontMatter} {closing : Line}
    (h : (Block.ofLines start stop ls).outcome = .ok (part, closing, body)) :
    ∃ opening inner, ls = opening :: (inner ++ closing :: body) ∧
      isDelimiter opening.content = true ∧ (∀ l ∈ inner, isDelimiter l.content = false) ∧
      isDelimiter closing.content = true := by
  unfold Block.ofLines at h
  cases ls with
  | nil => cases h
  | cons opening rest =>
    by_cases hopen : isDelimiter opening.content = true
    swap
    · simp [hopen] at h
    have hrest := List.takeWhile_append_dropWhile (p := fun l : Line => !isDelimiter l.content)
      (l := rest)
    have hcloses := List.head?_dropWhile_not (fun l : Line => !isDelimiter l.content) rest
    cases hdrop : rest.dropWhile fun l => !isDelimiter l.content with
    | nil => simp [hopen, hdrop] at h
    | cons closing' body' =>
      obtain ⟨-, rfl, rfl⟩ : _ ∧ closing' = closing ∧ body' = body := by
        simpa [hopen, hdrop] using h
      rw [hdrop] at hrest hcloses
      refine ⟨opening, _, congrArg _ hrest.symm, hopen, fun l hl => ?_, ?_⟩
      · simpa using List.mem_takeWhile_imp hl
      · simpa using hcloses

/-- **A text that has a journal is the text of a document.** -/
theorem exists_document {s : List Char} {j : Journal} (h : (Reading.ofText s).journal = some j) :
    ∃ D : Document, D.text = s ∧ D.journal = j := by
  obtain ⟨marked, r, rfl, hr⟩ := exists_mark s
  have hlines := ofText_mark marked r hr
  have hcut := isCut_lines marked.toNat r
  have htext := lines_flatten marked.toNat r
  rw [hlines] at h
  unfold Reading.ofLines at h
  cases hblock : (Block.ofLines marked.toNat (marked.toNat + r.length)
    (lines marked.toNat r)).outcome with
  | error fault => simp [hblock] at h
  | ok block =>
    obtain ⟨part, closing, body⟩ := block
    obtain ⟨opening, inner, hls, hopens, hwithin, hcloses⟩ := exists_sections hblock
    rw [hls] at hcut htext
    let D : Document := ⟨marked, opening, inner, closing, body, hcut, hopens, hwithin, hcloses⟩
    have hD : D.text = (if marked then [Reading.byteOrderMark] else []) ++ r := by
      rw [← htext, ← List.flatMap_def]
      rfl
    refine ⟨D, hD, ?_⟩
    have hj := D.journal_ofText
    rw [hD, hlines] at hj
    unfold Reading.ofLines at hj
    exact Option.some.inj (hj.symm.trans h)

end TimeJournal
