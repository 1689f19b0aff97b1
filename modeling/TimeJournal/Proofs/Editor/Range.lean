import TimeJournal.Proofs.Editor.QuickFix
import TimeJournal.Proofs.Text.Position

/-! # Ranges of a text

The two translations of a line index, with the refusal of negative numbers that goes with them, and
what they make of ranges.

* `Text.LineIndex.Counts`: an offset has the position that counting gives, which grows with the
  offset, and is the offset of it.
* `Text.LineIndex.Clamps`: every position has an offset in the text; it keeps the order, and leads
  back to no later position, and to the same one exactly if the text has such a place.
* `Editor.KeepsRanges`: a span of the text comes back from its range, and a range that does not run
  backwards is never refused, whether it is given as it is or as an editor sends it.
* `Editor.ofText_translates`: this, for every text. -/

namespace TimeJournal

namespace Text.LineIndex

/-- From an offset to its position and back. -/
structure Counts (ix : LineIndex) (text : List Char) : Prop where
  position : ∀ o : ℕ, o ≤ text.length → ix.position? o = .ok (.behind (text.take o))
  offset : ∀ o : ℕ, o ≤ text.length → ∀ p, ix.position? o = .ok p →
    ix.offset? p.line p.character = .ok o
  increasing : ∀ o o' : ℕ, o < o' → o' ≤ text.length → ∀ p p', ix.position? o = .ok p →
    ix.position? o' = .ok p' → p < p'
  pastEnd : ∀ o : ℕ, text.length ≤ o → ix.position? o = ix.position? text.length

/-- From a position to its offset and back. -/
structure Clamps (ix : LineIndex) (text : List Char) : Prop where
  offset : ∀ p : Position, ∃ o ≤ text.length, ix.offset? p.line p.character = .ok o
  mono : ∀ p q : Position, p ≤ q → ∀ o o', ix.offset? p.line p.character = .ok o →
    ix.offset? q.line q.character = .ok o' → o ≤ o'
  position : ∀ (p : Position) (o : ℕ), ix.offset? p.line p.character = .ok o →
    ∃ q ≤ p, ix.position? o = .ok q ∧ (q = p ↔ p.IsIn text)

variable {text : List Char}

theorem counts_ofText (text : List Char) : (ofText text).Counts text where
  position o ho := by rw [position?_natCast, position_eq ho]
  offset o ho p hp := by
    rw [position?_natCast] at hp
    rw [← Except.ok.inj hp, offset?_natCast, offset_position text ho]
  increasing o o' hlt ho' p p' hp hp' := by
    rw [position?_natCast] at hp hp'
    rw [← Except.ok.inj hp, ← Except.ok.inj hp']
    exact position_lt hlt ho'
  pastEnd o ho := by rw [position?_natCast, position?_natCast, position_of_le ho]

theorem clamps_ofText (text : List Char) : (ofText text).Clamps text where
  offset p := ⟨_, offset_le p, offset?_natCast _ p⟩
  mono p q hle o o' ho ho' := by
    rw [offset?_natCast] at ho ho'
    rw [← Except.ok.inj ho, ← Except.ok.inj ho']
    exact offset_mono hle
  position p o ho := by
    rw [offset?_natCast] at ho
    rw [← Except.ok.inj ho, position?_natCast]
    exact ⟨_, position_offset_le p, rfl, position_offset_eq_iff⟩

/-- A range that does not run backwards has a span. -/
theorem toSpan?_of_le {p q : Position} (h : p ≤ q) :
    (ofText text).toSpan? (p.line, p.character) (q.line, q.character) =
      .ok ⟨(ofText text).offset p, (ofText text).offset q, offset_mono h⟩ := by
  have hle : (ofText text).offset p ≤ (ofText text).offset q := offset_mono h
  have hspan : Span.ofInts ((ofText text).offset p) ((ofText text).offset q) =
      .ok ⟨(ofText text).offset p, (ofText text).offset q, hle⟩ := by
    unfold Span.ofInts
    rw [dif_neg (by omega), dif_neg (by omega)]
    rfl
  unfold toSpan?
  dsimp only
  rw [offset?_natCast, offset?_natCast]
  dsimp only [bind, Except.bind]
  rw [hspan]

end Text.LineIndex

namespace Editor

open Text

/-- A range and its span, both ways. -/
structure KeepsRanges (ix : LineIndex) (text : List Char) : Prop where
  span : ∀ s : Span, s.stop ≤ text.length → ∃ r, ix.toRange? s.start s.stop = .ok r ∧
    ix.toSpan? (r.start.line, r.start.character) (r.stop.line, r.stop.character) = .ok s ∧
    (SentRange.ofRange r).toSpan ix = .ok s
  range : ∀ r : Range, r.start ≤ r.stop → ∃ s : Span,
    ix.offset? r.start.line r.start.character = .ok s.start ∧
    ix.offset? r.stop.line r.stop.character = .ok s.stop ∧
    ix.toSpan? (r.start.line, r.start.character) (r.stop.line, r.stop.character) = .ok s ∧
    (SentRange.ofRange r).toSpan ix = .ok s

theorem keepsRanges_ofText (text : List Char) : KeepsRanges (.ofText text) text where
  span s hs := by
    refine ⟨(LineIndex.ofText text).toRange s, ?_, LineIndex.toSpan?_toRange text hs,
      toSpan_ofRange hs⟩
    have hle := s.start_le_stop
    unfold LineIndex.toRange? Span.ofInts
    rw [dif_neg (by omega), dif_neg (by omega)]
    rfl
  range r hr := by
    have hspan := @LineIndex.toSpan?_of_le text _ _ hr
    exact ⟨_, LineIndex.offset?_natCast _ r.start, LineIndex.offset?_natCast _ r.stop, hspan,
      toSpan_of_toSpan? hspan⟩

/-- **A line index translates exactly, and both ways.** -/
theorem ofText_translates (text : List Char) :
    (LineIndex.ofText text).Counts text ∧ (LineIndex.ofText text).Clamps text ∧
      KeepsRanges (.ofText text) text :=
  ⟨LineIndex.counts_ofText text, LineIndex.clamps_ofText text, keepsRanges_ofText text⟩

/-- Character 7 of the second line is past the end of it, and line 9 past the end of the text. -/
example : (LineIndex.ofText "a\r\nbc\n".toList).toSpan? (1, 7) (9, 0) = .ok ⟨5, 6, by decide⟩ := by
  decide

end Editor

end TimeJournal
