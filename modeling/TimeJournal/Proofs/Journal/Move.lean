import Mathlib.Order.Hom.Basic
import TimeJournal.Journal.Reading
import TimeJournal.Proofs.Text.Cut

/-! # Moving offsets

When a text changes in one place, or is read as a part of a longer text, its parts are found at
other offsets. `move` applies a monotone map of offsets to every span of a journal and leaves all
else alone. A map is `Rigid` on a stretch of text if it keeps the distances there.

* `IsCut.move`: the cut of a text at another place.
* `BodyLine.read_move`, `BlockLine.read_move`: what a line is read as moves with the line, its fault
  included, if the map is rigid on the content of the line. So reading looks at no offset. -/

namespace TimeJournal

open Text

/-! ### Spans and nodes -/

/-- The span between the new places of the ends. -/
def Span.move (m : ℕ →o ℕ) (s : Span) : Span := ⟨m s.start, m s.stop, m.monotone s.start_le_stop⟩

@[simp] theorem Span.move_start (m : ℕ →o ℕ) (s : Span) : (s.move m).start = m s.start := rfl

@[simp] theorem Span.move_stop (m : ℕ →o ℕ) (s : Span) : (s.move m).stop = m s.stop := rfl

/-- A line that begins at the new place. -/
def Text.Line.move (m : ℕ →o ℕ) (l : Text.Line) : Text.Line := { l with start := m l.start }

/-- A value with its new span. -/
def Located.move {α : Type} (m : ℕ →o ℕ) (a : Located α) : Located α :=
  { a with span := a.span.move m }

/-- Junk with its new span. -/
def Junk.move (m : ℕ →o ℕ) (j : Junk) : Junk := { j with span := j.span.move m }

/-- A part with its new spans, or the junk in its place. -/
def Recovered.move {α : Type} (part : (ℕ →o ℕ) → α → α) (m : ℕ →o ℕ) : Recovered α → Recovered α
  | .read a => .read (part m a)
  | .junk j => .junk (j.move m)

/-- A duration with its new span. -/
def Duration.move (m : ℕ →o ℕ) (d : Duration) : Duration := { d with span := d.span.move m }

/-- A front matter with its new spans. -/
def FrontMatter.move (m : ℕ →o ℕ) (f : FrontMatter) : FrontMatter where
  date := f.date.map (Recovered.move Located.move m)
  start := f.start.map (Located.move m)
  stop := f.stop.map (Located.move m)
  span := f.span.move m

/-- An entry with its new spans. -/
def Entry.move (m : ℕ →o ℕ) (e : Entry) : Entry where
  start := e.start.move m
  stop := e.stop.move m
  codes := e.codes.map (Located.move m)
  duration := e.duration.move Duration.move m
  activity := e.activity.move m
  span := e.span.move m

/-- A line of the body with its new spans. -/
def BodyLine.move (m : ℕ →o ℕ) : BodyLine → BodyLine
  | .entry e => .entry (e.move m)
  | .other c => .other (c.move m)
  | .junk j => .junk (j.move m)

/-- A journal with its new spans. -/
def Journal.move (m : ℕ →o ℕ) (j : Journal) : Journal where
  frontMatter := j.frontMatter.move m
  lines := j.lines.map (BodyLine.move m)
  span := j.span.move m

/-- A fault with its new span. -/
def ParseFault.move (m : ℕ →o ℕ) (f : ParseFault) : ParseFault := { f with span := f.span.move m }

/-- A field with the new places of its value and its line. -/
def Field.move (m : ℕ →o ℕ) (f : Field) : Field :=
  { f with span := f.span.move m, line := m f.line }

/-- A line of the block with its new spans. -/
def BlockLine.move (m : ℕ →o ℕ) : BlockLine → BlockLine
  | .blank => .blank
  | .field f => .field (f.move m)
  | .unexpected s => .unexpected (s.move m)

/-! ### Rigid stretches -/

/-- The map keeps the distances in the stretch of `length` characters that begins at `start`. -/
def Rigid (m : ℕ →o ℕ) (start length : ℕ) : Prop := ∀ k ≤ length, m (start + k) = m start + k

namespace Rigid

variable {m : ℕ →o ℕ} {start length : ℕ}

theorem ofLength_move (h : Rigid m start length) {k n : ℕ} (hk : k + n ≤ length) :
    (Span.ofLength (start + k) n).move m = Span.ofLength (m start + k) n := by
  refine Span.ext ?_ ?_
  · exact h k (by omega)
  · show m (start + k + n) = m start + k + n
    rw [Nat.add_assoc, h (k + n) hk, Nat.add_assoc]

end Rigid

/-! ### Cuts -/

namespace Text

@[simp] theorem Line.chars_move (m : ℕ →o ℕ) (l : Line) : (l.move m).chars = l.chars := rfl

theorem flatMap_chars_move (m : ℕ →o ℕ) (ls : List Line) :
    (ls.map (Line.move m)).flatMap Line.chars = ls.flatMap Line.chars := by
  simp [List.flatMap_map]

theorem IsCut.move {m : ℕ →o ℕ} {ls : List Line} : ∀ {start : ℕ}, IsCut start ls →
    (∀ k, m (start + k) = m start + k) → IsCut (m start) (ls.map (Line.move m)) := by
  induction ls with
  | nil => intro start _ _; trivial
  | cons l ls ih =>
    rintro start ⟨hs, hw, hlast, hcut⟩ hm
    refine ⟨congrArg m hs, ⟨hw.noFeed, hw.noReturn, hw.ne_nil⟩, fun h => ?_, ?_⟩
    · rw [hlast h]; rfl
    · rw [Line.chars_move, ← hm]
      refine ih hcut fun k => ?_
      rw [Nat.add_assoc, hm, hm, Nat.add_assoc]

end Text

/-! ### Lines of the body -/

namespace EntryText

variable {m : ℕ →o ℕ} {start length : ℕ}

theorem faultAt_move (h : Rigid m start length) (cause : ParseCause) {k : ℕ} {rest : List Char}
    (hk : k + rest.length ≤ length) :
    (faultAt cause (start + k) rest).move m = faultAt cause (m start + k) rest := by
  have hw : (rest.takeWhile isWordChar).length ≤ rest.length :=
    (List.takeWhile_prefix _).length_le
  unfold faultAt ParseFault.move
  rw [h.ofLength_move (by omega)]

theorem length_of_takeTime {s token rest : List Char} (h : takeTime s = some (token, rest)) :
    token.length + rest.length = s.length := by
  rw [← takeTime_chars h, List.length_append]

theorem length_dropWhile_blanks (s : List Char) :
    (s.takeWhile isBlank).length + (s.dropWhile isBlank).length = s.length := by
  rw [← List.length_append, List.takeWhile_append_dropWhile]

/-- Cutting an entry into its parts does not look at its place. -/
theorem readAfterDash_move {s : List Char} (h : Rigid m start (s.length + 1)) :
    readAfterDash (m start) s = (readAfterDash start s).mapError (ParseFault.move m) := by
  have hlead := length_dropWhile_blanks s
  simp only [readAfterDash]
  by_cases h₁ : (s.takeWhile isBlank).isEmpty
  · simp only [if_pos h₁, Except.mapError]
    rw [faultAt_move h _ (by omega)]
  simp only [if_neg h₁]
  cases hfirst : takeTime (s.dropWhile isBlank) with
  | none =>
    simp only [Except.mapError, Nat.add_assoc]
    rw [faultAt_move h _ (by omega)]
  | some found =>
    obtain ⟨first, s₂⟩ := found
    have hl := length_of_takeTime hfirst
    simp only
    split
    · rename_i s₃
      cases hlast : takeTime s₃ with
      | none =>
        simp only [Except.mapError, Nat.add_assoc]
        rw [faultAt_move h _ (by simp at hl; omega)]
      | some found =>
        obtain ⟨last, s₄⟩ := found
        have hl' := length_of_takeTime hlast
        have hgap := length_dropWhile_blanks s₄
        simp only
        by_cases h₂ : (s₄.takeWhile isBlank).isEmpty
        · simp only [if_pos h₂, Except.mapError, Nat.add_assoc]
          rw [faultAt_move h _ (by simp at hl; omega)]
        simp only [if_neg h₂]
        cases takeCodes maxCodes (s₄.dropWhile isBlank) with
        | none =>
          simp only [Except.mapError, ParseFault.move, Nat.add_assoc]
          rw [h.ofLength_move (by simp at hl; omega)]
        | some found => rfl
    · simp only [Except.mapError, Nat.add_assoc]
      rw [faultAt_move h _ (by omega)]

/-! Offsets of the parts, counted from the beginning of the entry -/

theorem startAt_eq (t : EntryText) (start : ℕ) : t.startAt start = start + t.startAt 0 := by
  unfold startAt; omega

theorem stopAt_eq (t : EntryText) (start : ℕ) : t.stopAt start = start + t.stopAt 0 := by
  unfold stopAt startAt; omega

theorem codesAt_eq (t : EntryText) (start : ℕ) : t.codesAt start = start + t.codesAt 0 := by
  unfold codesAt stopAt startAt; omega

theorem durationAt_eq (t : EntryText) (start : ℕ) :
    t.durationAt start = start + t.durationAt 0 := by
  unfold durationAt codesAt stopAt startAt; omega

theorem activityAt_eq (t : EntryText) (start : ℕ) :
    t.activityAt start = start + t.activityAt 0 := by
  unfold activityAt durationAt codesAt stopAt startAt; omega

theorem endAt_eq (t : EntryText) (start : ℕ) : t.endAt start = start + t.chars.length := by
  simp only [endAt, activityAt, durationAt, codesAt, stopAt, startAt, chars, List.length_cons,
    List.length_append, Word.chars, Word.size]
  omega

theorem locateWords_move (h : Rigid m start length) (ws : List Word) {k : ℕ}
    (hk : k + (ws.flatMap Word.chars).length ≤ length) :
    (locateWords (start + k) ws).map (Located.move m) = locateWords (m start + k) ws := by
  induction ws generalizing k with
  | nil => rfl
  | cons w ws ih =>
    have hsize : w.chars.length = w.size := List.length_append
    rw [List.flatMap_cons, List.length_append, hsize] at hk
    have hw : k + w.text.length ≤ length := by unfold Word.size at hk; omega
    simp only [locateWords, List.map_cons, Nat.add_assoc]
    rw [ih (by omega)]
    simp only [locate, Located.move, h.ofLength_move hw]

theorem readDuration_move (h : Rigid m start length) (literal : List Char) {k : ℕ}
    (hk : k + literal.length ≤ length) :
    readDuration (m start + k) literal =
      ((readDuration (start + k) literal).1.move Duration.move m,
        (readDuration (start + k) literal).2.map (ParseFault.move m)) := by
  simp only [readDuration, ← h.ofLength_move hk]
  cases Hours.seconds? literal with
  | none => rfl
  | some seconds => rfl

/-- The entry of a line moves with the line. -/
theorem toEntry_move {t : EntryText} (h : Rigid m start t.chars.length) :
    t.toEntry (m start) =
      ((t.toEntry start).1.move m, (t.toEntry start).2.map (ParseFault.move m)) := by
  have hend : t.endAt 0 ≤ t.chars.length := by rw [endAt_eq]; omega
  have hduration := readDuration_move h t.duration.text (k := t.durationAt 0) (by
    unfold endAt activityAt Word.size at hend; omega)
  have hcodes := locateWords_move h t.codes (k := t.codesAt 0) (by
    unfold endAt activityAt durationAt at hend; omega)
  have hstart := h.ofLength_move (k := t.startAt 0) (n := t.start.length) (by
    unfold endAt activityAt durationAt codesAt stopAt at hend; omega)
  have hstop := h.ofLength_move (k := t.stopAt 0) (n := t.stop.length) (by
    unfold endAt activityAt durationAt codesAt at hend; omega)
  have hactivity := h.ofLength_move (k := t.activityAt 0) (n := t.activity.length) (by
    unfold endAt at hend; omega)
  have hspan : (⟨start, t.endAt start, t.le_endAt start⟩ : Span).move m =
      ⟨m start, t.endAt (m start), t.le_endAt (m start)⟩ := by
    refine Span.ext rfl ?_
    show m (t.endAt start) = t.endAt (m start)
    rw [endAt_eq, endAt_eq, h _ le_rfl]
  simp only [toEntry, t.startAt_eq start, t.startAt_eq (m start), t.stopAt_eq start,
    t.stopAt_eq (m start), t.codesAt_eq start, t.codesAt_eq (m start), t.durationAt_eq start,
    t.durationAt_eq (m start), t.activityAt_eq start, t.activityAt_eq (m start), hduration]
  simp only [Entry.move, hcodes, locateTime, locate, Located.move, hstart, hstop, hactivity,
    hspan]

end EntryText

/-- **What a line of the body is read as moves with the line.** -/
theorem BodyLine.read_move {m : ℕ →o ℕ} {start : ℕ} {content : List Char}
    (h : Rigid m start content.length) :
    BodyLine.read (m start) content =
      ((BodyLine.read start content).1.move m,
        (BodyLine.read start content).2.map (ParseFault.move m)) := by
  have hspan := h.ofLength_move (k := 0) (n := content.length) (by omega)
  unfold BodyLine.read
  by_cases hl : looksLikeEntry content
  · simp only [if_pos hl]
    obtain ⟨r, rfl⟩ : ∃ r, content = '-' :: r := by
      unfold looksLikeEntry at hl
      split at hl
      · exact ⟨_, rfl⟩
      · cases hl
    rw [show ('-' :: r).drop 1 = r from rfl, EntryText.readAfterDash_move h]
    cases hr : EntryText.readAfterDash start r with
    | error fault =>
      simp only [Except.mapError, BodyLine.move, Junk.move, Option.map_some]
      rw [show (Span.ofLength start _).move m = _ from hspan]
      rfl
    | ok t =>
      have ht : Rigid m start t.chars.length := by
        rwa [EntryText.chars_of_readAfterDash hr]
      simp only [Except.mapError, EntryText.toEntry_move ht, BodyLine.move]
  · simp only [if_neg hl, BodyLine.move, EntryText.locate, Located.move, Option.map_none]
    rw [show (Span.ofLength start _).move m = _ from hspan]
    rfl

/-! ### Lines of the front matter -/

/-- The value of a field stands in its line. -/
theorem FieldText.valueOffset_add_le (f : FieldText) :
    f.valueOffset + f.value.length ≤ f.chars.length := by
  simp only [chars, valueOffset, List.length_append, List.length_cons, String.length_toList]
  omega

/-- **What a line of the block is read as moves with the line.** -/
theorem BlockLine.read_move {m : ℕ →o ℕ} {l : Line} (h : Rigid m l.start l.content.length) :
    BlockLine.read (l.move m) = (BlockLine.read l).move m := by
  have hspan := h.ofLength_move (k := 0) (n := l.content.length) (by omega)
  have hcontent : (l.move m).content = l.content := rfl
  have hstart : (l.move m).start = m l.start := rfl
  unfold BlockLine.read
  rw [hcontent, hstart]
  by_cases hb : l.content.all isBlank
  · rw [if_pos hb, if_pos hb]; rfl
  · rw [if_neg hb, if_neg hb]
    cases hf : FieldText.read l.content with
    | none =>
      simp only [BlockLine.move]
      rw [show (Span.ofLength l.start _).move m = _ from hspan]
      rfl
    | some f =>
      have hlen : f.valueOffset + f.value.length ≤ l.content.length := by
        rw [← FieldText.chars_of_read hf]
        exact f.valueOffset_add_le
      simp only [BlockLine.move, Field.move, h.ofLength_move hlen]

theorem BlockLine.fault?_move (m : ℕ →o ℕ) (l : BlockLine) :
    (l.move m).fault? = l.fault?.map (ParseFault.move m) := by
  cases l with
  | blank => rfl
  | unexpected s => rfl
  | field f =>
    simp only [BlockLine.move, BlockLine.fault?, Field.move]
    by_cases hk : f.key = .date
    · simp only [if_pos hk]
      cases Date.parse f.value <;> rfl
    · simp only [if_neg hk]; rfl

theorem BlockLine.field?_move (m : ℕ →o ℕ) (l : BlockLine) :
    (l.move m).field? = l.field?.map (Field.move m) := by
  cases l <;> rfl

theorem lastField_move (m : ℕ →o ℕ) (fields : List Field) (key : FieldKey) :
    lastField (fields.map (Field.move m)) key = (lastField fields key).map (Field.move m) := by
  unfold lastField
  rw [List.filter_map, List.getLast?_map]
  rfl

theorem Field.toDate_move (m : ℕ →o ℕ) (f : Field) :
    (f.move m).toDate = f.toDate.move Located.move m := by
  unfold Field.toDate
  simp only [Field.move]
  cases Date.parse f.value <;> rfl

theorem Block.frontMatter_move (m : ℕ →o ℕ) (fields : List Field) (span : Span) :
    Block.frontMatter (fields.map (Field.move m)) (span.move m) =
      (Block.frontMatter fields span).move m := by
  simp only [Block.frontMatter, lastField_move, FrontMatter.move, Option.map_map]
  congr 1
  exact Option.map_congr fun f _ => Field.toDate_move m f

end TimeJournal
