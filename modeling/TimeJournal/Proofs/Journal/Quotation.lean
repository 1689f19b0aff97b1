import Mathlib.Data.List.Basic
import TimeJournal.Proofs.Journal.Coverage
import TimeJournal.Proofs.Journal.Layout

/-! # What a journal quotes

Every part of a journal carries the span it was read from, and what the text has in that span is
what the part holds. `Journal.parts` lists the parts with what they hold: a date as it is written, a
time and a duration as their literals, junk and the other lines as they are.

* `Separated`: parts that stand in a text one after the other, with a separator in front of each;
  together they are what the text has there (`Separated.stands`).
* `EntryText.separated_toEntry`: the parts of an entry stand so in its line.
* `Entry.IsSeparated`: what the separators of an entry are.
* `ofText_quotes`: the text has every part of its journal in the span of that part, the parts of an
  entry are separated so, and the fields of the front matter stand inside it. -/

namespace TimeJournal

open Text

/-! ### The parts of a journal -/

/-- A time as it was written. -/
def Located.literal (t : Located TimeToken) : Located String := ⟨t.value.raw, t.span⟩

/-- A date as it is written. -/
def Located.written (d : Located Date) : Located String := ⟨d.value.toString, d.span⟩

/-- A duration as it was written. -/
def Duration.literal (d : Duration) : Located String := ⟨d.raw, d.span⟩

/-- Junk as it was found. -/
def Junk.found (k : Junk) : Located String := ⟨k.content, k.span⟩

/-- What was read, or the junk in its place. -/
def Recovered.found {α : Type} (f : α → Located String) : Recovered α → Located String
  | .read part => f part
  | .junk k => k.found

/-- The fields of a front matter: the date or what stands in its place, the start and the end. -/
def FrontMatter.parts (f : FrontMatter) : List (Located String) :=
  (f.date.map (Recovered.found Located.written)).toList ++ (f.start.map Located.literal).toList ++
    (f.stop.map Located.literal).toList

/-- The parts of an entry in their order. -/
def Entry.parts (e : Entry) : List (Located String) :=
  e.start.literal :: e.stop.literal ::
    (e.codes ++ [e.duration.found Duration.literal] ++ [e.activity])

/-- The parts of a line. -/
def BodyLine.parts : BodyLine → List (Located String)
  | .entry e => e.parts
  | .other c => [c]
  | .junk k => [k.found]

/-- The parts of a journal. -/
def Journal.parts (j : Journal) : List (Located String) :=
  j.frontMatter.parts ++ j.lines.flatMap BodyLine.parts

/-! ### Parts behind separators -/

/-- From one offset to another the text has the parts at their spans, each behind its separator. -/
def Separated (text : List Char) : ℕ → List (List Char × Located String) → ℕ → Prop
  | pos, [], stop => pos = stop
  | pos, (separator, p) :: rest, stop =>
    Stands text pos (separator ++ p.value.toList) ∧
      p.span = Span.ofLength (pos + separator.length) p.value.toList.length ∧
      Separated text p.span.stop rest stop

namespace Separated

variable {text : List Char} {pos stop : ℕ} {parts : List (List Char × Located String)}

theorem slice_of_mem (h : Separated text pos parts stop) {separator : List Char}
    {p : Located String} (hp : (separator, p) ∈ parts) : p.span.slice text = p.value.toList := by
  induction parts generalizing pos with
  | nil => cases hp
  | cons x parts ih =>
    obtain ⟨hstands, hspan, hrest⟩ := h
    rcases List.mem_cons.mp hp with rfl | hp
    · rw [hspan]
      exact hstands.right.slice
    · exact ih hrest hp

/-- **Separated parts are what the text has there**, put together with their separators. -/
theorem stands (h : Separated text pos parts stop) (hpos : pos ≤ text.length) :
    Stands text pos (parts.flatMap fun p => p.1 ++ p.2.value.toList) ∧
      stop = pos + (parts.flatMap fun p => p.1 ++ p.2.value.toList).length := by
  induction parts generalizing pos with
  | nil => exact ⟨Stands.nil hpos, h.symm⟩
  | cons x parts ih =>
    obtain ⟨hstands, hspan, hrest⟩ := h
    have hplace : x.2.span.stop = pos + (x.1 ++ x.2.value.toList).length := by
      rw [hspan, List.length_append, ← Nat.add_assoc]
      rfl
    rw [hplace] at hrest
    obtain ⟨hmore, hstop⟩ := ih hrest hstands.add_le_length
    rw [List.flatMap_cons]
    refine ⟨hstands.append hmore, ?_⟩
    rw [List.length_append, hstop, Nat.add_assoc]

/-- A piece behind a separator, in front of separated parts. -/
theorem locate {separator piece more : List Char} (h : Stands text pos (separator ++ piece ++ more))
    (hrest : Separated text (pos + separator.length + piece.length) parts stop) :
    Separated text pos ((separator, EntryText.locate (pos + separator.length) piece) :: parts)
      stop := by
  have hpiece : (EntryText.locate (pos + separator.length) piece).value.toList = piece :=
    String.toList_ofList
  refine ⟨?_, ?_, hrest⟩
  · rw [hpiece]
    exact h.left
  · rw [hpiece]
    rfl

end Separated

/-! ### The parts of an entry -/

namespace EntryText

theorem locateWords_append (place : ℕ) (ws : List Word) (w : Word) :
    locateWords place (ws ++ [w]) =
      locateWords place ws ++ [locate (place + (ws.flatMap Word.chars).length) w.text] := by
  induction ws generalizing place with
  | nil => rfl
  | cons x ws ih =>
    rw [List.cons_append, locateWords, locateWords, ih, List.flatMap_cons, List.length_append,
      Word.chars, List.length_append, ← Nat.add_assoc, Word.size]
    rfl

theorem found_readDuration (place : ℕ) (literal : List Char) :
    (readDuration place literal).1.found Duration.literal = locate place literal := by
  rw [readDuration_eq]
  cases Hours.seconds? literal <;> rfl

theorem parts_toEntry (t : EntryText) (start : ℕ) : (t.toEntry start).1.parts =
    locate (t.startAt start) t.start :: locate (t.stopAt start) t.stop ::
      (locateWords (t.codesAt start) (t.codes ++ [t.duration]) ++
        [locate (t.activityAt start) t.activity]) := by
  rw [locateWords_append, ← durationAt, ← found_readDuration (t.durationAt start)]
  rfl

/-- Words stand behind the blanks of the words in front of them. -/
theorem separated_words {text gap activity : List Char} {ws : List Word} {pos : ℕ}
    (h : Stands text pos (gap ++ (ws.flatMap Word.chars ++ activity))) :
    Separated text pos ((gap :: ws.map Word.gap).zip (locateWords (pos + gap.length) ws ++
        [locate (pos + gap.length + (ws.flatMap Word.chars).length) activity]))
      (pos + gap.length + (ws.flatMap Word.chars).length + activity.length) := by
  induction ws generalizing gap pos with
  | nil => exact Separated.locate (by rwa [List.append_nil]) rfl
  | cons w ws ih =>
    have hword : Stands text pos
        (gap ++ w.text ++ (w.gap ++ (ws.flatMap Word.chars ++ activity))) := by
      rw [List.flatMap_cons, Word.chars] at h
      simpa only [List.append_assoc] using h
    -- the blanks behind the word are the separator of what follows it
    have hrest := ih hword.behind
    have hplace : pos + gap.length + w.text.length + w.gap.length = pos + gap.length + w.size := by
      rw [Word.size, ← Nat.add_assoc]
    have hsize : pos + gap.length + ((w :: ws).flatMap Word.chars).length =
        pos + gap.length + w.size + (ws.flatMap Word.chars).length := by
      rw [List.flatMap_cons, List.length_append, Word.chars, List.length_append, ← Nat.add_assoc,
        Word.size]
    rw [hplace] at hrest
    rw [hsize]
    exact Separated.locate hword hrest

/-- **The parts of an entry stand in its line**, each behind its separator. -/
theorem separated_toEntry {t : EntryText} {text : List Char} {start : ℕ}
    (h : Stands text start t.chars) : Separated text (start + 1)
      ((t.lead :: ['-'] :: (t.gap :: (t.codes ++ [t.duration]).map Word.gap)).zip
        (t.toEntry start).1.parts) (t.endAt start) := by
  have hlead : Stands text (start + 1) (t.lead ++ t.start ++ (['-'] ++ (t.stop ++ (t.gap ++
      ((t.codes ++ [t.duration]).flatMap Word.chars ++ t.activity))))) := by
    rw [chars_eq] at h
    have hrest := h.tail
    rw [rest] at hrest
    simpa only [List.append_assoc, List.singleton_append, List.flatMap_append,
      List.flatMap_singleton] using hrest
  have hdash : Stands text (t.startAt start + t.start.length) (['-'] ++ t.stop ++ (t.gap ++
      ((t.codes ++ [t.duration]).flatMap Word.chars ++ t.activity))) := by
    rw [List.append_assoc]
    exact hlead.behind
  have hgap : Stands text (t.stopAt start + t.stop.length) (t.gap ++
      ((t.codes ++ [t.duration]).flatMap Word.chars ++ t.activity)) := hdash.behind
  have hactivity : t.stopAt start + t.stop.length + t.gap.length +
      ((t.codes ++ [t.duration]).flatMap Word.chars).length = t.activityAt start := by
    rw [List.flatMap_append, List.length_append, List.flatMap_singleton, Word.chars,
      List.length_append, activityAt, durationAt, codesAt, Word.size]
    omega
  have hwords := separated_words hgap
  rw [hactivity] at hwords
  rw [parts_toEntry]
  exact Separated.locate hlead (Separated.locate hdash hwords)

end EntryText

/-! ### The separators of an entry -/

theorem StartsWith.ne_nil {ws : List Word} {s rest : List Char} (h : StartsWith ws s rest)
    (hne : ws ≠ []) : s ≠ [] := by
  rcases ws with _ | ⟨w, ws⟩
  · exact absurd rfl hne
  · obtain ⟨more, rfl, hfits, -⟩ := h
    rw [Word.chars, List.append_assoc]
    exact List.append_ne_nil_of_left_ne_nil hfits.text_ne_nil _

/-- Behind a word there are blanks, but for the last word if nothing follows it. -/
theorem StartsWith.gaps {ws : List Word} {last : Word} {s rest : List Char}
    (h : StartsWith (ws ++ [last]) s rest) : (∀ w ∈ ws, w.gap ≠ []) ∧
      (∀ w ∈ ws ++ [last], ∀ c ∈ w.gap, isBlank c = true) ∧ (last.gap = [] → rest = []) := by
  induction ws generalizing s with
  | nil =>
    obtain ⟨more, -, hfits, rfl⟩ := h
    refine ⟨by simp, fun w hw => ?_, hfits.rest_nil⟩
    rw [List.mem_singleton.mp hw]
    exact hfits.gap_blank
  | cons x ws ih =>
    obtain ⟨more, -, hfits, hmore⟩ := h
    obtain ⟨hne, hblank, hlast⟩ := ih hmore
    -- without blanks behind it the word would end the text, and another one follows
    have hx : x.gap ≠ [] := fun hgap => hmore.ne_nil (by simp) (hfits.rest_nil hgap)
    refine ⟨fun w hw => ?_, fun w hw => ?_, hlast⟩
    · rcases List.mem_cons.mp hw with rfl | hw
      · exact hx
      · exact hne w hw
    · rcases List.mem_cons.mp hw with rfl | hw
      · exact hfits.gap_blank
      · exact hblank w hw

/-- The parts of an entry behind their separators: blanks in front of the start time, a dash in front
of the end time, and blanks in front of each of the other parts. -/
def Entry.separated (e : Entry) (lead : List Char) (gaps : List (List Char)) (last : List Char) :
    List (List Char × Located String) :=
  (lead :: ['-'] :: (gaps ++ [last])).zip e.parts

/-- The entry is a dash and its parts behind their separators, from its beginning to its end. Only
the blanks in front of an activity without characters can be missing. -/
structure Entry.IsSeparated (e : Entry) (text lead : List Char) (gaps : List (List Char))
    (last : List Char) : Prop where
  length_gaps : gaps.length = e.codes.length + 1
  separated : Separated text (e.span.start + 1) (e.separated lead gaps last) e.span.stop
  slice_eq : e.span.slice text =
    '-' :: (e.separated lead gaps last).flatMap fun p => p.1 ++ p.2.value.toList
  gap_blank : ∀ gap ∈ lead :: last :: gaps, ∀ c ∈ gap, isBlank c = true
  gap_ne_nil : ∀ gap ∈ lead :: gaps, gap ≠ []
  last_nil : last = [] → e.activity.value = ""

theorem EntryText.length_locateWords (place : ℕ) (ws : List Word) :
    (locateWords place ws).length = ws.length := by
  induction ws generalizing place with
  | nil => rfl
  | cons w ws ih => rw [locateWords, List.length_cons, List.length_cons, ih]

/-- **An entry is separated as the grammar has it.** -/
theorem EntryText.IsEntry.isSeparated {t : EntryText} (ht : t.IsEntry) {text : List Char}
    {start : ℕ} (h : Stands text start t.chars) : (t.toEntry start).1.IsSeparated text t.lead
      (t.gap :: t.codes.map Word.gap) t.duration.gap := by
  obtain ⟨hcodes, hblank, hlast⟩ := (isSplit_of_takeCodes ht.codes_fit).words.gaps
  have hseparated : Separated text (start + 1) ((t.toEntry start).1.separated t.lead
      (t.gap :: t.codes.map Word.gap) t.duration.gap) (t.endAt start) := by
    have hparts := separated_toEntry h
    rw [List.map_append] at hparts
    exact hparts
  have hdash : Stands text start ['-'] := by
    rw [chars_eq] at h
    exact Stands.left (show Stands text start (['-'] ++ t.rest) from h)
  obtain ⟨hrest, hend⟩ := hseparated.stands hdash.add_le_length
  refine ⟨?_, hseparated, ?_, ?_, ?_, fun hnil => ?_⟩
  · show _ = (locateWords _ t.codes).length + 1
    rw [length_locateWords, List.length_cons, List.length_map]
  · refine Stands.slice_of_eq (hdash.append hrest) ?_
    rw [List.length_cons]
    show t.endAt start = start + _
    omega
  · intro gap hgap
    simp only [List.mem_cons, List.mem_map] at hgap
    rcases hgap with rfl | rfl | rfl | ⟨w, hw, rfl⟩
    · exact ht.lead_blank
    · exact hblank t.duration (by simp)
    · exact ht.gap_blank
    · exact hblank w (List.mem_append_left _ hw)
  · intro gap hgap
    simp only [List.mem_cons, List.mem_map] at hgap
    rcases hgap with rfl | rfl | ⟨w, hw, rfl⟩
    · exact ht.lead_ne_nil
    · exact ht.gap_ne_nil
    · exact hcodes w hw
  · show String.ofList t.activity = ""
    rw [hlast hnil]

theorem Entry.length_parts (e : Entry) : e.parts.length = e.codes.length + 4 := by
  simp [Entry.parts]

/-- The text has the parts of a separated entry in their spans. -/
theorem Entry.IsSeparated.slice_of_mem {e : Entry} {text lead last : List Char}
    {gaps : List (List Char)} (h : e.IsSeparated text lead gaps last) {p : Located String}
    (hp : p ∈ e.parts) : p.span.slice text = p.value.toList := by
  have hall : (e.separated lead gaps last).map Prod.snd = e.parts := by
    refine List.map_snd_zip ?_
    have hgaps := h.length_gaps
    rw [e.length_parts, List.length_cons, List.length_cons, List.length_append,
      List.length_singleton]
    omega
  rw [← hall] at hp
  obtain ⟨⟨separator, q⟩, hq, rfl⟩ := List.mem_map.mp hp
  exact h.separated.slice_of_mem hq

/-! ### Lines -/

theorem Stands.slice_locate {text piece : List Char} {place : ℕ} (h : Stands text place piece) :
    (EntryText.locate place piece).span.slice text =
      (EntryText.locate place piece).value.toList := by
  show (Span.ofLength place piece.length).slice text = (String.ofList piece).toList
  rw [String.toList_ofList, h.slice]

theorem BodyLine.slice_of_mem_read {text content : List Char} {start : ℕ}
    (h : Stands text start content) {p : Located String} (hp : p ∈ (read start content).1.parts) :
    p.span.slice text = p.value.toList := by
  rcases read_cases start content with ⟨-, hread⟩ | ⟨t, rfl, ht, hread⟩ | ⟨-, -, message, hread⟩
  · rw [hread] at hp
    rw [List.mem_singleton.mp hp]
    exact h.slice_locate
  · rw [hread] at hp
    exact (ht.isSeparated h).slice_of_mem hp
  · rw [hread] at hp
    rw [List.mem_singleton.mp hp]
    exact h.slice_locate

/-! ### Fields -/

/-- A field as it was found. -/
def Field.found (f : Field) : Located String := ⟨f.value, f.span⟩

/-- Whether the date can be read or not, the value of its field is what stands there. -/
theorem Field.found_toDate (f : Field) : f.toDate.found Located.written = f.found := by
  unfold Field.toDate
  split
  · rename_i d hd
    show (⟨d.toString, f.span⟩ : Located String) = ⟨f.value, f.span⟩
    rw [Date.toString_of_parse hd]
  · rfl

theorem exists_field_of_mem_parts {fields : List Field} {span : Span} {p : Located String}
    (h : p ∈ (Block.frontMatter fields span).parts) : ∃ f ∈ fields, p = f.found := by
  have hlast : ∀ key, p ∈ ((lastField fields key).map Field.found).toList →
      ∃ f ∈ fields, p = f.found := by
    intro key hp
    obtain ⟨f, hf, rfl⟩ := Option.map_eq_some_iff.mp (Option.mem_toList.mp hp)
    exact ⟨f, mem_of_lastField hf, rfl⟩
  have hdate : (lastField fields .date).map (Recovered.found Located.written ∘ Field.toDate) =
      (lastField fields .date).map Field.found :=
    congrArg (fun g => (lastField fields .date).map g) (funext Field.found_toDate)
  simp only [FrontMatter.parts, Block.frontMatter, Option.map_map, List.mem_append] at h
  rw [hdate] at h
  rcases h with (h | h) | h
  · exact hlast _ h
  · exact hlast _ h
  · exact hlast _ h

/-- The value of a field stands behind its key, its colon and the blanks around it. -/
theorem FieldText.stands_value {text content : List Char} {start : ℕ} {t : FieldText}
    (h : Stands text start content) (ht : read content = some t) :
    Stands text (start + t.valueOffset) t.value := by
  have hplace : start + (t.key.name.toList ++ t.beforeColon).length + 1 + t.afterColon.length =
      start + t.valueOffset := by
    rw [valueOffset, List.length_append, length_toList_name]
    omega
  rw [← chars_of_read ht, chars] at h
  rw [← hplace]
  exact h.right.tail.left.right

/-! ### Documents -/

namespace Document

variable (D : Document)

theorem slice_of_mem_frontMatter {p : Located String} (hp : p ∈ D.journal.frontMatter.parts) :
    p.span.slice D.text = p.value.toList ∧
      D.blockSpan.start ≤ p.span.start ∧ p.span.stop ≤ D.blockSpan.stop := by
  obtain ⟨f, hf, rfl⟩ := exists_field_of_mem_parts hp
  obtain ⟨l, hl, hread⟩ := D.exists_line_of_field hf
  obtain ⟨t, ht, rfl⟩ := BlockLine.exists_fieldText hread
  have hmem : l ∈ D.lines := List.mem_cons_of_mem _ (List.mem_append_left _ hl)
  have hstart := D.cut.start_le l hmem
  have hstop := BlockLine.span_le hread
  have hclosing : l.stop ≤ D.closing.start :=
    (List.pairwise_append.mp (List.pairwise_cons.mp D.cut.pairwise).2).2.2 l hl D.closing
      List.mem_cons_self
  have hvalue := FieldText.stands_value (D.areLines.stands_of_mem hmem).left ht
  refine ⟨?_, ?_, ?_⟩
  · exact hvalue.slice_locate
  · show D.marked.toNat ≤ l.start + t.valueOffset
    omega
  · rw [D.blockSpan_stop, Line.stop]
    exact hstop.trans (hclosing.trans (Nat.le_add_right _ _))

theorem slice_of_mem_lines {p : Located String} {b : BodyLine} (hb : b ∈ D.journal.lines)
    (hp : p ∈ b.parts) : p.span.slice D.text = p.value.toList := by
  obtain ⟨l, hl, rfl⟩ := D.exists_line_of_mem_lines hb
  exact BodyLine.slice_of_mem_read (D.areLines_body.stands_of_mem hl).left hp

theorem exists_isSeparated {e : Entry} (he : e ∈ D.journal.entries) :
    ∃ lead gaps last, e.IsSeparated D.text lead gaps last := by
  obtain ⟨l, hl, hread⟩ := D.exists_line_of_mem he
  obtain ⟨t, ht, hchars, rfl⟩ := BodyLine.exists_entryText hread
  have hstands := (D.areLines_body.stands_of_mem hl).left
  rw [← hchars] at hstands
  exact ⟨_, _, _, ht.isSeparated hstands⟩

end Document

/-- **A journal holds what its text has.** Every part is what the text has in the span of the part.
The fields of the front matter stand inside it, and an entry is a dash and its parts, one behind the
other with blanks or a dash between them. -/
theorem ofText_quotes {text : List Char} {j : Journal}
    (h : (Reading.ofText text).journal = some j) :
    (∀ p ∈ j.parts, p.span.slice text = p.value.toList) ∧
    (∀ p ∈ j.frontMatter.parts,
      j.frontMatter.span.start ≤ p.span.start ∧ p.span.stop ≤ j.frontMatter.span.stop) ∧
    ∀ e ∈ j.entries, ∃ lead gaps last, e.IsSeparated text lead gaps last := by
  obtain ⟨D, rfl, rfl⟩ := exists_document h
  refine ⟨fun p hp => ?_, fun p hp => (D.slice_of_mem_frontMatter hp).2,
    fun e he => D.exists_isSeparated he⟩
  rcases List.mem_append.mp hp with hp | hp
  · exact (D.slice_of_mem_frontMatter hp).1
  · obtain ⟨b, hb, hpart⟩ := List.mem_flatMap.mp hp
    exact D.slice_of_mem_lines hb hpart

/-- A text with a part of every kind, junk in the place of a duration and an activity without
characters among them. -/
def quotedText : String :=
  "---\ndate:2024-01-03 \nend : 18:00\n---\n- 9:00-10:30\tAB C 1.50  read\n- 9 x\n" ++
    "- 1:0-2:0 1..5\r\n\n"

theorem ofText_quotes_quotedText : ∃ j, (Reading.ofText quotedText.toList).journal = some j ∧
    j.parts.map Located.value = ["2024-01-03", "18:00", "9:00", "10:30", "AB", "C", "1.50", "read",
      "- 9 x", "1:0", "2:0", "1..5", "", ""] ∧
    (∀ p ∈ j.parts, p.span.slice quotedText.toList = p.value.toList) ∧
    (∀ p ∈ j.frontMatter.parts,
      j.frontMatter.span.start ≤ p.span.start ∧ p.span.stop ≤ j.frontMatter.span.stop) ∧
    ∀ e ∈ j.entries, ∃ lead gaps last, e.IsSeparated quotedText.toList lead gaps last := by
  have hread : (Reading.ofText quotedText.toList).journal.map (fun j => j.parts.map Located.value) =
      some ["2024-01-03", "18:00", "9:00", "10:30", "AB", "C", "1.50", "read", "- 9 x", "1:0",
        "2:0", "1..5", "", ""] := by decide +kernel
  obtain ⟨j, hj, hparts⟩ := Option.map_eq_some_iff.mp hread
  exact ⟨j, hj, hparts, ofText_quotes hj⟩

end TimeJournal
