import TimeJournal.Proofs.Journal.Quotation

/-! # Carriage returns at the end of a line

A carriage return in front of a line feed, or at the end of a text, belongs to the ending of its
line. Of several in a row only the last one does: the others are content like any carriage return
inside a line. So what a line holds can end in a carriage return only in front of the one of its
ending.

* `AreLines.returnEnds`: a content that ends in a carriage return stands in front of another one.
* `BodyLine.tail_suffix`: the part that a line is read up to its end ends as the line does.
* `EntryText.IsEntry.codes_end`: no code reaches the end of its line.
* `ofText_returns`: which parts of a journal end in a carriage return. -/

namespace TimeJournal

open Text

/-- The text ends in a carriage return. -/
def EndsInReturn (s : List Char) : Prop := s.getLast? = some '\r'

instance (s : List Char) : Decidable (EndsInReturn s) := by
  unfold EndsInReturn; infer_instance

/-- A carriage return stands at the offset and ends a line there: a line feed follows it, or
nothing. -/
def ReturnEnds (text : List Char) (place : ℕ) : Prop :=
  text.drop place = ['\r'] ∨ ∃ rest, text.drop place = '\r' :: '\n' :: rest

theorem EndsInReturn.of_suffix {s t : List Char} (h : EndsInReturn t) (hsuffix : t <:+ s) :
    EndsInReturn s := by
  obtain ⟨front, rfl⟩ := hsuffix
  unfold EndsInReturn at *
  rw [List.getLast?_append, h, Option.some_or]

/-- A text does not end in a carriage return if none of a class of characters does. -/
theorem not_endsInReturn {s : List Char} {p : Char → Bool} (hs : ∀ c ∈ s, p c = true)
    (hp : p '\r' = false) : ¬ EndsInReturn s := by
  intro h
  have hreturn := hs '\r' (List.mem_of_getLast? h)
  rw [hp] at hreturn
  cases hreturn

/-! ### Lines -/

/-- **A content that ends in a carriage return stands in front of the one of its ending.** -/
theorem AreLines.returnEnds {text : List Char} {pos : ℕ} {ls : List Line} {l : Line}
    (h : AreLines text pos ls) (hl : l ∈ ls) (hret : EndsInReturn l.content) :
    ReturnEnds text l.stop := by
  obtain ⟨before, after, rfl⟩ := List.append_of_mem hl
  have hl := h.of_append
  obtain ⟨hstart, hwhole, hlast, -⟩ := hl.cut
  rw [← hstart] at hl
  have hdrop : text.drop l.stop = l.ending.chars ++ after.flatMap Line.chars := by
    have hchars := hl.drop_eq
    rw [List.flatMap_cons, Line.chars, List.append_assoc] at hchars
    rw [Line.stop, ← List.drop_drop, hchars, List.drop_left]
  unfold ReturnEnds
  rw [hdrop]
  cases hending : l.ending with
  | lf => exact absurd hret (hwhole.noReturn (Or.inl hending))
  | crlf => exact Or.inr ⟨_, rfl⟩
  | cr =>
    rw [hlast (by rw [hending]; trivial)]
    exact Or.inl rfl
  | eof => exact absurd hret (hwhole.noReturn (Or.inr hending))

/-- The part of a line that reaches its end: the activity of an entry, all of another line. -/
def BodyLine.tail : BodyLine → Located String
  | .entry e => e.activity
  | .other c => c
  | .junk k => k.found

theorem BodyLine.tail_suffix (start : ℕ) (content : List Char) :
    (read start content).1.tail.value.toList <:+ content := by
  rcases read_cases start content with ⟨-, hread⟩ | ⟨t, rfl, -, hread⟩ | ⟨-, -, message, hread⟩
  · rw [hread]
    show (String.ofList content).toList <:+ content
    rw [String.toList_ofList]
  · rw [hread]
    show (String.ofList t.activity).toList <:+ t.chars
    rw [String.toList_ofList, EntryText.chars_eq, EntryText.rest]
    simp only [← List.append_assoc, ← List.cons_append]
    exact List.suffix_append _ _
  · rw [hread]
    show (String.ofList content).toList <:+ content
    rw [String.toList_ofList]

/-! ### Entries -/

namespace EntryText

theorem stop_le_of_mem_locateWords {place : ℕ} {ws : List Word} {code : Located String}
    (h : code ∈ locateWords place ws) :
    code.span.stop ≤ place + (ws.flatMap Word.chars).length := by
  induction ws generalizing place with
  | nil => cases h
  | cons w ws ih =>
    rw [List.flatMap_cons, List.length_append, Word.chars, List.length_append]
    rcases List.mem_cons.mp h with rfl | h
    · show place + w.text.length ≤ _
      omega
    · have hle := ih h
      unfold Word.size at hle
      omega

variable {t : EntryText}

theorem IsEntry.isShaped (h : t.IsEntry) : Hours.isShaped t.duration.text = true :=
  (isSplit_of_takeCodes h.codes_fit).shaped

/-- **No code reaches the end of its line**: the duration stands behind it. -/
theorem IsEntry.codes_end (h : t.IsEntry) {start : ℕ} {code : Located String}
    (hcode : code ∈ (t.toEntry start).1.codes) :
    code.span.stop < (t.toEntry start).1.span.stop := by
  have hle : code.span.stop ≤ t.durationAt start := stop_le_of_mem_locateWords hcode
  have hpos := List.length_pos_iff.mpr (Hours.isShaped_iff.mp h.isShaped).1
  show code.span.stop < t.endAt start
  unfold endAt activityAt Word.size
  omega

/-- The end time of an entry does not end in a carriage return. -/
theorem IsEntry.not_endsInReturn_stop (h : t.IsEntry) : ¬ EndsInReturn t.stop := by
  obtain ⟨hour, minute, hstop, -, -, hhour, hminute⟩ := h.stop_isTime
  refine not_endsInReturn (p := fun c => c.isDigit || c == ':') (fun c hc => ?_) (by decide)
  rw [hstop, List.mem_append, List.mem_cons] at hc
  rcases hc with hc | rfl | hc
  · rw [hhour c hc, Bool.true_or]
  · decide
  · rw [hminute c hc, Bool.true_or]

/-- The literal of a duration does not end in a carriage return, be it a number or not. -/
theorem IsEntry.not_endsInReturn_duration (h : t.IsEntry) : ¬ EndsInReturn t.duration.text :=
  not_endsInReturn (Hours.isShaped_iff.mp h.isShaped).2 (by decide)

end EntryText

/-- What of an entry in front of its activity could reach the end of its line does not end in a
carriage return. -/
structure Entry.EndsInNoReturn (e : Entry) : Prop where
  stop : ¬ EndsInReturn e.stop.value.raw.toList
  codes : ∀ code ∈ e.codes, code.span.stop < e.span.stop
  duration : ¬ EndsInReturn (e.duration.found Duration.literal).value.toList

theorem EntryText.IsEntry.endsInNoReturn {t : EntryText} (h : t.IsEntry) (start : ℕ) :
    (t.toEntry start).1.EndsInNoReturn where
  stop := by
    rw [(t.hasParts_toEntry start).stop]
    exact h.not_endsInReturn_stop
  codes _ := h.codes_end
  duration := by
    have hfound : (t.toEntry start).1.duration.found Duration.literal =
        locate (t.durationAt start) t.duration.text := found_readDuration _ _
    rw [hfound, locate, String.toList_ofList]
    exact h.not_endsInReturn_duration

/-! ### Documents -/

namespace Document

variable (D : Document)

theorem returnEnds_of_mem {b : BodyLine} (hb : b ∈ D.journal.lines)
    (hret : EndsInReturn (b.span.slice D.text) ∨ EndsInReturn b.tail.value.toList) :
    ReturnEnds D.text b.span.stop := by
  obtain ⟨l, hl, rfl⟩ := D.exists_line_of_mem_lines hb
  have hslice : (BodyLine.read l.start l.content).1.span.slice D.text = l.content := by
    rw [BodyLine.span_read, (D.areLines_body.stands_of_mem hl).left.slice]
  have hcontent : EndsInReturn l.content := by
    rcases hret with hret | hret
    · rwa [hslice] at hret
    · exact hret.of_suffix (BodyLine.tail_suffix l.start l.content)
  rw [BodyLine.span_read]
  exact D.areLines_body.returnEnds hl hcontent

theorem not_endsInReturn_of_mem_frontMatter {p : Located String}
    (hp : p ∈ D.journal.frontMatter.parts) : ¬ EndsInReturn p.value.toList := by
  obtain ⟨f, hf, rfl⟩ := exists_field_of_mem_parts hp
  obtain ⟨l, -, hread⟩ := D.exists_line_of_field hf
  obtain ⟨t, ht, rfl⟩ := BlockLine.exists_fieldText hread
  show ¬ EndsInReturn (String.ofList t.value).toList
  rw [String.toList_ofList]
  intro hret
  have hspace := (FieldText.isWritten_of_read ht).value_last '\r' hret
  revert hspace
  decide

end Document

/-- **Only a carriage return in front of the one of the ending is held by a line at its end.** Where
a line of the body ends in one, or the part of it that reaches its end does, the next character is
the carriage return of the ending. The other parts of an entry do not end the line in one, nor does a
field of the front matter. -/
theorem ofText_returns {text : List Char} {j : Journal}
    (h : (Reading.ofText text).journal = some j) :
    (∀ b ∈ j.lines, EndsInReturn (b.span.slice text) ∨ EndsInReturn b.tail.value.toList →
      ReturnEnds text b.span.stop) ∧
    (∀ e ∈ j.entries, e.EndsInNoReturn) ∧
    ∀ p ∈ j.frontMatter.parts, ¬ EndsInReturn p.value.toList := by
  obtain ⟨D, rfl, rfl⟩ := exists_document h
  refine ⟨fun b hb => D.returnEnds_of_mem hb, fun e he => ?_,
    fun p hp => D.not_endsInReturn_of_mem_frontMatter hp⟩
  obtain ⟨l, -, hread⟩ := D.exists_line_of_mem he
  obtain ⟨t, ht, -, rfl⟩ := BodyLine.exists_entryText hread
  exact ht.endsInNoReturn l.start

/-- A text with carriage returns in all places: behind a field, inside a code, and two or three in a
row at the ends of its lines. -/
def returnsText : String :=
  "---\ndate: 2024-01-03 \r\r\n---\r\n- 9:00-10:00 A\r 1.00 a\r\r\n- 10:0 x\r\r\r\n\r\r"

theorem ofText_returns_returnsText : ∃ j, (Reading.ofText returnsText.toList).journal = some j ∧
    j.lines.map (fun b => b.tail.value) = ["a\r", "- 10:0 x\r\r", "\r"] ∧
    (∀ b ∈ j.lines, EndsInReturn (b.span.slice returnsText.toList) ∨
      EndsInReturn b.tail.value.toList → ReturnEnds returnsText.toList b.span.stop) ∧
    (∀ e ∈ j.entries, e.EndsInNoReturn) ∧
    ∀ p ∈ j.frontMatter.parts, ¬ EndsInReturn p.value.toList := by
  have hread : (Reading.ofText returnsText.toList).journal.map
      (fun j => j.lines.map fun b => b.tail.value) =
        some ["a\r", "- 10:0 x\r\r", "\r"] := by decide +kernel
  obtain ⟨j, hj, htails⟩ := Option.map_eq_some_iff.mp hread
  exact ⟨j, hj, htails, ofText_returns hj⟩

/-- A line that ends in two carriage returns and a line feed. -/
def doubledText : String := "---\n---\na\r\r\n"

/-- The first of two carriage returns at the end of a line is held by the line. -/
theorem endsInReturn_doubledText : ∃ j, (Reading.ofText doubledText.toList).journal = some j ∧
    ∃ b ∈ j.lines, b = .other ⟨"a\r", ⟨8, 10, by decide⟩⟩ ∧
      EndsInReturn (b.span.slice doubledText.toList) ∧ EndsInReturn b.tail.value.toList := by
  have hread : (Reading.ofText doubledText.toList).journal.map Journal.lines =
      some [.other ⟨"a\r", ⟨8, 10, by decide⟩⟩] := by decide +kernel
  obtain ⟨j, hj, hlines⟩ := Option.map_eq_some_iff.mp hread
  refine ⟨j, hj, .other ⟨"a\r", ⟨8, 10, by decide⟩⟩, ?_, rfl, by decide, by decide⟩
  rw [hlines]
  exact List.mem_singleton_self _

end TimeJournal
