import TimeJournal.Proofs.Edit.LineEdit
import TimeJournal.Proofs.Journal.FieldValue

/-! # Edits of a field

The value of a field of the front matter is replaced in the line of the field: `valueEdit` is this
edit.

* `FieldText.read_valueEdit`: the line is read afterwards as the old field with the other value. -/

namespace TimeJournal

open Text

/-- A character that is no white space ends no line. -/
theorem isPlain_of_isSpace {c : Char} (h : isSpace c = false) : c ≠ '\r' ∧ c ≠ '\n' := by
  constructor
  · rintro rfl; exact absurd h (by decide)
  · rintro rfl; exact absurd h (by decide)

namespace FieldText

variable {l : Line} {f : FieldText} {value : List Char}

/-- The edit that replaces the value. -/
def valueEdit (hl : l.content = f.chars) (hf : f.value ≠ []) (hne : value ≠ [])
    (hv : ∀ c ∈ value, isSpace c = false) : LineEdit l where
  front := f.key.name.toList ++ f.beforeColon ++ ':' :: f.afterColon
  old := f.value
  new := value
  back := f.trail
  content_eq := by
    rw [hl, chars]
    simp only [List.append_assoc, List.cons_append]
  old_ne_nil := hf
  new_ne_nil := hne
  new_plain c hc := isPlain_of_isSpace (hv c hc)

variable (hl : l.content = f.chars) (hf : f.value ≠ []) (hne : value ≠ [])
  (hv : ∀ c ∈ value, isSpace c = false)

theorem valueEdit_edit : (valueEdit hl hf hne hv).edit =
    ⟨Span.ofLength (l.start + f.valueOffset) f.value.length, String.ofList value⟩ := by
  have hfront : (valueEdit hl hf hne hv).front.length = f.valueOffset := by
    simp only [valueEdit, valueOffset, List.length_append, List.length_cons, length_toList_name]
    omega
  simp only [LineEdit.edit, hfront]
  rfl

theorem valueEdit_content : (valueEdit hl hf hne hv).content = (f.withValue value).chars := by
  simp only [LineEdit.content, valueEdit, withValue, chars, List.append_assoc, List.cons_append]

/-- **The line after the edit is the old field with the other value.** -/
theorem read_valueEdit (hread : read l.content = some f) :
    BlockLine.read (valueEdit hl hf hne hv).line =
      (BlockLine.field (Field.withValue ⟨f.key, String.ofList f.value,
        Span.ofLength (l.start + f.valueOffset) f.value.length, l.start⟩
          (String.ofList value))).move (valueEdit hl hf hne hv).edit.move := by
  have hline : (valueEdit hl hf hne hv).line =
      { l with content := (f.withValue value).chars } := by
    rw [LineEdit.line, valueEdit_content]
  have hspan := TextEdit.move_span (valueEdit hl hf hne hv).start_lt_stop
  rw [TextEdit.newSpan, LineEdit.length_newText] at hspan
  have hstart := (valueEdit hl hf hne hv).move_start
  rw [hline, BlockLine.read_withValue hread hne hv]
  rw [valueEdit_edit] at hspan hstart ⊢
  simp only [BlockLine.move, Field.move, Field.withValue, hspan, hstart]
  rfl

end FieldText

end TimeJournal
