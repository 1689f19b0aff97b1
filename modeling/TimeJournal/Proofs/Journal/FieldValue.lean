import TimeJournal.Journal.Block
import TimeJournal.Proofs.Calendar.Written
import TimeJournal.Proofs.Journal.Grammar

/-! # Fields

A field line is a key, a colon, a value and white space around them. `FieldText.IsWritten` says of
such parts that they are those that a line is cut into: the value neither begins with a blank nor
ends with white space. A value without any white space can stand in place of another one.

* `FieldText.read_eq_some_iff`: a line is cut into the parts of a field exactly if they make it up
  and are written so.
* `FieldText.read_withValue`: with another value the line is read as the same field with that value.
* `BlockLine.read_withValue`: the same for the line of a block. -/

namespace TimeJournal

open Text

/-! ### White space at the end -/

section

variable {value trail : List Char}

theorem head?_reverse_stop (hv : ∀ c ∈ value.getLast?, isSpace c = false) :
    ∀ c ∈ value.reverse.head?, isSpace c = false := by
  rwa [List.head?_reverse]

theorem stripEnd_append (hv : ∀ c ∈ value.getLast?, isSpace c = false)
    (ht : ∀ c ∈ trail, isSpace c = true) : stripEnd (value ++ trail) = value := by
  unfold stripEnd
  rw [List.reverse_append, dropWhile_append_stop (by simpa using ht) (head?_reverse_stop hv),
    List.reverse_reverse]

theorem trailing_append (hv : ∀ c ∈ value.getLast?, isSpace c = false)
    (ht : ∀ c ∈ trail, isSpace c = true) : trailing (value ++ trail) = trail := by
  unfold trailing
  rw [List.reverse_append, takeWhile_append_stop (by simpa using ht) (head?_reverse_stop hv),
    List.reverse_reverse]

end

/-- What is left without the white space at the end does not end with white space. -/
theorem getLast?_stripEnd (s : List Char) : ∀ c ∈ (stripEnd s).getLast?, isSpace c = false := by
  unfold stripEnd
  rw [List.getLast?_reverse]
  exact head?_dropWhile_stop isSpace s.reverse

theorem isSpace_of_mem_trailing {s : List Char} {c : Char} (h : c ∈ trailing s) :
    isSpace c = true := by
  unfold trailing at h
  exact List.mem_takeWhile_imp (List.mem_reverse.mp h)

/-! ### Fields -/

namespace FieldText

/-- No key begins another one. -/
theorem keyOf_append (key : FieldKey) (s : List Char) : keyOf (key.name.toList ++ s) = some key := by
  cases key <;> simp [keyOf, FieldKey.all, FieldKey.name]

/-- The parts are those of a field line: blanks on both sides of the colon, then a value that neither
begins with a blank nor ends with white space, then white space. -/
structure IsWritten (f : FieldText) : Prop where
  beforeColon_blank : ∀ c ∈ f.beforeColon, isBlank c = true
  afterColon_blank : ∀ c ∈ f.afterColon, isBlank c = true
  value_head : ∀ c ∈ (f.value ++ f.trail).head?, isBlank c = false
  value_last : ∀ c ∈ f.value.getLast?, isSpace c = false
  trail_space : ∀ c ∈ f.trail, isSpace c = true

theorem isWritten_of_read {s : List Char} {f : FieldText} (h : read s = some f) : f.IsWritten := by
  obtain ⟨key, -, hf⟩ := Option.bind_eq_some_iff.mp h
  unfold readAfterKey at hf
  split at hf
  · rename_i r hr
    obtain rfl := (Option.some.inj hf).symm
    refine ⟨fun c => isBlank_of_mem_takeWhile, fun c => isBlank_of_mem_takeWhile, ?_,
      getLast?_stripEnd _, fun c => isSpace_of_mem_trailing⟩
    dsimp only
    rw [stripEnd_append_trailing]
    exact head?_dropWhile_stop isBlank r
  · cases hf

theorem length_toList_name (key : FieldKey) : key.name.toList.length = key.name.length := rfl

theorem IsWritten.read {f : FieldText} (h : f.IsWritten) : read f.chars = some f := by
  have hcolon : ∀ r : List Char, ∀ c ∈ (':' :: r).head?, isBlank c = false := by
    rintro r c hc
    obtain rfl : ':' = c := by simpa using hc
    decide
  have hchars : f.chars = f.key.name.toList ++
      (f.beforeColon ++ ':' :: (f.afterColon ++ (f.value ++ f.trail))) := by
    simp only [chars, List.append_assoc]
  rw [FieldText.read, hchars, keyOf_append, Option.bind_some, ← length_toList_name, List.drop_left]
  unfold readAfterKey
  rw [takeWhile_append_stop h.beforeColon_blank (hcolon _),
    dropWhile_append_stop h.beforeColon_blank (hcolon _)]
  simp only
  rw [takeWhile_append_stop h.afterColon_blank h.value_head,
    dropWhile_append_stop h.afterColon_blank h.value_head, stripEnd_append h.value_last h.trail_space,
    trailing_append h.value_last h.trail_space]

/-- **A line is cut into the parts of a field exactly if they make it up and are written so.** -/
theorem read_eq_some_iff {s : List Char} {f : FieldText} :
    read s = some f ↔ f.chars = s ∧ f.IsWritten := by
  constructor
  · intro h
    exact ⟨chars_of_read h, isWritten_of_read h⟩
  · rintro ⟨rfl, h⟩
    exact h.read

/-- A field line with another value. -/
def withValue (f : FieldText) (value : List Char) : FieldText := { f with value := value }

theorem IsWritten.withValue {f : FieldText} (h : f.IsWritten) {value : List Char} (hne : value ≠ [])
    (hv : ∀ c ∈ value, isSpace c = false) : (f.withValue value).IsWritten where
  beforeColon_blank := h.beforeColon_blank
  afterColon_blank := h.afterColon_blank
  value_head := by
    intro c hc
    rcases value with _ | ⟨d, ds⟩
    · exact absurd rfl hne
    · obtain rfl : d = c := by simpa [FieldText.withValue] using hc
      rw [isBlank, hv d List.mem_cons_self, Bool.false_and, Bool.false_and]
  value_last c hc := hv c (List.mem_of_getLast? hc)
  trail_space := h.trail_space

/-- **Another value in a field line is read as the value of the same field.** -/
theorem read_withValue {f : FieldText} (h : f.IsWritten) {value : List Char} (hne : value ≠ [])
    (hv : ∀ c ∈ value, isSpace c = false) :
    read (f.withValue value).chars = some (f.withValue value) :=
  (h.withValue hne hv).read

end FieldText

/-- A field line is not blank and delimits nothing. -/
theorem FieldText.chars_head (f : FieldText) :
    isDelimiter f.chars = false ∧ f.chars.all isBlank = false := by
  have h : ∃ c r, f.key.name.toList = c :: r ∧ c ≠ '-' ∧ isBlank c = false := by
    cases f.key with
    | date => exact ⟨'d', ['a', 't', 'e'], by decide, by decide, by decide⟩
    | start => exact ⟨'s', ['t', 'a', 'r', 't'], by decide, by decide, by decide⟩
    | stop => exact ⟨'e', ['n', 'd'], by decide, by decide, by decide⟩
  obtain ⟨c, r, hname, hc, hb⟩ := h
  rw [chars, hname]
  constructor
  · simp [isDelimiter, hc]
  · simp [hb]

/-- **A line with another value is the same field with that value.** -/
theorem BlockLine.read_withValue {l : Line} {f : FieldText} (h : FieldText.read l.content = some f)
    {value : List Char} (hne : value ≠ []) (hv : ∀ c ∈ value, isSpace c = false) :
    BlockLine.read { l with content := (f.withValue value).chars } =
      .field ⟨f.key, String.ofList value, Span.ofLength (l.start + f.valueOffset) value.length,
        l.start⟩ := by
  have hread := FieldText.read_withValue (FieldText.isWritten_of_read h) hne hv
  have hblank := (f.withValue value).chars_head.2
  unfold BlockLine.read
  dsimp only
  rw [if_neg (by rw [hblank]; decide), hread]
  rfl

theorem BlockLine.exists_fieldText {l : Line} {f : Field} (h : BlockLine.read l = .field f) :
    ∃ t, FieldText.read l.content = some t ∧ f = ⟨t.key, String.ofList t.value,
      Span.ofLength (l.start + t.valueOffset) t.value.length, l.start⟩ := by
  unfold BlockLine.read at h
  split at h
  · cases h
  · split at h
    · rename_i t ht
      exact ⟨t, ht, (BlockLine.field.inj h).symm⟩
    · cases h

theorem BlockLine.field?_eq_some_iff {l : BlockLine} {f : Field} :
    l.field? = some f ↔ l = .field f := by
  cases l with
  | blank => simp [BlockLine.field?]
  | field g => simp [BlockLine.field?]
  | unexpected s => simp [BlockLine.field?]

/-! ### Dates -/

/-- A field with another value. -/
def Field.withValue (f : Field) (value : String) : Field := { f with value := value }

theorem Field.toDate_of_parse {f : Field} {d : Date} (h : Date.parse f.value = .ok d) :
    f.toDate = .read ⟨d, f.span⟩ := by
  rw [Field.toDate, h]

theorem Field.parse_of_toDate {f : Field} {d : Located Date} (h : f.toDate = .read d) :
    Date.parse f.value = .ok d.value ∧ d.span = f.span := by
  unfold Field.toDate at h
  split at h
  · rename_i a ha
    rw [← Recovered.read.inj h]
    exact ⟨ha, rfl⟩
  · cases h

/-! ### The last field with a key -/

theorem lastField_append {fields fields' : List Field} {f : Field} {key : FieldKey}
    (hf : f.key = key) (hlast : ∀ g ∈ fields', g.key ≠ key) :
    lastField (fields ++ f :: fields') key = some f := by
  have hnil : fields'.filter (fun g => decide (g.key = key)) = [] :=
    List.filter_eq_nil_iff.mpr (by simpa using hlast)
  rw [lastField, List.filter_append, List.filter_cons_of_pos (by simpa using hf), hnil]
  simp

theorem lastField_other {fields fields' : List Field} {f g : Field} {key : FieldKey}
    (hf : f.key ≠ key) (hg : g.key ≠ key) :
    lastField (fields ++ f :: fields') key = lastField (fields ++ g :: fields') key := by
  rw [lastField, lastField, List.filter_append, List.filter_append,
    List.filter_cons_of_neg (by simpa using hf), List.filter_cons_of_neg (by simpa using hg)]

theorem mem_of_lastField {fields : List Field} {f : Field} {key : FieldKey}
    (h : lastField fields key = some f) : f ∈ fields :=
  List.mem_of_mem_filter (List.mem_of_getLast? h)

/-- The last field with a key is followed by fields with other keys. -/
theorem exists_lastField {fields : List Field} {f : Field} {key : FieldKey}
    (h : lastField fields key = some f) : ∃ before after, fields = before ++ f :: after ∧
      f.key = key ∧ ∀ g ∈ after, g.key ≠ key := by
  obtain ⟨front, hfront⟩ := List.getLast?_eq_some_iff.mp h
  obtain ⟨before, rest, rfl, -, hrest⟩ := List.filter_eq_append_iff.mp hfront
  obtain ⟨skipped, after, rfl, hskipped, hf, hafter⟩ := List.filter_eq_cons_iff.mp hrest
  refine ⟨before ++ skipped, after, by rw [List.append_assoc], by simpa using hf, ?_⟩
  simpa using List.filter_eq_nil_iff.mp hafter

end TimeJournal
