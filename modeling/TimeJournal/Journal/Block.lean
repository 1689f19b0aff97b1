import TimeJournal.Journal.Fault
import TimeJournal.Journal.Node
import TimeJournal.Text.Blank
import TimeJournal.Text.Line

/-! # The front matter block

The front matter stands between two delimiter lines of three or more dashes. Each line of the block
is a field, blank, or a fault.

* `FieldText.read` cuts a field line into its parts, and loses none (`FieldText.chars_of_read`).
* `Block.ofLines` finds the block among the lines of a text. Of several fields with one key the last
  one counts, and a date that is none is junk. -/

namespace TimeJournal

open Text

/-- Whether a line delimits the front matter: three or more dashes, then only blanks. -/
def isDelimiter (content : List Char) : Bool :=
  3 ≤ (content.takeWhile (· == '-')).length && (content.dropWhile (· == '-')).all isBlank

/-- The parts of a field line: the key, the blanks around the colon, the value and the white space
at the end. -/
structure FieldText where
  key : FieldKey
  beforeColon : List Char
  afterColon : List Char
  value : List Char
  trail : List Char
  deriving DecidableEq, Repr

namespace FieldText

/-- The characters of a field line. -/
def chars (f : FieldText) : List Char :=
  f.key.name.toList ++ f.beforeColon ++ ':' :: (f.afterColon ++ f.value ++ f.trail)

/-- The number of characters in front of the value. -/
def valueOffset (f : FieldText) : Nat :=
  f.key.name.length + f.beforeColon.length + 1 + f.afterColon.length

/-- The field line of a key, from what follows the key. -/
def readAfterKey (key : FieldKey) (s : List Char) : Option FieldText :=
  match s.dropWhile isBlank with
  | ':' :: r =>
    let rest := r.dropWhile isBlank
    some ⟨key, s.takeWhile isBlank, r.takeWhile isBlank, stripEnd rest, trailing rest⟩
  | _ => none

/-- The key that a line begins with. -/
def keyOf (s : List Char) : Option FieldKey :=
  FieldKey.all.find? fun key => key.name.toList.isPrefixOf s

/-- The parts of a field line. -/
def read (s : List Char) : Option FieldText :=
  (keyOf s).bind fun key => readAfterKey key (s.drop key.name.length)

/-- Cutting a field line into its parts loses nothing. -/
theorem chars_of_read {s : List Char} {f : FieldText} (h : read s = some f) : f.chars = s := by
  obtain ⟨key, hkey, hf⟩ := Option.bind_eq_some_iff.mp h
  have hfound : key.name.toList.isPrefixOf s = true :=
    List.find?_some (p := fun key : FieldKey => key.name.toList.isPrefixOf s) hkey
  have hs : key.name.toList ++ s.drop key.name.length = s := by
    rw [← String.length_toList]
    exact List.prefix_iff_eq_append.mp (List.isPrefixOf_iff_prefix.mp hfound)
  simp only [readAfterKey] at hf
  split at hf
  · rename_i r hr
    obtain rfl := (Option.some.inj hf).symm
    simp only [chars, List.append_assoc, stripEnd_append_trailing, List.takeWhile_append_dropWhile]
    rw [← hr, List.takeWhile_append_dropWhile, hs]
  · cases hf

end FieldText

/-- A field: its key, its value and the offset of its line. The span covers the value only. -/
structure Field where
  key : FieldKey
  value : String
  span : Span
  line : Nat
  deriving DecidableEq, Repr

/-- What a line of the block is. -/
inductive BlockLine where
  | blank
  | field (field : Field)
  | unexpected (span : Span)
  deriving DecidableEq, Repr

namespace BlockLine

/-- What a line of the block is. -/
def read (l : Line) : BlockLine :=
  if l.content.all isBlank then .blank
  else
    match FieldText.read l.content with
    | some f =>
      let span := Span.ofLength (l.start + f.valueOffset) f.value.length
      .field ⟨f.key, String.ofList f.value, span, l.start⟩
    | none => .unexpected (Span.ofLength l.start l.content.length)

/-- The field that a line is. -/
def field? : BlockLine → Option Field
  | .field f => some f
  | _ => none

end BlockLine

/-- The date of a date field, or junk. -/
def Field.toDate (f : Field) : Recovered (Located Date) :=
  match Date.parse f.value with
  | .ok d => .read ⟨d, f.span⟩
  | .error fault => .junk ⟨f.value, (ParseCause.badDate fault).message, f.span⟩

/-- The time of a time field. -/
def Field.toTime (f : Field) : Located TimeToken := ⟨⟨f.value⟩, f.span⟩

/-- The fault of a line of the block. -/
def BlockLine.fault? : BlockLine → Option ParseFault
  | .blank => none
  | .field f =>
    if f.key = .date then
      match Date.parse f.value with
      | .ok _ => none
      | .error fault => some ⟨.badDate fault, f.span⟩
    else none
  | .unexpected span => some ⟨.unexpectedFrontMatterLine, span⟩

/-- The last field with a key. -/
def lastField (fields : List Field) (key : FieldKey) : Option Field :=
  (fields.filter fun f => f.key = key).getLast?

/-- The fields whose key an earlier field has. -/
def repeatedFields (seen : List FieldKey) : List Field → List Field
  | [] => []
  | f :: fs =>
    if seen.contains f.key then f :: repeatedFields seen fs else repeatedFields (f.key :: seen) fs

/-- A front matter block: the front matter and the lines after it, or why there is none; the fields
and the faults of the lines of the block. -/
structure Block where
  outcome : Except ParseFault (FrontMatter × Line × List Line)
  fields : List Field
  faults : List ParseFault
  deriving Repr

namespace Block

/-- The front matter of some fields. -/
def frontMatter (fields : List Field) (span : Span) : FrontMatter where
  date := (lastField fields .date).map Field.toDate
  start := (lastField fields .start).map Field.toTime
  stop := (lastField fields .stop).map Field.toTime
  span := span

/-- The block at the front of the lines of a text, which begin at `start` and end at `stop`. -/
def ofLines (start stop : Nat) : List Line → Block
  | [] => ⟨.error ⟨.noOpeningDelimiter, Span.ofLength start 0⟩, [], []⟩
  | opening :: rest =>
    if isDelimiter opening.content then
      let inner := (rest.takeWhile fun l => !isDelimiter l.content).map BlockLine.read
      let fields := inner.filterMap BlockLine.field?
      let faults := inner.filterMap BlockLine.fault?
      match rest.dropWhile fun l => !isDelimiter l.content with
      | closing :: body =>
        let span := Span.ofLength start (closing.stop - start)
        ⟨.ok (frontMatter fields span, closing, body), fields, faults⟩
      | [] =>
        ⟨.error ⟨.unterminatedFrontMatter, Span.ofLength start (stop - start)⟩, fields, faults⟩
    else ⟨.error ⟨.noOpeningDelimiter, Span.ofLength start opening.content.length⟩, [], []⟩

end Block

end TimeJournal
