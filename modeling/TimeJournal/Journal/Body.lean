import TimeJournal.Journal.EntryText

/-! # Lines of the body

`BodyLine.read` classifies the content of a line. A line that begins with a dash, blanks and a digit
is an entry or junk; every other line is kept as it is. A line has at most one fault: what makes it
junk, or the duration literal of an entry that is no number. -/

namespace TimeJournal

open Text

/-- Whether a line looks like an entry: a dash, one or more blanks and a digit. -/
def looksLikeEntry : List Char → Bool
  | '-' :: c :: r =>
    isBlank c &&
      match r.dropWhile isBlank with
      | d :: _ => d.isDigit
      | [] => false
  | _ => false

namespace BodyLine

/-- The line with this content that begins at an offset, and its fault. -/
def read (start : Nat) (content : List Char) : BodyLine × Option ParseFault :=
  if looksLikeEntry content then
    match EntryText.readAfterDash start (content.drop 1) with
    | .ok t =>
      let (item, fault) := t.toEntry start
      (.entry item, fault)
    | .error fault =>
      let span := Span.ofLength start content.length
      (.junk ⟨String.ofList content, fault.describe, span⟩, some fault)
  else (.other (EntryText.locate start content), none)

end BodyLine

end TimeJournal
