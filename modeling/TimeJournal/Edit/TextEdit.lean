import TimeJournal.Span

/-! # Text edits

A `TextEdit` puts a new text in place of a span. -/

namespace TimeJournal

/-- The replacement of a span of a text. -/
structure TextEdit where
  span : Span
  newText : String
  deriving DecidableEq, Repr

namespace TextEdit

/-- The span of an edit ends outside a text. -/
structure Fault where
  span : Span
  size : Nat
  deriving DecidableEq, Repr

/-- The wording of a fault. -/
def Fault.message (f : Fault) : String :=
  s!"Edit span {f.span.start}..{f.span.stop} exceeds text length {f.size}"

/-- The characters of a text with those of a span replaced. -/
def splice (s : Span) (new text : List Char) : List Char :=
  text.take s.start ++ new ++ text.drop s.stop

/-- The text with the span replaced. -/
def apply (e : TextEdit) (text : String) : Except Fault String :=
  if text.length < e.span.stop then .error ⟨e.span, text.length⟩
  else .ok (String.ofList (splice e.span e.newText.toList text.toList))

end TextEdit

end TimeJournal
