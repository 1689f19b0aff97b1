import TimeJournal.Span
import TimeJournal.Calendar.TimeToken

/-! # Journals

A journal is a day's log: a front matter block with the date, the start and the end of the day,
followed by lines. A line is an entry, a piece of junk that begins like an entry and is none, or any
other line. Every part carries the span of the text that it was read from. -/

namespace TimeJournal

/-- A value and the span of the text that it was read from. -/
structure Located (α : Type) where
  value : α
  span : Span
  deriving DecidableEq, Repr

/-- Text that could not be read: what it is, what is wrong with it and where it stands. -/
structure Junk where
  content : String
  message : String
  span : Span
  deriving DecidableEq, Repr

/-- A part that was read, or the junk that stands in its place. -/
inductive Recovered (α : Type) where
  | read (part : α)
  | junk (junk : Junk)
  deriving DecidableEq, Repr

/-- The part, if it was read. -/
def Recovered.part? {α : Type} : Recovered α → Option α
  | .read part => some part
  | .junk _ => none

/-- The block between the two delimiter lines. The span of a field covers its value only. -/
structure FrontMatter where
  date : Option (Recovered (Located Date))
  start : Option (Located TimeToken)
  stop : Option (Located TimeToken)
  span : Span
  deriving DecidableEq, Repr

/-- A duration in decimal hours: its whole seconds and the literal. -/
structure Duration where
  seconds : Nat
  raw : String
  span : Span
  deriving DecidableEq, Repr

/-- An entry: a time range, up to two codes, a duration and an activity. That they agree is not
asked for here. -/
structure Entry where
  start : Located TimeToken
  stop : Located TimeToken
  codes : List (Located String)
  duration : Recovered Duration
  activity : Located String
  span : Span
  deriving DecidableEq, Repr

/-- A line of the body. -/
inductive BodyLine where
  | entry (entry : Entry)
  | other (content : Located String)
  | junk (junk : Junk)
  deriving DecidableEq, Repr

namespace BodyLine

/-- The span of a line. -/
def span : BodyLine → Span
  | .entry e => e.span
  | .other c => c.span
  | .junk j => j.span

/-- The entry that a line is. -/
def entry? : BodyLine → Option Entry
  | .entry e => some e
  | _ => none

/-- Whether a line is junk. -/
def isJunk : BodyLine → Bool
  | .junk _ => true
  | _ => false

end BodyLine

/-- A journal: the front matter and the lines in their order. -/
structure Journal where
  frontMatter : FrontMatter
  lines : List BodyLine
  span : Span
  deriving DecidableEq, Repr

/-- The entries of a journal. -/
def Journal.entries (j : Journal) : List Entry := j.lines.filterMap BodyLine.entry?

/-- The date of the front matter, if it has a valid one. -/
def FrontMatter.date? (f : FrontMatter) : Option (Located Date) := f.date.bind Recovered.part?

end TimeJournal
