import TimeJournal.Journal.Node

/-! # Traversing a journal

`Journal.events` lists what a traversal comes across, in the order of the text: the fields of the
front matter that are present and well formed, the end of the front matter, then for each entry its
beginning, its parts and its end, and at last the end of the journal. Junk and other lines do not
show.

A `Visitor` reacts to events with a state of its own and may fail; `walk` runs it over the events of
a journal and stops at the first failure, with the state that the failure left behind. -/

namespace TimeJournal

/-- What a traversal comes across. -/
inductive Event where
  | date (part : Located Date)
  | dayStart (part : Located TimeToken)
  | dayStop (part : Located TimeToken)
  | frontMatterDone (part : FrontMatter)
  | entryBegun (part : Entry)
  | start (part : Located TimeToken)
  | stop (part : Located TimeToken)
  | code (part : Located String)
  | duration (part : Duration)
  | activity (part : Located String)
  | entryDone (part : Entry)
  | journalDone (part : Journal)
  deriving DecidableEq, Repr

/-- The span of the part that an event is about. -/
def Event.span : Event → Span
  | .date p => p.span
  | .dayStart p => p.span
  | .dayStop p => p.span
  | .frontMatterDone p => p.span
  | .entryBegun p => p.span
  | .start p => p.span
  | .stop p => p.span
  | .code p => p.span
  | .duration p => p.span
  | .activity p => p.span
  | .entryDone p => p.span
  | .journalDone p => p.span

/-- The events of the front matter. -/
def FrontMatter.events (f : FrontMatter) : List Event :=
  (f.date?.map Event.date).toList ++ (f.start.map Event.dayStart).toList ++
    (f.stop.map Event.dayStop).toList ++ [.frontMatterDone f]

/-- The events of an entry. -/
def Entry.events (e : Entry) : List Event :=
  [.entryBegun e, .start e.start, .stop e.stop] ++ e.codes.map Event.code ++
    (e.duration.part?.map Event.duration).toList ++ [.activity e.activity, .entryDone e]

/-- The events of a journal. -/
def Journal.events (j : Journal) : List Event :=
  j.frontMatter.events ++ j.entries.flatMap Entry.events ++ [.journalDone j]

/-- Reacts to an event with a state `σ`; a failure `ε` keeps the state that it came with. -/
abbrev Visitor (ε σ : Type) := Event → EStateM ε σ Unit

/-- Runs a visitor over the events of a journal up to its first failure. -/
def Journal.walk {ε σ : Type} (j : Journal) (visit : Visitor ε σ) : EStateM ε σ Unit :=
  j.events.forM visit

end TimeJournal
