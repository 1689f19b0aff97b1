import TimeJournal.Journal.Event
import TimeJournal.Text.Json

/-! # Records

An entry whose times have instants and whose duration was read becomes one flat `Record`. The
records of a journal are collected in one traversal by a `Collector`. An activity such as `plan:
review: budget` may be split: the labels in front become further codes. -/

namespace TimeJournal

/-- An exported entry. -/
structure Record where
  start : Instant
  stop : Instant
  seconds : Nat
  codes : List String
  activity : String
  deriving DecidableEq, Repr

/-- What stands between a label and what follows it. -/
def labelSeparator : List Char := [':', ' ']

/-- The texts between the separators of a text; `piece` holds the characters of the first one that
have been seen, backwards. -/
def splitLabels.go (piece : List Char) : List Char → List (List Char)
  | [] => [piece.reverse]
  | ':' :: ' ' :: r => piece.reverse :: splitLabels.go [] r
  | c :: r => splitLabels.go (c :: piece) r

/-- The labels in front of an activity, and the activity itself. -/
def splitLabels (activity : String) : List String × String :=
  let pieces := (splitLabels.go [] activity.toList).map String.ofList
  (pieces.dropLast, pieces.getLastD "")

namespace Record

/-- The name of the code column with a number. -/
def codeKey (n : Nat) : String := s!"code{n}"

/-- The codes with the names of their columns, from a number on. -/
def codeMembers (n : Nat) : List String → List (String × Text.Json)
  | [] => []
  | c :: cs => (codeKey n, .string c) :: codeMembers (n + 1) cs

/-- The members of a record: its times, the duration in seconds, the codes and the activity. -/
def members (r : Record) : List (String × Text.Json) :=
  [("start_time", .string r.start.toIso), ("end_time", .string r.stop.toIso),
    ("duration", .number r.seconds)] ++ codeMembers 1 r.codes ++ [("activity", .string r.activity)]

end Record

/-- What is known at some point of a traversal, and the records so far. -/
structure Collector where
  records : List Record
  skipped : List Nat
  reference : Option Date
  start : Option Instant
  stop : Option Instant
  seconds : Option Nat
  codes : List String
  activity : Option String
  deriving DecidableEq, Repr

namespace Collector

/-- The collector before a traversal. -/
def init : Collector := ⟨[], [], none, none, none, none, [], none⟩

/-- The instant of a time, if it has one. -/
def resolve (c : Collector) (t : Located TimeToken) : Option Instant :=
  c.reference.bind fun date => (t.value.resolve date).toOption

/-- The record of the entry that ends, its labels split off or not. -/
def record? (split : Bool) (c : Collector) : Option Record :=
  match c.start, c.stop, c.seconds, c.activity with
  | some start, some stop, some seconds, some activity =>
    let (labels, body) := if split then splitLabels activity else ([], activity)
    some ⟨start, stop, seconds, c.codes ++ labels, body⟩
  | _, _, _, _ => none

/-- Whether the entry that ends has no instants or no duration. -/
def isUnresolved (c : Collector) : Bool := c.start.isNone || c.stop.isNone || c.seconds.isNone

/-- The effect of an event. -/
def step (split : Bool) (c : Collector) : Event → Collector
  | .date d => { c with reference := some d.value }
  | .entryBegun _ =>
    { c with start := none, stop := none, seconds := none, codes := [], activity := none }
  | .start t => { c with start := c.resolve t }
  | .stop t => { c with stop := c.resolve t }
  | .code code => { c with codes := c.codes ++ [code.value] }
  | .duration d => { c with seconds := some d.seconds }
  | .activity a => { c with activity := some a.value }
  | .entryDone e =>
    if c.isUnresolved then { c with skipped := c.skipped ++ [e.span.start] }
    else { c with records := c.records ++ (c.record? split).toList }
  | _ => c

/-- The collector after a whole journal. -/
def ofJournal (j : Journal) (split : Bool) : Collector := j.events.foldl (step split) init

end Collector

/-- The records of a journal. -/
def Journal.records (j : Journal) (split : Bool) : List Record :=
  (Collector.ofJournal j split).records

end TimeJournal
