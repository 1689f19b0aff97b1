import TimeJournal.Journal.Event
import TimeJournal.Lint.Finding

/-! # The state of a check

A journal is checked in one traversal: each event changes the `State`, and each rule is looked at
where all that it depends on is known. `State.apply` is the effect of one event, `State.visit`
refuses an entry that begins while another one is open. -/

namespace TimeJournal.Lint

/-- What a journal is checked against: the document's identifier, the date in its file name and the
largest accepted difference between a written duration and the time range, in seconds. -/
structure Settings where
  uri : String
  fileDate : Option Date
  tolerance : Int
  deriving DecidableEq, Repr

/-- Half of the hundredth of an hour that the last decimal of a duration stands for, in seconds. -/
def defaultTolerance : Int := 18

/-- A time with its instant. -/
structure Resolved where
  instant : Instant
  token : TimeToken
  span : Span
  deriving DecidableEq, Repr

/-- What is known at some point of the traversal, and the findings so far, the newest first. -/
structure State where
  reference : Option Date
  dayStart : Option (Located TimeToken)
  dayStop : Option (Located TimeToken)
  dayStopInstant : Option Instant
  seenFirstStart : Bool
  currentStart : Option Resolved
  currentStop : Option Resolved
  previousStop : Option Resolved
  inEntry : Bool
  noted : List Finding
  deriving DecidableEq, Repr

/-- An entry began while another one was open. -/
structure OpenEntry where
  start : Nat
  deriving DecidableEq, Repr

/-- The wording of the failure. -/
def OpenEntry.message (o : OpenEntry) : String :=
  s!"Entry at {o.start} visited while another entry is open"

/-- The resolution of a time against a date, and the finding if it has none. Without a date there is
neither. -/
def resolve (reference : Option Date) (t : Located TimeToken) (issue : TimeFault → Issue) :
    Option Resolved × List Finding :=
  match reference with
  | none => (none, [])
  | some date =>
    match t.value.resolve date with
    | .ok instant => (some ⟨instant, t.value, t.span⟩, [])
    | .error fault => (none, [⟨t.span, issue fault⟩])

namespace State

/-- The state before a traversal. -/
def init : State where
  reference := none
  dayStart := none
  dayStop := none
  dayStopInstant := none
  seenFirstStart := false
  currentStart := none
  currentStop := none
  previousStop := none
  inEntry := false
  noted := []

/-- The findings so far. -/
def findings (s : State) : List Finding := s.noted.reverse

/-- Adds findings. -/
def report (s : State) (found : List Finding) : State :=
  match found with
  | [] => s
  | f :: fs => { s with noted := (f :: fs).reverse ++ s.noted }

theorem report_eq (s : State) (found : List Finding) :
    s.report found = { s with noted := found.reverse ++ s.noted } := by
  cases found <;> simp [report]

/-- Findings are added after those that are there. -/
@[simp] theorem findings_report (s : State) (found : List Finding) :
    (s.report found).findings = s.findings ++ found := by
  simp [report_eq, findings]

/-! ### Rules -/

/-- The date differs from the one in the file name. -/
def checkDate (settings : Settings) (d : Located Date) : List Finding :=
  match settings.fileDate with
  | some expected => if expected = d.value then [] else [⟨d.span, .dateMismatch expected⟩]
  | none => []

/-- Fields that the front matter lacks. -/
def checkMissing (f : FrontMatter) : List Finding :=
  (if f.date.isNone then [⟨f.span, .missing .date⟩] else []) ++
    (if f.start.isNone then [⟨f.span, .missing .start⟩] else []) ++
    (if f.stop.isNone then [⟨f.span, .missing .stop⟩] else [])

/-- The day starts at another time than the first entry. -/
def checkFirstStart (s : State) (t : Located TimeToken) : List Finding :=
  match s.dayStart with
  | some expected =>
    if !s.seenFirstStart && expected.value ≠ t.value then [⟨expected.span, .startMismatch t.value⟩]
    else []
  | none => []

/-- An entry does not start where the previous one stopped. -/
def checkJump (settings : Settings) (previous : Option Resolved) (current : Option Resolved) :
    List Finding :=
  match previous, current with
  | some p, some c =>
    if p.instant = c.instant then [] else [⟨c.span, .timeJumped p.token settings.uri p.span⟩]
  | _, _ => []

/-- An entry stops before it starts. -/
def checkOrder (start stop : Option Resolved) : List Finding :=
  match start, stop with
  | some a, some b =>
    if b.instant.minutes < a.instant.minutes then [⟨b.span, .negativeRange a.token⟩] else []
  | _, _ => []

/-- The duration of an entry that does not stop before it starts is off by more than the
tolerance. -/
def checkDuration (settings : Settings) (start stop : Option Resolved) (d : Duration) :
    List Finding :=
  match start, stop with
  | some a, some b =>
    if b.instant.minutes < a.instant.minutes then []
    else
      let actual := 60 * (b.instant.minutes - a.instant.minutes)
      if settings.tolerance < ((d.seconds : Int) - actual).natAbs then
        [⟨d.span, .incorrectDuration actual⟩]
      else []
  | _, _ => []

/-- The day stops at another time than the last entry. -/
def checkLastStop (settings : Settings) (s : State) : List Finding :=
  match s.dayStop, s.dayStopInstant, s.previousStop with
  | some expected, some instant, some last =>
    if instant = last.instant then []
    else [⟨expected.span, .stopMismatch last.token settings.uri last.span⟩]
  | _, _, _ => []

/-! ### Events -/

/-- The end of the front matter: its times are resolved, then missing fields are reported. -/
def leaveFrontMatter (s : State) (f : FrontMatter) : State :=
  let s :=
    match s.dayStart with
    | some t => s.report (resolve s.reference t .invalidStart).2
    | none => s
  let s :=
    match s.dayStop with
    | some t =>
      let (resolved, found) := resolve s.reference t .invalidStop
      { s.report found with dayStopInstant := resolved.map Resolved.instant }
    | none => s
  s.report (checkMissing f)

/-- The start of an entry. -/
def visitStart (settings : Settings) (s : State) (t : Located TimeToken) : State :=
  let (resolved, found) := resolve s.reference t .invalidStart
  let s' := s.report (found ++ s.checkFirstStart t ++ checkJump settings s.previousStop resolved)
  { s' with currentStart := resolved, seenFirstStart := true }

/-- The stop of an entry. -/
def visitStop (s : State) (t : Located TimeToken) : State :=
  let (resolved, found) := resolve s.reference t .invalidStop
  { s.report found with currentStop := resolved }

/-- The effect of an event. -/
def apply (settings : Settings) (s : State) : Event → State
  | .date d => { s.report (checkDate settings d) with reference := some d.value }
  | .dayStart t => { s with dayStart := some t }
  | .dayStop t => { s with dayStop := some t }
  | .frontMatterDone f => s.leaveFrontMatter f
  | .entryBegun _ => { s with inEntry := true }
  | .start t => s.visitStart settings t
  | .stop t => s.visitStop t
  | .code _ => s
  | .duration d =>
    s.report (checkOrder s.currentStart s.currentStop ++
      checkDuration settings s.currentStart s.currentStop d)
  | .activity _ => s
  | .entryDone _ =>
    { s with
      previousStop := s.currentStop
      currentStart := none
      currentStop := none
      inEntry := false }
  | .journalDone _ => s.report (checkLastStop settings s)

/-- The effect of an event, unless it is the beginning of an entry inside another one. -/
def visit (settings : Settings) (s : State) (event : Event) : Except OpenEntry State :=
  match event with
  | .entryBegun e => if s.inEntry then .error ⟨e.span.start⟩ else .ok (s.apply settings event)
  | _ => .ok (s.apply settings event)

end State

/-- Visits an event; a refused one leaves the state as it is. -/
def visitor (settings : Settings) : Visitor OpenEntry State := fun event s =>
  match s.visit settings event with
  | .ok s' => .ok () s'
  | .error failure => .error failure s

end TimeJournal.Lint
