import TimeJournal.Edit.TextEdit
import TimeJournal.Hours
import TimeJournal.Journal.Event
import TimeJournal.Lint.Rule
import TimeJournal.Location.Date
import TimeJournal.Text.Quoted

/-! # Commands

A `Command` computes the edit that resolves the findings of one rule. It finds its target in one
traversal of the journal, from a selection: the first part of the right kind that the selection
meets.

* `Command.execute` gives the edit, nothing if the text is as it should be, or a `CommandFault`.
* `Command.ofRule` is the command for the findings of a rule. -/

namespace TimeJournal

/-- Why a command has no edit. -/
inductive CommandFault where
  | noDuration (selection : Span)
  | noReferenceDate
  | noEntryTimes
  | backwards (stop start : TimeToken)
  | noStartTime (selection : Span)
  | noPreviousEntry
  | noFileDate (source : Option String)
  | noDateField
  | time (fault : TimeFault)
  | uri (fault : Location.UriFault)
  deriving DecidableEq, Repr

/-- The wording of a fault. -/
def CommandFault.message : CommandFault → String
  | .noDuration s => s!"No duration at {s.start}..{s.stop}"
  | .noReferenceDate => "The front matter has no valid date to resolve times against"
  | .noEntryTimes => "The entry of the selected duration has no start or end time"
  | .backwards stop start => s!"Cannot compute a duration: {stop.raw} is before {start.raw}"
  | .noStartTime s => s!"No start time at {s.start}..{s.stop}"
  | .noPreviousEntry => "The selected entry has no previous entry"
  | .noFileDate source =>
    let name := source.getD "None"
    s!"No date in the file name of '{name}'"
  | .noDateField => "The front matter has no valid date field"
  | .time fault => fault.message
  | .uri fault => fault.message

/-! ### Targets -/

/-- The first duration that a selection meets, with the times of its entry, and the date of the
front matter. -/
structure DurationTarget where
  reference : Option Date
  entryStart : Option TimeToken
  entryStop : Option TimeToken
  found : Option (Duration × Option TimeToken × Option TimeToken)
  deriving DecidableEq, Repr

namespace DurationTarget

/-- The target before a traversal. -/
def init : DurationTarget := ⟨none, none, none, none⟩

/-- The effect of an event. -/
def step (selection : Span) (t : DurationTarget) : Event → DurationTarget
  | .date d => { t with reference := some d.value }
  | .start s => { t with entryStart := some s.value }
  | .stop s => { t with entryStop := some s.value }
  | .duration d =>
    if t.found.isNone && d.span.Meets selection then
      { t with found := some (d, t.entryStart, t.entryStop) }
    else t
  | _ => t

/-- The target in a journal. -/
def ofJournal (j : Journal) (selection : Span) : DurationTarget :=
  j.events.foldl (step selection) init

end DurationTarget

/-- The first start time that a selection meets, with the end time of the entry before it. -/
structure StartTarget where
  lastStop : Option (Located TimeToken)
  currentStop : Option (Located TimeToken)
  found : Option (Located TimeToken × Option (Located TimeToken))
  deriving DecidableEq, Repr

namespace StartTarget

/-- The target before a traversal. -/
def init : StartTarget := ⟨none, none, none⟩

/-- The effect of an event. -/
def step (selection : Span) (t : StartTarget) : Event → StartTarget
  | .start s =>
    if t.found.isNone && s.span.Meets selection then { t with found := some (s, t.lastStop) } else t
  | .stop s => { t with currentStop := some s }
  | .entryDone _ => { t with lastStop := t.currentStop, currentStop := none }
  | _ => t

/-- The target in a journal. -/
def ofJournal (j : Journal) (selection : Span) : StartTarget :=
  j.events.foldl (step selection) init

end StartTarget

/-! ### Commands -/

/-- A way to resolve findings. -/
inductive Command where
  | recalculateDuration
  | replaceWithPreviousStop
  | useFileDate
  deriving DecidableEq, Repr

/-- An identifier that names no command. -/
structure UnknownCommand where
  id : String
  deriving DecidableEq, Repr

/-- The wording of the fault. -/
def UnknownCommand.message (u : UnknownCommand) : String :=
  let shown := Text.showQuoted u.id
  s!"{shown} is not a valid AutofixCommand"

namespace Command

/-- All commands. -/
def all : List Command := [.recalculateDuration, .replaceWithPreviousStop, .useFileDate]

/-- The identifier of a command. -/
def id : Command → String
  | .recalculateDuration => "journalint.recalculateDuration"
  | .replaceWithPreviousStop => "journalint.replaceWithPreviousEndTime"
  | .useFileDate => "journalint.useDateInFilename"

/-- What a command does, for a user. -/
def title : Command → String
  | .recalculateDuration => "Recalculate duration by the interval between start and end time"
  | .replaceWithPreviousStop => "Replace with the previous entry's end time"
  | .useFileDate => "Use date embedded in the filename"

/-- The rule whose findings a command resolves. -/
def rule : Command → Rule
  | .recalculateDuration => .incorrectDuration
  | .replaceWithPreviousStop => .timeJumped
  | .useFileDate => .dateMismatch

/-- The command with an identifier. -/
def parse (text : String) : Except UnknownCommand Command :=
  match all.find? fun c => c.id == text with
  | some c => .ok c
  | none => .error ⟨text⟩

/-- The command that resolves the findings of a rule. -/
def ofRule (r : Rule) : Option Command := all.find? fun c => c.rule = r

/-- The edit that sets a text, if it differs from the one that is there. -/
def editUnless (same : Bool) (span : Span) (newText : String) : Option TextEdit :=
  if same then none else some ⟨span, newText⟩

/-- Writes the duration that an entry's times give. -/
def recalculate (j : Journal) (selection : Span) : Except CommandFault (Option TextEdit) :=
  let target := DurationTarget.ofJournal j selection
  match target.found, target.reference with
  | none, _ => .error (.noDuration selection)
  | some _, none => .error .noReferenceDate
  | some (d, some first, some last), some reference =>
    match first.resolve reference, last.resolve reference with
    | .error fault, _ => .error (.time fault)
    | .ok _, .error fault => .error (.time fault)
    | .ok a, .ok b =>
      if b.minutes < a.minutes then .error (.backwards last first)
      else
        let newText := Hours.render (60 * (b.minutes - a.minutes))
        .ok (editUnless (newText == d.raw) d.span newText)
  | some _, some _ => .error .noEntryTimes

/-- Writes the end time of the entry before as the start time of an entry. -/
def replaceStart (j : Journal) (selection : Span) : Except CommandFault (Option TextEdit) :=
  match (StartTarget.ofJournal j selection).found with
  | none => .error (.noStartTime selection)
  | some (_, none) => .error .noPreviousEntry
  | some (start, some previous) =>
    .ok (editUnless (previous.value = start.value) start.span previous.value.raw)

/-- Writes the date in the file name as the date of the front matter. -/
def replaceDate (j : Journal) (source : Option String) : Except CommandFault (Option TextEdit) :=
  match Location.date? source with
  | .error fault => .error (.uri fault)
  | .ok none => .error (.noFileDate source)
  | .ok (some expected) =>
    match j.frontMatter.date? with
    | none => .error .noDateField
    | some d => .ok (editUnless (d.value = expected) d.span expected.toString)

/-- The edit of a command at a selection of a journal; nothing if the text is as it should be. -/
def execute (c : Command) (j : Journal) (selection : Span) (source : Option String) :
    Except CommandFault (Option TextEdit) :=
  match c with
  | .recalculateDuration => recalculate j selection
  | .replaceWithPreviousStop => replaceStart j selection
  | .useFileDate => replaceDate j source

end Command

end TimeJournal
