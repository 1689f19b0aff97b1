import TimeJournal.Edit.Fix
import TimeJournal.Export.Format

/-! # The log

What is noted during a run, as lines of a level, the part of the tool that made the note, and the
note. The verbosity decides from which level on lines are written. -/

namespace TimeJournal.CommandLine

/-- How important a line is. -/
inductive LogLevel where
  | debug
  | info
  | warning
  deriving DecidableEq, Repr

namespace LogLevel

/-- The word for a level. -/
def name : LogLevel → String
  | .debug => "DEBUG"
  | .info => "INFO"
  | .warning => "WARNING"

/-- The rank of a level. -/
def rank : LogLevel → Nat
  | .debug => 0
  | .info => 1
  | .warning => 2

/-- The lowest level that is written at a verbosity. -/
def ofVerbosity (verbosity : Nat) : LogLevel :=
  match verbosity with
  | 0 => .warning
  | 1 => .info
  | _ => .debug

end LogLevel

/-- What is noted during a run. -/
inductive LogNote where
  | fix (note : FixNote)
  | applied (count : Nat) (file : String)
  | skipped (entry : Nat)
  | exported (count : Nat) (format : ExportFormat)
  deriving DecidableEq, Repr

namespace LogNote

/-- The level of a note. -/
def level : LogNote → LogLevel
  | .fix (.applying ..) => .info
  | .fix (.stopped _) => .warning
  | .applied .. => .info
  | _ => .debug

/-- The part of the tool that makes a note. -/
def part : LogNote → String
  | .fix (.reading (.repeatedField ..)) => "journalint.syntax.parser.rules"
  | .fix (.reading (.malformedEntry ..)) => "journalint.syntax.parser.rules"
  | .fix (.reading _) => "journalint.syntax.parser.core"
  | .fix (.finding _) => "journalint.lint.linter"
  | .fix _ => "journalint.fix"
  | .applied .. => "journalint.cli"
  | .skipped _ => "journalint.export"
  | .exported .. => "journalint.export"

/-- The wording of a note. -/
def message : LogNote → String
  | .fix (.reading (.repeatedField key line)) =>
    s!"Front matter field '{key.name}' repeated at offset {line}; last one wins"
  | .fix (.reading (.malformedEntry line cause)) =>
    s!"Malformed entry at offset {line}: {cause.message}"
  | .fix (.reading (.noJournal cause)) => s!"No journal produced: {cause.message}"
  | .fix (.reading (.journal lines entries faults)) =>
    s!"Parsed journal: {lines} line(s), {entries} entries, {faults} error(s)"
  | .fix (.finding f) => s!"{f.rule.id} at {f.span.start}..{f.span.stop}: {f.message}"
  | .fix (.applying command rule span) =>
    s!"Applying {command.id} to {rule.id} at {span.start}..{span.stop}"
  | .fix (.stopped rounds) => s!"Stopped auto-fix after {rounds} rounds"
  | .applied count file => s!"Applied {count} fix(es) to {file}"
  | .skipped entry => s!"Skipping unresolvable entry at {entry}"
  | .exported count format => s!"Exported {count} record(s) as {format.name}"

/-- The line of a note. -/
def line (n : LogNote) : String := s!"{n.level.name} {n.part}: {n.message}\n"

end LogNote

/-- The lines of the notes that are written at a verbosity. -/
def logText (verbosity : Nat) (notes : List LogNote) : String :=
  let least := (LogLevel.ofVerbosity verbosity).rank
  String.join ((notes.filter fun n => least ≤ n.level.rank).map LogNote.line)

end TimeJournal.CommandLine
