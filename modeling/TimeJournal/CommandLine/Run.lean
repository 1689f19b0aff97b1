import TimeJournal.CommandLine.Log
import TimeJournal.CommandLine.Options
import TimeJournal.Location.Path
import TimeJournal.Text.Quoted
import TimeJournal.Text.Utf8

/-! # Running the command line

A run takes the options, the state of the file that they name and the `Console` that it writes to,
and gives an `Outcome`: the exit code, what is written to either stream, and the new text of the
file if it is rewritten. The exit codes are those of `sysexits.h`: 0 if nothing was found, 1 if
something was, 64 for a wrong command line, 66 for a missing file, 70 for a fix that failed, and 74
for a file that cannot be read. -/

namespace TimeJournal.CommandLine

open Location Text

/-- What the path of a file leads to. -/
inductive FileState where
  | missing
  | directory
  | notDirectory
  | nameTooLong
  | content (bytes : ByteArray)

/-- Where a run writes to: whether either stream is a terminal, and whether the environment asks for
no color. -/
structure Console where
  stdoutIsTerminal : Bool
  stderrIsTerminal : Bool
  noColor : Bool
  deriving DecidableEq, Repr

/-- What a run leaves behind. -/
structure Outcome where
  exit : Nat
  stdout : String
  stderr : String
  rewritten : Option String
  deriving DecidableEq, Repr

/-- What a run leaves a file in that it found in some state. -/
def Outcome.leaves (outcome : Outcome) (state : FileState) : FileState :=
  match outcome.rewritten with
  | some text => .content text.toUTF8
  | none => state

/-! ### Reading the file -/

/-- Every carriage return, with the line feed after it if there is one, as one line feed; `done`
holds what comes before, backwards. -/
def unifyEndings.go (done : List Char) : List Char → List Char
  | [] => done.reverse
  | '\r' :: '\n' :: r => unifyEndings.go ('\n' :: done) r
  | '\r' :: r => unifyEndings.go ('\n' :: done) r
  | c :: r => unifyEndings.go (c :: done) r

/-- A text with every line ending as a line feed. -/
def unifyEndings (text : String) : String :=
  if text.contains '\r' then String.ofList (unifyEndings.go [] text.toList) else text

/-- Why a file cannot be read. -/
inductive ReadFault where
  | missing
  | directory
  | notDirectory
  | nameTooLong
  | encoding (fault : Utf8.Fault)
  deriving DecidableEq, Repr

/-- The wording of an encoding fault. -/
def encodingMessage (f : Utf8.Fault) : String :=
  if f.length = 1 then
    let byte := String.ofList (hexText 2 f.byte.toNat)
    s!"'utf-8' codec can't decode byte 0x{byte} in position {f.start}: {f.reason.message}"
  else
    let last := f.start + f.length - 1
    s!"'utf-8' codec can't decode bytes in position {f.start}-{last}: {f.reason.message}"

/-- The wording of a fault in reading the file with this name. -/
def ReadFault.message (name : String) : ReadFault → String
  | .missing => s!"{name}: No such file"
  | .directory =>
    let shown := showQuoted name
    s!"failed to read {name}: [Errno 21] Is a directory: {shown}"
  | .notDirectory =>
    let shown := showQuoted name
    s!"failed to read {name}: [Errno 20] Not a directory: {shown}"
  | .nameTooLong =>
    let shown := showQuoted name
    s!"failed to read {name}: [Errno 36] File name too long: {shown}"
  | .encoding fault =>
    let reason := encodingMessage fault
    s!"failed to read {name}: {reason}"

/-- The exit code for a fault in reading the file. -/
def ReadFault.exit : ReadFault → Nat
  | .missing => 66
  | _ => 74

/-- The text of a file. -/
def FileState.text : FileState → Except ReadFault String
  | .missing => .error .missing
  | .directory => .error .directory
  | .notDirectory => .error .notDirectory
  | .nameTooLong => .error .nameTooLong
  | .content bytes =>
    match String.fromUTF8? bytes with
    | some text => .ok (unifyEndings text)
    | none =>
      match Utf8.decode bytes.toList with
      | .ok chars => .ok (unifyEndings (String.ofList chars))
      | .error fault => .error (.encoding fault)

/-! ### Stages of a run -/

/-- A line that the tool writes about itself. -/
def complaint (message : String) : String := s!"journalint: {message}\n"

/-- What is known of a fixed file: its text, the new text if it is rewritten, and the notes. -/
structure Fixed where
  text : String
  rewritten : Option String
  notes : List LogNote
  deriving DecidableEq, Repr

/-- The exit code for a fault in fixing, and its wording. -/
def fixFailure (name : String) : FixFault → Nat × String
  | .command (.uri fault) => (74, s!"{name}: {fault.message}")
  | .command fault => (70, s!"auto-fix failed: {fault.message}")
  | .check fault => (74, s!"{name}: {fault.message}")
  | .edit fault => (74, s!"{name}: {fault.message}")

/-- Fixes the text of a file, if that is asked for; a fault comes with the notes up to it. -/
def fixStage (o : Options) (name text : String) : Except (List LogNote × Nat × String) Fixed :=
  if o.fix then
    match TimeJournal.fix text (some name) defaultRounds with
    | (notes, .error fault) => .error (notes.map LogNote.fix, fixFailure name fault)
    | (notes, .ok (fixed, count)) =>
      if count = 0 then .ok ⟨fixed, none, notes.map LogNote.fix⟩
      else .ok ⟨fixed, some fixed, notes.map LogNote.fix ++ [.applied count name]⟩
  else .ok ⟨text, none, []⟩

/-- The findings of some rules, or all of them if no rule is named. -/
def selected (rules : List Rule) (fs : List Finding) : List Finding :=
  if rules.isEmpty then fs else fs.filter fun f => rules.contains f.rule

/-- Findings as a report that ends in a line feed; nothing if there are none. -/
def reportText (r : Report) (ix : LineIndex) (fs : List Finding) : String :=
  if fs.isEmpty then "" else r.render ix fs ++ "\n"

/-- The notes on an export. -/
def exportNotes (j : Journal) (format : ExportFormat) (split : Bool) (count : Nat) : List LogNote :=
  (Collector.ofJournal j split).skipped.map LogNote.skipped ++ [.exported count format]

/-- The end of a run: what was found is reported, and the entries are exported if that is asked for.
An export takes the standard output, so the report moves to the other stream. -/
def reportStage (console : Console) (o : Options) (rules : List Rule) (name text : String)
    (checked : Checked) : Outcome :=
  let found := selected rules checked.findings
  let ix := LineIndex.ofText text.toList
  let exit := if found.isEmpty then 0 else 1
  match o.exportAs with
  | none =>
    let color := o.color.isOn console.stdoutIsTerminal console.noColor
    ⟨exit, reportText ⟨o.format, color, name⟩ ix found, "", none⟩
  | some format =>
    let color := o.color.isOn console.stderrIsTerminal console.noColor
    let report := reportText ⟨.oneline, color, name⟩ ix found
    match checked.journal with
    | none => ⟨exit, "", report, none⟩
    | some j =>
      let exported := j.export format o.split
      let log := logText o.verbosity (exportNotes j format o.split exported.count)
      ⟨exit, exported.output, report ++ log, none⟩

/-- A run on the text of the file. -/
def runText (console : Console) (o : Options) (rules : List Rule) (name text : String) : Outcome :=
  match fixStage o name text with
  | .error (notes, exit, message) =>
    ⟨exit, "", logText o.verbosity notes ++ complaint message, none⟩
  | .ok fixed =>
    match check (some name) fixed.text with
    | .error fault =>
      let shown := complaint s!"{name}: {fault.message}"
      ⟨74, "", logText o.verbosity fixed.notes ++ shown, fixed.rewritten⟩
    | .ok checked =>
      let log := logText o.verbosity (fixed.notes ++ checked.notes.map LogNote.fix)
      let shown := reportStage console o rules name fixed.text checked
      ⟨shown.exit, shown.stdout, log ++ shown.stderr, fixed.rewritten⟩

/-- The rules with these identifiers, or the first identifier that names none. -/
def parseRules : List String → Except UnknownRule (List Rule)
  | [] => .ok []
  | id :: ids =>
    match Rule.parse id with
    | .error fault => .error fault
    | .ok rule =>
      match parseRules ids with
      | .error fault => .error fault
      | .ok rules => .ok (rule :: rules)

/-- The path of the file that the options name. -/
def Options.path (o : Options) : Path := Path.ofText o.file.toList

/-- The name of the file has a NUL character, so it cannot be the name of any file. -/
structure NameFault where
  name : String
  deriving DecidableEq, Repr

/-- The wording of the fault. -/
def NameFault.message (_ : NameFault) : String := "embedded null byte"

/-- The exit code for the fault. -/
def NameFault.exit (_ : NameFault) : Nat := 1

/-- A run with some options on a file in some state. A name with a NUL character ends it without an
outcome, after the rules are read. -/
def execute (console : Console) (o : Options) (state : FileState) : Except NameFault Outcome :=
  match parseRules o.rules with
  | .error fault => .ok ⟨64, "", complaint fault.message, none⟩
  | .ok rules =>
    let name := String.ofList o.path.toText
    if name.contains '\x00' then .error ⟨name⟩
    else
      match state.text with
      | .error fault => .ok ⟨fault.exit, "", complaint (fault.message name), none⟩
      | .ok text => .ok (runText console o rules name text)

end TimeJournal.CommandLine
