import TimeJournal.Lint.Finding
import TimeJournal.Text.Json
import TimeJournal.Text.LineIndex

/-! # Reports

Findings are written for a terminal or for a tool, with places counted from 1: on one line each, as
an excerpt of the text with the span underlined, or as a JSON object each. -/

namespace TimeJournal

open Text

/-- How findings are written. -/
inductive ReportFormat where
  | oneline
  | fancy
  | json
  deriving DecidableEq, Repr

/-- The word for a format. -/
def ReportFormat.name : ReportFormat → String
  | .oneline => "oneline"
  | .fancy => "fancy"
  | .json => "json"

/-- How a report is written, and the name of the file that it is about. -/
structure Report where
  format : ReportFormat
  color : Bool
  fileName : String
  deriving DecidableEq, Repr

/-- How a part of a report stands out. -/
inductive Style where
  | bold
  | boldRed
  | boldYellow
  | cyan
  deriving DecidableEq, Repr

/-- The sequence that begins a style on a terminal. -/
def Style.sequence : Style → String
  | .bold => "\x1b[1m"
  | .boldRed => "\x1b[1;31m"
  | .boldYellow => "\x1b[1;33m"
  | .cyan => "\x1b[36m"

/-- The sequence that ends every style on a terminal. -/
def Style.reset : String := "\x1b[0m"

namespace Report

/-- The name of a text that comes from no file. -/
def standardInput : String := "<STDIN>"

/-- A text in a style, if the report is in color. -/
def paint (r : Report) (style : Style) (text : String) : String :=
  if r.color then style.sequence ++ text ++ Style.reset else text

/-- A position as the line and the column, counted from 1. -/
def place (p : Position) : String :=
  let line := p.line + 1
  let column := p.character + 1
  s!"{line}:{column}"

/-- A finding on one line. -/
def oneline (r : Report) (ix : LineIndex) (f : Finding) : String :=
  let p := ix.position f.span.start
  let colon := r.paint .cyan ":"
  let name := r.paint .bold r.fileName
  let rule := r.paint .boldRed f.rule.id
  let line := p.line + 1
  let column := p.character + 1
  s!"{name}{colon}{line}{colon}{column}{colon} {rule} {f.message}"

/-- The number of characters to underline on the line where a span starts; at least one. -/
def underlineWidth (start stop : Position) (lineLength : Nat) : Nat :=
  let last := if stop.line = start.line then stop.character else lineLength
  max 1 (min last lineLength - start.character)

/-- A finding with an excerpt of the text. -/
def fancy (r : Report) (ix : LineIndex) (f : Finding) : String :=
  let severity :=
    match f.severity with
    | .error => r.paint .boldRed f.severity.name
    | .warning => r.paint .boldYellow f.severity.name
  let start := ix.position f.span.start
  let stop := ix.position f.span.stop
  let text := ix.lineText start.line
  let number := Nat.repr (start.line + 1)
  let gutter := "".pushn ' ' number.length
  let margin := "".pushn ' ' start.character
  let underline := r.paint .boldRed ("".pushn '^' (underlineWidth start stop text.length))
  let excerpt := String.ofList text
  let parts :=
    [s!"{severity}[{f.rule.id}]: {f.message}",
      s!"{gutter}--> {r.fileName}:{place start}",
      s!"{gutter} |",
      s!"{number} | {excerpt}",
      s!"{gutter} | {margin}{underline}"]
  let help :=
    match f.suggestion with
    | some suggestion => [s!"{gutter} = help: replace with `{suggestion}`"]
    | none => []
  let notes := f.related.map fun other =>
    s!"{gutter} = note: {other.uri}:{place (ix.position other.span.start)}: {other.message}"
  String.intercalate "\n" (parts ++ help ++ notes)

/-- A related place as a JSON object. -/
def relatedJson (other : Related) : Json :=
  .object [("uri", .string other.uri), ("start", .number other.span.start),
    ("end", .number other.span.stop), ("message", .string other.message)]

/-- A finding as a JSON object. -/
def findingJson (r : Report) (ix : LineIndex) (f : Finding) : Json :=
  let p := ix.position f.span.start
  .object
    ([("file", .string r.fileName), ("line", .number (p.line + 1)),
        ("column", .number (p.character + 1)), ("start", .number f.span.start),
        ("end", .number f.span.stop), ("rule", .string f.rule.id),
        ("severity", .string f.severity.name), ("message", .string f.message)] ++
      (match f.suggestion with
        | some suggestion => [("suggestion", .string suggestion)]
        | none => []) ++
      (if f.related.isEmpty then [] else [("related", .array (f.related.map relatedJson))]))

/-- A finding in the format of the report. -/
def finding (r : Report) (ix : LineIndex) (f : Finding) : String :=
  match r.format with
  | .oneline => r.oneline ix f
  | .fancy => r.fancy ix f
  | .json => (r.findingJson ix f).render

/-- What stands between two findings. -/
def separator (r : Report) : String :=
  match r.format with
  | .fancy => "\n\n"
  | _ => "\n"

/-- Findings in the format of the report. -/
def render (r : Report) (ix : LineIndex) (fs : List Finding) : String :=
  String.intercalate r.separator (fs.map (r.finding ix))

end Report

end TimeJournal
