import TimeJournal.Calendar.Date
import TimeJournal.Calendar.Instant
import TimeJournal.Calendar.TimeToken
import TimeJournal.CommandLine.Log
import TimeJournal.CommandLine.Options
import TimeJournal.CommandLine.Run
import TimeJournal.Edit.Command
import TimeJournal.Edit.Fix
import TimeJournal.Edit.TextEdit
import TimeJournal.Editor
import TimeJournal.Export.Format
import TimeJournal.Export.Record
import TimeJournal.Hours
import TimeJournal.Journal.Block
import TimeJournal.Journal.Body
import TimeJournal.Journal.EntryText
import TimeJournal.Journal.Event
import TimeJournal.Journal.Fault
import TimeJournal.Journal.Node
import TimeJournal.Journal.Production
import TimeJournal.Journal.Reading
import TimeJournal.Lint.Finding
import TimeJournal.Lint.Linter
import TimeJournal.Lint.Rule
import TimeJournal.Lint.State
import TimeJournal.Location.Date
import TimeJournal.Location.Host
import TimeJournal.Location.Path
import TimeJournal.Location.Uri
import TimeJournal.Report
import TimeJournal.Span
import TimeJournal.Text.Blank
import TimeJournal.Text.Csv
import TimeJournal.Text.Cursor
import TimeJournal.Text.Decimal
import TimeJournal.Text.DecimalDigit
import TimeJournal.Text.Hexadecimal
import TimeJournal.Text.Json
import TimeJournal.Text.Line
import TimeJournal.Text.LineIndex
import TimeJournal.Text.Printable
import TimeJournal.Text.Quoted
import TimeJournal.Text.Utf8
import TimeJournal.Proofs.Calendar.Clock
import TimeJournal.Proofs.Calendar.Days
import TimeJournal.Proofs.Calendar.Iso
import TimeJournal.Proofs.Calendar.Resolution
import TimeJournal.Proofs.Calendar.TimeOfDay
import TimeJournal.Proofs.Calendar.Written
import TimeJournal.Proofs.CommandLine.Aftermath
import TimeJournal.Proofs.CommandLine.InPlace
import TimeJournal.Proofs.CommandLine.Verdict
import TimeJournal.Proofs.Edit.Convergence
import TimeJournal.Proofs.Edit.Correction
import TimeJournal.Proofs.Edit.CorrectionStep
import TimeJournal.Proofs.Edit.DateEdit
import TimeJournal.Proofs.Edit.DocumentEdit
import TimeJournal.Proofs.Edit.EntryEdit
import TimeJournal.Proofs.Edit.Execution
import TimeJournal.Proofs.Edit.FieldEdit
import TimeJournal.Proofs.Edit.Fixing
import TimeJournal.Proofs.Edit.Frame
import TimeJournal.Proofs.Edit.LineEdit
import TimeJournal.Proofs.Edit.LineEndings
import TimeJournal.Proofs.Edit.Outcome
import TimeJournal.Proofs.Edit.Ranges
import TimeJournal.Proofs.Edit.Reread
import TimeJournal.Proofs.Edit.Suggestion
import TimeJournal.Proofs.Edit.Target
import TimeJournal.Proofs.Editor.QuickFix
import TimeJournal.Proofs.Editor.Range
import TimeJournal.Proofs.Export.Accounting
import TimeJournal.Proofs.Export.JsonLines
import TimeJournal.Proofs.Export.Labels
import TimeJournal.Proofs.Export.Members
import TimeJournal.Proofs.Export.Records
import TimeJournal.Proofs.Export.Table
import TimeJournal.Proofs.Hours.Double
import TimeJournal.Proofs.Hours.Literal
import TimeJournal.Proofs.Hours.Rendering
import TimeJournal.Proofs.Hours.Rounding
import TimeJournal.Proofs.Journal.Chain
import TimeJournal.Proofs.Journal.Classification
import TimeJournal.Proofs.Journal.Composition
import TimeJournal.Proofs.Journal.Coverage
import TimeJournal.Proofs.Journal.Day
import TimeJournal.Proofs.Journal.Document
import TimeJournal.Proofs.Journal.Failure
import TimeJournal.Proofs.Journal.FaultSpan
import TimeJournal.Proofs.Journal.FieldValue
import TimeJournal.Proofs.Journal.FrontMatter
import TimeJournal.Proofs.Journal.Grammar
import TimeJournal.Proofs.Journal.Layout
import TimeJournal.Proofs.Journal.Move
import TimeJournal.Proofs.Journal.Plain
import TimeJournal.Proofs.Journal.Quotation
import TimeJournal.Proofs.Journal.Recovery
import TimeJournal.Proofs.Journal.Relocation
import TimeJournal.Proofs.Journal.Returns
import TimeJournal.Proofs.Journal.Setting
import TimeJournal.Proofs.Journal.Stepping
import TimeJournal.Proofs.Journal.Traversal
import TimeJournal.Proofs.Lint.Backwards
import TimeJournal.Proofs.Lint.Callbacks
import TimeJournal.Proofs.Lint.Completion
import TimeJournal.Proofs.Lint.Day
import TimeJournal.Proofs.Lint.LineNumbers
import TimeJournal.Proofs.Lint.Origin
import TimeJournal.Proofs.Lint.Rules
import TimeJournal.Proofs.Lint.Tolerance
import TimeJournal.Proofs.Lint.Translation
import TimeJournal.Proofs.Location.FileUri
import TimeJournal.Proofs.Report.Pieces
import TimeJournal.Proofs.Report.Underline
import TimeJournal.Proofs.Report.Wording
import TimeJournal.Proofs.Text.Csv
import TimeJournal.Proofs.Text.Cut
import TimeJournal.Proofs.Text.Digits
import TimeJournal.Proofs.Text.Json
import TimeJournal.Proofs.Text.LineAround
import TimeJournal.Proofs.Text.LineIndex
import TimeJournal.Proofs.Text.LineStarts
import TimeJournal.Proofs.Text.Piece
import TimeJournal.Proofs.Text.Position
import TimeJournal.Proofs.Text.Separator
import TimeJournal.Proofs.Text.Utf8
import TimeJournal.Proofs.Text.Writing
import TimeJournal.Proofs.Translation
import TimeJournal.Proofs.Transparency
import TimeJournal.Main
