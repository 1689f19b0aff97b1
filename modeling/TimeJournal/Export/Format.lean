import TimeJournal.Export.Record
import TimeJournal.Text.Csv

/-! # Export formats

Records are written as JSON, an object with sorted keys on each line, or as CSV with a header row
and as many code columns as the record with the most codes needs. -/

namespace TimeJournal

/-- How records are written. -/
inductive ExportFormat where
  | json
  | csv
  deriving DecidableEq, Repr

/-- The word for a format. -/
def ExportFormat.name : ExportFormat → String
  | .json => "json"
  | .csv => "csv"

namespace Record

/-- A record as a JSON object with its keys in order. -/
def toJson (r : Record) : Text.Json := .object (r.members.mergeSort fun a b => a.1 ≤ b.1)

/-- Records as JSON, one on each line. -/
def writeJson (rs : List Record) : List Char := rs.flatMap fun r => r.toJson.write ++ ['\n']

/-- The number of code columns that records need. -/
def codeColumns (rs : List Record) : Nat := (rs.map fun r => r.codes.length).foldl max 0

/-- The header of a table with some number of code columns. -/
def header (columns : Nat) : List String :=
  ["start_time", "end_time", "duration"] ++ (List.range' 1 columns).map codeKey ++ ["activity"]

/-- The cells of a record in a table with some number of code columns; those that it lacks are
empty. -/
def cells (columns : Nat) (r : Record) : List String :=
  [r.start.toIso, r.stop.toIso, Nat.repr r.seconds] ++ r.codes ++
    List.replicate (columns - r.codes.length) "" ++ [r.activity]

/-- Records as CSV, under a header row. -/
def writeCsv (rs : List Record) : List Char :=
  let columns := codeColumns rs
  Text.Csv.write ((header columns :: rs.map (cells columns)).map fun row => row.map String.toList)

end Record

/-- What an export writes, and the number of its records. -/
structure Exported where
  output : String
  count : Nat
  deriving DecidableEq, Repr

/-- The export of a journal. -/
def Journal.export (j : Journal) (format : ExportFormat) (split : Bool) : Exported :=
  let records := j.records split
  let output :=
    match format with
    | .json => Record.writeJson records
    | .csv => Record.writeCsv records
  ⟨String.ofList output, records.length⟩

end TimeJournal
