import TimeJournal.Journal.Reading
import TimeJournal.Proofs.Export.Members
import TimeJournal.Proofs.Text.Csv

/-! # Records as a table

The CSV export of a journal, read back: under the header each record has a row, and in each column
the row has what the record has under the name of the column.

* `Record.cells_eq`: the cells of a record, looked up by the names of the columns.
* `Record.Fits`: the columns of a table are those that its records need.
* `Journal.export_csv_tabulates`: what a reader makes of the export of a journal. -/

namespace TimeJournal

open Text

/-! ### Rows -/

namespace Record

/-- How a value is shown in a cell. -/
def cellText : Json → String
  | .number n => Nat.repr n
  | .string s => s
  | .array _ | .object _ => ""

/-- What a record has in a column: its value under the name of the column, or nothing. -/
def cell (r : Record) (column : String) : String := (r.value? column).elim "" cellText

/-- The codes of a record, and an empty cell in every code column behind them. -/
theorem map_cell_codeKey {r : Record} {columns : ℕ} (h : r.codes.length ≤ columns) :
    (List.range' 1 columns).map (fun n => r.cell (codeKey n)) =
      r.codes ++ List.replicate (columns - r.codes.length) "" := by
  have hcell : ∀ n, r.cell (codeKey (n + 1)) = r.codes[n]?.getD "" := by
    intro n
    rw [cell, value?_codeKey]
    rcases r.codes[n]? with _ | code <;> rfl
  refine List.ext_getElem (by simp; omega) fun n hn hn' => ?_
  rw [List.getElem_map, List.getElem_range', Nat.one_mul, Nat.add_comm, hcell, List.getElem_append]
  split_ifs with hlt
  · rw [List.getElem?_eq_getElem hlt]
    rfl
  · rw [List.getElem?_eq_none (by omega), List.getElem_replicate]
    rfl

/-- **The cells of a record are its values under the names of the columns.** -/
theorem cells_eq {r : Record} {columns : ℕ} (h : r.codes.length ≤ columns) :
    cells columns r = (header columns).map r.cell := by
  have hcodes : ((List.range' 1 columns).map codeKey).map r.cell =
      r.codes ++ List.replicate (columns - r.codes.length) "" := by
    rw [List.map_map]
    exact map_cell_codeKey h
  have hfront : ["start_time", "end_time", "duration"].map r.cell =
      [r.start.toIso, r.stop.toIso, Nat.repr r.seconds] := by
    simp [cell, value?_start, value?_stop, value?_duration, cellText]
  have hback : ["activity"].map r.cell = [r.activity] := by
    simp [cell, value?_activity, cellText]
  unfold cells header
  rw [List.map_append, List.map_append, hfront, hcodes, hback, ← List.append_assoc]

/-! ### Tables -/

/-- The columns of a table fit some records: there are as many code columns as the record with the
most codes has codes, which are counted by their names; no two columns have one name; every value of
a record has a column; and a record lacks no columns but those of further codes. -/
structure Fits (columns : ℕ) (rs : List Record) : Prop where
  greatest : ∀ n, columns ≤ n ↔ ∀ r ∈ rs, r.codes.length ≤ n
  counted : ∀ r ∈ rs, r.members.countP (fun m => "code".toList.isPrefixOf m.1.toList) =
    r.codes.length
  nodup : (header columns).Nodup
  keys : ∀ r ∈ rs, ∀ m ∈ r.members, m.1 ∈ header columns
  lacking : ∀ r ∈ rs, ∀ column ∈ header columns, r.value? column = none →
    ∃ n, r.codes.length < n ∧ n ≤ columns ∧ column = codeKey n

theorem fits_codeColumns (rs : List Record) : Fits (codeColumns rs) rs where
  greatest n := codeColumns_le_iff
  counted r _ := countP_codeMembers r
  nodup := nodup_header _
  keys r hr m hm := by
    have hkey : m.1 ∈ header r.codes.length := by
      rw [← keys_members]
      exact List.mem_map_of_mem hm
    exact mem_header_of_le (codeColumns_le_iff.mp le_rfl r hr) hkey
  lacking r hr column hcolumn hnone := by
    rw [value?_eq_none_iff, mem_header_iff] at hnone
    rcases mem_header_iff.mp hcolumn with hother | ⟨n, hn, hle, rfl⟩
    · exact absurd (Or.inl hother) hnone
    · refine ⟨n, ?_, hle, rfl⟩
      by_contra hlt
      exact hnone (Or.inr ⟨n, hn, by omega, rfl⟩)

/-- **A table that was written is read back**, a row for each record under the header. -/
theorem read_writeCsv (rs : List Record) :
    Csv.read (writeCsv rs) = some ((header (codeColumns rs) ::
      rs.map fun r => (header (codeColumns rs)).map r.cell).map fun row => row.map String.toList) := by
  have hcells : rs.map (cells (codeColumns rs)) =
      rs.map fun r => (header (codeColumns rs)).map r.cell :=
    List.map_congr_left fun r hr => cells_eq (codeColumns_le_iff.mp le_rfl r hr)
  unfold writeCsv
  rw [← hcells]
  refine Csv.read_write fun row hrow => ?_
  obtain ⟨texts, htexts, rfl⟩ := List.mem_map.mp hrow
  rcases List.mem_cons.mp htexts with rfl | htexts
  · simp [header]
  · obtain ⟨r, -, rfl⟩ := List.mem_map.mp htexts
    simp [cells]

end Record

/-- **The CSV export of a journal shows its records**: it is read as a header and a row for each
record, in their order, with the values of the record under their names and nothing in the code
columns that it lacks. -/
theorem Journal.export_csv_tabulates (j : Journal) (split : Bool) :
    ∃ columns, Record.Fits columns (j.records split) ∧
      Csv.read (j.export .csv split).output.toList = some ((Record.header columns ::
        (j.records split).map fun r => (Record.header columns).map r.cell).map
          fun row => row.map String.toList) ∧
      (j.export .csv split).count = (j.records split).length := by
  refine ⟨_, Record.fits_codeColumns _, ?_, rfl⟩
  rw [← Record.read_writeCsv]
  exact congrArg Csv.read String.toList_ofList

/-- A text with two entries: one has two codes, with a comma and with quotation marks, and a label
before its activity, which holds a carriage return; the other one has no codes and ends on the next
day. -/
def tableText : String :=
  "---\ndate: 2024-01-03\n---\n- 09:00-10:00 A,B \"X\" 1.00 plan: say \"hi\",\rtwice\n" ++
    "- 23:00-24:30 1.50 read\n"

theorem export_csv_tabulates_tableText : ∃ j columns,
    (Reading.ofText tableText.toList).journal = some j ∧
      (j.records true).map (fun r => r.codes.length) = [3, 0] ∧
      Record.Fits columns (j.records true) ∧
      Csv.read (j.export .csv true).output.toList = some ((Record.header columns ::
        (j.records true).map fun r => (Record.header columns).map r.cell).map
          fun row => row.map String.toList) := by
  have hcodes : (Reading.ofText tableText.toList).journal.map (fun j =>
      (j.records true).map fun r => r.codes.length) = some [3, 0] := by decide +kernel
  obtain ⟨j, hj, hcodes⟩ := Option.map_eq_some_iff.mp hcodes
  obtain ⟨columns, hfits, hread, -⟩ := j.export_csv_tabulates true
  exact ⟨j, columns, hj, hcodes, hfits, hread⟩

end TimeJournal
