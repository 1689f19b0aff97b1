import TimeJournal.Proofs.Calendar.Iso
import TimeJournal.Proofs.Calendar.Resolution
import TimeJournal.Proofs.Export.Accounting
import TimeJournal.Proofs.Export.Members
import TimeJournal.Proofs.Text.Json

/-! # Records as lines

The JSON export of a journal, read back: each record has a line, and the object on the line has the
members of the record, under names in ascending order.

* `Record.Decodes`: what a line is for a record; `Record.decodes_toJson`: the line that is written.
* `Record.eq_of_perm`: a record is determined by its members, in whatever order they stand, since its
  codes are numbered and its instants lie in the calendar.
* `eq_of_flatMap_eq`: lines are determined by the text that they make up.
* `Journal.export_json_decodes`: what a reader makes of the export of a journal, and so equal exports
  have equal records. -/

namespace TimeJournal

open Text

namespace Record

/-! ### The line of a record -/

/-- A line without line feeds on which an object is written: it has the members of the record, and
their names ascend. -/
structure Decodes (line : List Char) (r : Record) : Prop where
  feed : '\n' ∉ line
  object : ∃ members, Json.read line = some (.object members) ∧ members.Perm r.members ∧
    members.Pairwise fun a b => a.1 < b.1

/-- The members of a record in the order in which they are written. -/
def sorted (r : Record) : List (String × Json) := r.members.mergeSort fun a b => a.1 ≤ b.1

theorem sorted_perm (r : Record) : r.sorted.Perm r.members := List.mergeSort_perm _ _

/-- **The names ascend**: they are sorted, and no two of them are the same. -/
theorem pairwise_sorted (r : Record) : r.sorted.Pairwise fun a b => a.1 < b.1 := by
  have hle : r.sorted.Pairwise fun a b => a.1 ≤ b.1 := by
    have htrans : ∀ a b c : String × Json, decide (a.1 ≤ b.1) = true → decide (b.1 ≤ c.1) = true →
        decide (a.1 ≤ c.1) = true := fun a b c hab hbc =>
      decide_eq_true (String.le_trans (of_decide_eq_true hab) (of_decide_eq_true hbc))
    have htotal : ∀ a b : String × Json, (decide (a.1 ≤ b.1) || decide (b.1 ≤ a.1)) = true :=
      fun a b => by simpa using String.le_total a.1 b.1
    exact (List.pairwise_mergeSort htrans htotal r.members).imp of_decide_eq_true
  have hne : r.sorted.Pairwise fun a b => a.1 ≠ b.1 := by
    have hnodup : (r.sorted.map Prod.fst).Nodup := by
      rw [(r.sorted_perm.map Prod.fst).nodup_iff, keys_members]
      exact nodup_header _
    exact List.pairwise_map.mp hnodup
  refine (hle.and hne).imp fun {a b} h => String.not_le.mp fun hba => ?_
  exact h.2 (String.le_antisymm h.1 hba)

theorem decodes_toJson (r : Record) : Decodes r.toJson.write r where
  feed := Json.feed_notMem_write _
  object := ⟨r.sorted, Json.read_write _, r.sorted_perm, r.pairwise_sorted⟩

/-! ### Records with the same members -/

/-- The instants of a record lie in the calendar. -/
structure IsInCalendar (r : Record) : Prop where
  start : r.start.IsInCalendar
  stop : r.stop.IsInCalendar

theorem value?_eq_of_perm {r s : Record} (h : r.members.Perm s.members) (key : String) :
    r.value? key = s.value? key :=
  Option.ext fun v => by rw [value?_eq_some_iff, value?_eq_some_iff, h.mem_iff]

/-- **A record is determined by its members.** -/
theorem eq_of_perm {r s : Record} (h : r.members.Perm s.members) (hr : r.IsInCalendar)
    (hs : s.IsInCalendar) : r = s := by
  have hvalue := value?_eq_of_perm h
  have hstart : r.start = s.start := by
    have heq := hvalue "start_time"
    rw [value?_start, value?_start] at heq
    exact Instant.toIso_inj hr.start hs.start (Json.string.inj (Option.some.inj heq))
  have hstop : r.stop = s.stop := by
    have heq := hvalue "end_time"
    rw [value?_stop, value?_stop] at heq
    exact Instant.toIso_inj hr.stop hs.stop (Json.string.inj (Option.some.inj heq))
  have hseconds : r.seconds = s.seconds := by
    have heq := hvalue "duration"
    rw [value?_duration, value?_duration] at heq
    exact Json.number.inj (Option.some.inj heq)
  have hcodes : r.codes = s.codes := by
    refine List.ext_getElem? fun n => ?_
    have heq := hvalue (codeKey (n + 1))
    rw [value?_codeKey, value?_codeKey] at heq
    exact Option.map_injective (fun _ _ => Json.string.inj) heq
  have hactivity : r.activity = s.activity := by
    have heq := hvalue "activity"
    rw [value?_activity, value?_activity] at heq
    exact Json.string.inj (Option.some.inj heq)
  rw [Record.mk.injEq]
  exact ⟨hstart, hstop, hseconds, hcodes, hactivity⟩

theorem Decodes.unique {line : List Char} {r s : Record} (h : Decodes line r) (h' : Decodes line s)
    (hr : r.IsInCalendar) (hs : s.IsInCalendar) : r = s := by
  obtain ⟨members, hread, hperm, -⟩ := h.object
  obtain ⟨members', hread', hperm', -⟩ := h'.object
  have hmembers : members = members' :=
    Json.object.inj (Option.some.inj (hread.symm.trans hread'))
  exact eq_of_perm (hperm.symm.trans (hmembers ▸ hperm')) hr hs

theorem eq_of_forall₂_decodes {lines : List (List Char)} {rs ss : List Record}
    (h : List.Forall₂ Decodes lines rs) (h' : List.Forall₂ Decodes lines ss)
    (hr : ∀ r ∈ rs, r.IsInCalendar) (hs : ∀ s ∈ ss, s.IsInCalendar) : rs = ss := by
  induction h generalizing ss with
  | nil =>
    cases h'
    rfl
  | cons hline _ ih =>
    obtain _ | ⟨hline', hrest'⟩ := h'
    rw [hline.unique hline' (hr _ List.mem_cons_self) (hs _ List.mem_cons_self),
      ih hrest' (fun r hmem => hr r (List.mem_cons_of_mem _ hmem))
        fun s hmem => hs s (List.mem_cons_of_mem _ hmem)]

end Record

/-! ### The records of a journal -/

/-- An instant that is exported is the meaning of a time. -/
theorem Journal.isInCalendar_of_mem_records {j : Journal} {split : Bool} {r : Record}
    (h : r ∈ j.records split) : r.IsInCalendar := by
  rw [Journal.records_eq] at h
  obtain ⟨e, -, he⟩ := List.mem_filterMap.mp h
  obtain ⟨d, -, hd⟩ := Entry.describes_of_record? he
  exact ⟨TimeToken.minutes_lt_of_resolve hd.start, TimeToken.minutes_lt_of_resolve hd.stop⟩

/-- Lines that are ended by line feeds are those between the line feeds. -/
theorem splitOn_flatMap_feed {lines : List (List Char)} (h : ∀ line ∈ lines, '\n' ∉ line) :
    (lines.flatMap (· ++ ['\n'])).splitOn '\n' = lines ++ [[]] := by
  induction lines with
  | nil => rfl
  | cons line lines ih =>
    rw [List.flatMap_cons, List.append_assoc, List.singleton_append,
      List.splitOn_append_cons_self_of_not_mem (h line List.mem_cons_self),
      ih fun l hl => h l (List.mem_cons_of_mem _ hl)]
    rfl

theorem eq_of_flatMap_eq {lines lines' : List (List Char)} (h : ∀ line ∈ lines, '\n' ∉ line)
    (h' : ∀ line ∈ lines', '\n' ∉ line)
    (heq : lines.flatMap (· ++ ['\n']) = lines'.flatMap (· ++ ['\n'])) : lines = lines' := by
  have hsplit := splitOn_flatMap_feed h
  rw [heq, splitOn_flatMap_feed h'] at hsplit
  exact (List.append_cancel_right hsplit).symm

/-- An export consists of lines that are ended by line feeds, as many as it counts, on which some
records can be read. -/
structure Exported.Lists (exported : Exported) (rs : List Record) (lines : List (List Char)) :
    Prop where
  output : exported.output.toList = lines.flatMap (· ++ ['\n'])
  count : lines.length = exported.count
  records : List.Forall₂ Record.Decodes lines rs

theorem Journal.lists_export (j : Journal) (split : Bool) :
    (j.export .json split).Lists (j.records split)
      ((j.records split).map fun r => r.toJson.write) where
  output := by
    have houtput : (j.export .json split).output.toList = Record.writeJson (j.records split) :=
      String.toList_ofList
    rw [houtput, Record.writeJson, List.flatMap_map]
  count := List.length_map _
  records := by
    rw [List.forall₂_map_left_iff]
    exact List.forall₂_same.mpr fun r _ => r.decodes_toJson

theorem Exported.Lists.feed {exported : Exported} {rs : List Record} {lines : List (List Char)}
    (h : exported.Lists rs lines) : ∀ line ∈ lines, '\n' ∉ line := by
  intro line hline
  obtain ⟨n, hn, rfl⟩ := List.getElem_of_mem hline
  exact (h.records.get hn (by rw [← h.records.length_eq]; exact hn)).feed

/-- **The JSON export of a journal shows its records**, each on a line of its own, so journals with
equal exports have equal records. -/
theorem Journal.export_json_decodes (j : Journal) (split : Bool) :
    (∃ lines, (j.export .json split).Lists (j.records split) lines) ∧
      ∀ (j' : Journal) (split' : Bool),
        (j.export .json split).output = (j'.export .json split').output →
          j.records split = j'.records split' := by
  refine ⟨⟨_, j.lists_export split⟩, fun j' split' heq => ?_⟩
  have h := j.lists_export split
  have h' := j'.lists_export split'
  have hlines := eq_of_flatMap_eq h.feed h'.feed (by rw [← h.output, ← h'.output, heq])
  have hrecords := h.records
  rw [hlines] at hrecords
  exact Record.eq_of_forall₂_decodes hrecords h'.records
    (fun _ => Journal.isInCalendar_of_mem_records) fun _ => Journal.isInCalendar_of_mem_records

/-- A text whose entry has a label before its activity. -/
def labelText : String :=
  "---\ndate: 2024-01-03\n---\n- 09:00-10:00 OPS 1.00 plan: say \"hi\" \\ \u0001!\n"

/-- A text whose entry has this label as a code. -/
def codeText : String :=
  "---\ndate: 2024-01-03\n---\nnotes\n- 09:00-10:00 OPS plan 1.00 say \"hi\" \\ \u0001!\n"

theorem export_json_decodes_labelText : ∃ j j' lines,
    (Reading.ofText labelText.toList).journal = some j ∧
      (Reading.ofText codeText.toList).journal = some j' ∧
      (j.records true).map Record.codes = [["OPS", "plan"]] ∧
      (j.export .json true).output = (j'.export .json false).output ∧
      (j.export .json true).Lists (j.records true) lines ∧ j.records true = j'.records false := by
  have hlabel : ((Reading.ofText labelText.toList).journal.map fun j => j.records true) =
      (Reading.ofText codeText.toList).journal.map fun j => j.records false := by decide +kernel
  have hcodes : ((Reading.ofText labelText.toList).journal.map fun j =>
      (j.records true).map Record.codes) = some [["OPS", "plan"]] := by decide +kernel
  obtain ⟨j, hj, hcodes⟩ := Option.map_eq_some_iff.mp hcodes
  rw [hj] at hlabel
  obtain ⟨j', hj', hrecords⟩ := Option.map_eq_some_iff.mp hlabel.symm
  have houtput : (j.export .json true).output = (j'.export .json false).output :=
    congrArg (fun rs => String.ofList (Record.writeJson rs)) hrecords.symm
  obtain ⟨⟨lines, hlines⟩, hequal⟩ := Journal.export_json_decodes j true
  exact ⟨j, j', lines, hj, hj', hcodes, houtput, hlines, hequal j' false houtput⟩

end TimeJournal
