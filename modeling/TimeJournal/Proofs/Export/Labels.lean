import TimeJournal.Proofs.Export.Members
import TimeJournal.Proofs.Export.Records
import TimeJournal.Proofs.Text.Separator

/-! # Labels of an activity

An activity is cut at every separator; the last piece is the activity of the record and those before
it become codes. A journal is exported with its labels split off or with whole activities, and the
two exports are compared record by record.

* `labels_concat`: the labels and the activity behind them are the pieces of the whole activity.
* `intercalate_labels`, `not_infix_label`: these make up the whole activity again, and no separator is
  left in them.
* `Journal.records_split`: the records with labels split off are those without, each with its own
  labels split off.
* `Record.IsSplitOf`: what two such records have to do with each other;
  `Journal.records_isSplitOf`: all of them, in the order of the journal. -/

namespace TimeJournal

open Text Lint

/-! ### The pieces of an activity -/

theorem labelSeparator_ne_nil : labelSeparator ≠ [] := List.cons_ne_nil _ _

/-- Labels are looked for as any separator is. -/
theorem splitLabels.go_eq (piece s : List Char) :
    splitLabels.go piece s = cutAt.go labelSeparator piece 0 s := by
  induction piece, s using splitLabels.go.induct with
  | case1 piece => rfl
  | case2 piece r ih =>
    have hprefix : labelSeparator.isPrefixOf (':' :: ' ' :: r) = true := rfl
    rw [splitLabels.go, ih, cutAt.go, if_pos hprefix]
    rfl
  | case3 piece c r hnot ih =>
    have hprefix : ¬ labelSeparator.isPrefixOf (c :: r) = true := by
      intro hp
      obtain ⟨rest, hrest⟩ := List.isPrefixOf_iff_prefix.mp hp
      obtain ⟨rfl, rfl⟩ := List.cons.inj hrest
      exact hnot rest rfl rfl
    rw [splitLabels.go, ih, cutAt.go, if_neg hprefix]
    exact hnot

/-- **The labels and the activity behind them** are the pieces of the whole activity. -/
theorem labels_concat (activity : String) :
    (splitLabels activity).1 ++ [(splitLabels activity).2] =
      (cutAt labelSeparator activity.toList).map String.ofList := by
  have hpieces : (splitLabels.go [] activity.toList).map String.ofList =
      (cutAt labelSeparator activity.toList).map String.ofList := by
    rw [splitLabels.go_eq]
    rfl
  have hne : (cutAt labelSeparator activity.toList).map String.ofList ≠ [] := fun h =>
    cutAt_ne_nil labelSeparator_ne_nil _ (List.map_eq_nil_iff.mp h)
  show (List.map _ _).dropLast ++ [(List.map _ _).getLastD ""] = _
  rw [hpieces, List.getLastD_eq_getLast?, List.getLast?_eq_some_getLast hne, Option.getD_some,
    List.dropLast_append_getLast]

example : splitLabels "foo: : bar:: baz: " = (["foo", "", "bar:", "baz"], "") := by decide +kernel

/-- **Joining what was split gives the whole activity back.** -/
theorem intercalate_labels (activity : String) : String.intercalate ": "
    ((splitLabels activity).1 ++ [(splitLabels activity).2]) = activity := by
  have hid : String.toList ∘ String.ofList = id := funext fun _ => String.toList_ofList
  rw [labels_concat, ← String.toList_inj, String.toList_intercalate, List.map_map, hid, List.map_id]
  exact intercalate_cutAt labelSeparator_ne_nil activity.toList

/-- **No separator is left**, neither in a label nor in the activity behind the labels. -/
theorem not_infix_label {activity p : String}
    (h : p ∈ (splitLabels activity).1 ++ [(splitLabels activity).2]) :
    ¬ labelSeparator <:+: p.toList := by
  rw [labels_concat] at h
  obtain ⟨piece, hpiece, rfl⟩ := List.mem_map.mp h
  rw [String.toList_ofList]
  exact not_infix_of_mem_cutAt labelSeparator_ne_nil hpiece

/-- An activity without a separator has no labels. -/
theorem splitLabels_of_absent {activity : String}
    (h : ¬ labelSeparator <:+: activity.toList) : splitLabels activity = ([], activity) := by
  have hconcat := labels_concat activity
  rw [cutAt_of_absent h, List.map_singleton, String.ofList_toList] at hconcat
  have hsplit : (splitLabels activity).1 ++ [(splitLabels activity).2] = [] ++ [activity] := hconcat
  obtain ⟨hlabels, hactivity⟩ := List.append_inj' hsplit rfl
  exact Prod.ext hlabels (List.singleton_inj.mp hactivity)

/-! ### Two exports of a journal -/

namespace Record

/-- A record with the labels of its activity split off. -/
def split (r : Record) : Record :=
  { r with
    codes := r.codes ++ (splitLabels r.activity).1
    activity := (splitLabels r.activity).2 }

/-- A record is another one with some labels of its activity split off: they follow its codes, with
the next numbers, and nothing is lost. -/
structure IsSplitOf (s r : Record) (labels : List String) : Prop where
  start_eq : s.start = r.start
  stop_eq : s.stop = r.stop
  seconds_eq : s.seconds = r.seconds
  codes_eq : s.codes = r.codes ++ labels
  keys_eq : s.members.map Prod.fst = header (r.codes.length + labels.length)
  value_eq : ∀ n, s.value? (codeKey (n + 1)) = (r.codes ++ labels)[n]?.map Json.string
  activity_eq : String.intercalate ": " (labels ++ [s.activity]) = r.activity
  apart : ∀ p ∈ labels ++ [s.activity], ¬ labelSeparator <:+: p.toList
  again_eq : splitLabels s.activity = ([], s.activity)

theorem isSplitOf_split (r : Record) : r.split.IsSplitOf r (splitLabels r.activity).1 where
  start_eq := rfl
  stop_eq := rfl
  seconds_eq := rfl
  codes_eq := rfl
  keys_eq := by
    rw [keys_members, ← List.length_append]
    rfl
  value_eq := r.split.value?_codeKey
  activity_eq := intercalate_labels r.activity
  apart := fun _ => not_infix_label
  again_eq := splitLabels_of_absent (not_infix_label
    (List.mem_append_right (splitLabels r.activity).1 List.mem_cons_self))

end Record

theorem Entry.record?_split (date : Option Date) (e : Entry) :
    e.record? date true = (e.record? date false).map Record.split := by
  unfold record?
  rcases instant? date e.start.value with _ | a
  · rfl
  rcases instant? date e.stop.value with _ | b
  · rfl
  rcases e.duration.part? with _ | d
  · rfl
  · show _ = some (Record.split ⟨a, b, d.seconds, e.codes.map Located.value ++ [], e.activity.value⟩)
    rw [List.append_nil]
    rfl

namespace Journal

/-- The records with labels split off are those with whole activities, split one by one. -/
theorem records_split (j : Journal) : j.records true = (j.records false).map Record.split := by
  rw [records_eq, records_eq, List.map_filterMap]
  exact List.filterMap_congr fun e _ => e.record?_split _

/-- **Nothing is lost when labels are split off**: record by record, times and seconds are the same,
the codes go on with the labels, and labels and activity make up the whole activity. -/
theorem records_isSplitOf (j : Journal) :
    List.Forall₂ (fun s r => ∃ labels, s.IsSplitOf r labels) (j.records true) (j.records false) := by
  rw [records_split, List.forall₂_map_left_iff, List.forall₂_same]
  exact fun r _ => ⟨_, r.isSplitOf_split⟩

end Journal

end TimeJournal
