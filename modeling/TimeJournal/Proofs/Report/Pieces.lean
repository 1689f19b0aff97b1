import TimeJournal.Proofs.Lint.LineNumbers
import TimeJournal.Proofs.Report.Wording
import TimeJournal.Proofs.Text.Position
import TimeJournal.Proofs.Text.Separator

/-! # Reports taken apart

A report can be cut into its findings again. On one line each, or as objects, the findings hold no line
feed, so each line feed stands between two of them. With an excerpt a finding has several rows, none
of which is empty, so each empty row stands between two of them.

* `Report.exists_rows`: the rows of a finding with an excerpt.
* `Report.isShown_findingJson`: what an object says about its finding; its line and its column lead
  back to where the finding begins.
* `Report.isSeparable_finding`: in every format a finding stays in one piece.
* `Report.render_comesApart`: the report of what a check finds, for every text. -/

namespace TimeJournal

open Text Lint

/-! ### Rows -/

/-- A row that is not empty. -/
structure IsFullRow (s : String) : Prop where
  ne_nil : s.toList ≠ []
  isRow : IsRow s

theorem isFullRow_iff {s : String} : IsFullRow s ↔ s.toList ≠ [] ∧ IsRow s :=
  ⟨fun h => ⟨h.ne_nil, h.isRow⟩, fun h => ⟨h.1, h.2⟩⟩

instance : DecidablePred IsFullRow := fun _ => decidable_of_iff' _ isFullRow_iff

theorem IsFullRow.append {s t : String} (hs : IsFullRow s) (ht : IsRow t) : IsFullRow (s ++ t) where
  ne_nil := by
    rw [String.toList_append]
    exact List.append_ne_nil_of_left_ne_nil hs.ne_nil _
  isRow := hs.isRow.append ht

theorem IsRow.append_full {s t : String} (hs : IsRow s) (ht : IsFullRow t) : IsFullRow (s ++ t) where
  ne_nil := by
    rw [String.toList_append]
    exact List.append_ne_nil_of_right_ne_nil _ ht.ne_nil
  isRow := hs.append ht.isRow

/-- A character again and again. -/
theorem toList_pushn (c : Char) (n : ℕ) : ("".pushn c n).toList = List.replicate n c := by
  unfold String.pushn
  induction n with
  | zero => rfl
  | succ n ih =>
    unfold Nat.repeat
    rw [String.toList_push, ih, List.replicate_succ']

theorem isRow_pushn {c : Char} (hc : c ≠ '\n') (n : ℕ) : IsRow ("".pushn c n) := by
  unfold IsRow
  rw [toList_pushn]
  exact fun hfeed => hc (List.eq_of_mem_replicate hfeed).symm

theorem Rule.isRow_id (rule : Rule) : IsRow rule.id := by
  cases rule <;> decide

namespace Report

variable (r : Report) (ix : LineIndex)

theorem isRow_paint {s : String} (h : IsRow s) (style : Style) : IsRow (r.paint style s) := by
  unfold paint
  split_ifs
  · exact (IsRow.append (by cases style <;> decide) h).append (by decide)
  · exact h

theorem isRow_place (p : Position) : IsRow (place p) :=
  ((isRow_repr _).append (by decide)).append (isRow_repr _)

theorem isRow_oneline {f : Finding} {uri : String} (hf : f.issue.IsInRows uri)
    (hname : IsRow r.fileName) : IsRow (r.oneline ix f) := by
  have hcolon : IsRow (r.paint .cyan ":") := r.isRow_paint (by decide) _
  exact (((((((((r.isRow_paint hname _).append hcolon).append (isRow_repr _)).append hcolon).append
    (isRow_repr _)).append hcolon).append (by decide)).append
      (r.isRow_paint f.rule.isRow_id _)).append (by decide)).append hf.message

theorem isRow_severity (f : Finding) : IsRow (match f.severity with
    | .error => r.paint .boldRed f.severity.name
    | .warning => r.paint .boldYellow f.severity.name) := by
  split
  · exact r.isRow_paint (by cases f.severity <;> decide) _
  · exact r.isRow_paint (by cases f.severity <;> decide) _

/-- The rows above the line and its marks: what was found, where, and a margin. -/
def headRows (f : Finding) : List String :=
  let severity :=
    match f.severity with
    | .error => r.paint .boldRed f.severity.name
    | .warning => r.paint .boldYellow f.severity.name
  let start := ix.position f.span.start
  let gutter := "".pushn ' ' (Nat.repr (start.line + 1)).length
  [s!"{severity}[{f.rule.id}]: {f.message}", s!"{gutter}--> {r.fileName}:{place start}",
    s!"{gutter} |"]

theorem isFullRow_headRows {f : Finding} {uri : String} (hf : f.issue.IsInRows uri)
    (hname : IsRow r.fileName) : ∀ row ∈ r.headRows ix f, IsFullRow row := by
  have hgutter : ∀ n, IsRow ("".pushn ' ' n) := isRow_pushn (by decide)
  intro row hrow
  simp only [headRows, List.mem_cons, List.not_mem_nil, or_false] at hrow
  rcases hrow with rfl | rfl | rfl
  · exact ((((r.isRow_severity f).append_full (by decide)).append f.rule.isRow_id).append
      (by decide)).append hf.message
  · exact ((((hgutter _).append_full (by decide)).append hname).append (by decide)).append
      (isRow_place _)
  · exact (hgutter _).append_full (by decide)

/-- **With an excerpt a finding has several rows**, none of which is empty. -/
theorem exists_rows {f : Finding} {uri : String} (hf : f.issue.IsInRows uri) (hname : IsRow r.fileName)
    (huri : IsRow uri) (hix : ∀ line, '\n' ∉ ix.lineText line) : ∃ rows : List String, rows ≠ [] ∧
    (∀ row ∈ rows, IsFullRow row) ∧ r.fancy ix f = "\n".intercalate rows := by
  have hgutter : ∀ n, IsRow ("".pushn ' ' n) := isRow_pushn (by decide)
  have hhead := r.isFullRow_headRows ix hf hname
  unfold fancy
  refine ⟨_, ?_, ?_, rfl⟩
  · simp
  intro row hrow
  simp only [List.mem_append] at hrow
  rcases hrow with (hrow | hrow) | hrow
  · simp only [List.mem_cons, List.not_mem_nil, or_false] at hrow
    rcases hrow with hrow | hrow | hrow | rfl | rfl
    · exact hhead _ (hrow ▸ List.mem_cons_self)
    · exact hhead _ (hrow ▸ List.mem_cons_of_mem _ List.mem_cons_self)
    · exact hhead _ (hrow ▸ List.mem_cons_of_mem _ (List.mem_cons_of_mem _ List.mem_cons_self))
    · exact ((isRow_repr _).append_full (by decide)).append (isRow_ofList (hix _))
    · exact (((hgutter _).append_full (by decide)).append (hgutter _)).append
        (r.isRow_paint (isRow_pushn (by decide) _) _)
  · split at hrow
    · rename_i suggestion hsuggestion
      rw [List.mem_singleton.mp hrow]
      exact (((hgutter _).append_full (by decide)).append (hf.suggestion _ hsuggestion)).append
        (by decide)
    · cases hrow
  · obtain ⟨other, hother, rfl⟩ := List.mem_map.mp hrow
    obtain ⟨hmessage, rfl⟩ := hf.related other hother
    exact ((((((hgutter _).append_full (by decide)).append huri).append (by decide)).append
      (isRow_place _)).append (by decide)).append hmessage

end Report

/-! ### Objects -/

/-- The value under a name in an object. -/
def Text.Json.member? (v : Json) (name : String) : Option Json :=
  match v with
  | .object members => members.lookup name
  | _ => none

/-- What an object says about another place. -/
structure Related.IsShown (o : Related) (v : Json) : Prop where
  uri : v.member? "uri" = some (.string o.uri)
  start : v.member? "start" = some (.number o.span.start)
  stop : v.member? "end" = some (.number o.span.stop)
  message : v.member? "message" = some (.string o.message)

/-- What an object says about a finding. Its line and its column, counted from 1, lead back to where
the finding begins. -/
structure Finding.IsShown (f : Finding) (r : Report) (ix : LineIndex) (v : Json) : Prop where
  distinct : ∃ members, v = .object members ∧ (members.map Prod.fst).Nodup
  file : v.member? "file" = some (.string r.fileName)
  place : ∃ line column : ℕ, v.member? "line" = some (.number line) ∧
    v.member? "column" = some (.number column) ∧
    ix.offset? (line - 1) (column - 1) = .ok f.span.start
  start : v.member? "start" = some (.number f.span.start)
  stop : v.member? "end" = some (.number f.span.stop)
  rule : v.member? "rule" = some (.string f.rule.id)
  severity : v.member? "severity" = some (.string f.severity.name)
  message : v.member? "message" = some (.string f.message)
  suggestion : v.member? "suggestion" = f.suggestion.map .string
  related : ∃ items, List.Forall₂ Related.IsShown f.related items ∧
    v.member? "related" = if items.isEmpty then none else some (.array items)

theorem Related.isShown_relatedJson (o : Related) : o.IsShown (Report.relatedJson o) where
  uri := rfl
  start := rfl
  stop := rfl
  message := rfl

/-- **The object of a finding shows it**, if the finding begins in the text. -/
theorem Report.isShown_findingJson (r : Report) {text : List Char} {f : Finding}
    (h : f.span.start ≤ text.length) :
    f.IsShown r (LineIndex.ofText text) (r.findingJson (LineIndex.ofText text) f) where
  distinct := by
    refine ⟨_, rfl, ?_⟩
    have hnames : (["file", "line", "column", "start", "end", "rule", "severity", "message"] ++
        ["suggestion"] ++ ["related"]).Nodup := by decide
    refine List.Nodup.sublist ?_ hnames
    rw [List.map_append, List.map_append]
    refine (List.Sublist.append (List.Sublist.refl _) ?_).append ?_
    · cases f.suggestion with
      | none => exact List.nil_sublist _
      | some s => exact List.Sublist.refl _
    · cases f.related with
      | nil => exact List.nil_sublist _
      | cons o os => exact List.Sublist.refl _
  file := rfl
  place := by
    refine ⟨_, _, rfl, rfl, ?_⟩
    rw [Nat.cast_add, Nat.cast_add, Nat.cast_one, add_sub_cancel_right, add_sub_cancel_right,
      LineIndex.offset?_natCast, LineIndex.offset_position text h]
  start := rfl
  stop := rfl
  rule := rfl
  severity := rfl
  message := rfl
  suggestion := by
    unfold findingJson
    cases f.suggestion with
    | none => cases f.related <;> rfl
    | some s => rfl
  related := by
    refine ⟨f.related.map relatedJson, ?_, ?_⟩
    · rw [List.forall₂_map_right_iff]
      exact List.forall₂_same.mpr fun o _ => o.isShown_relatedJson
    · unfold findingJson
      cases f.suggestion <;> cases f.related <;> rfl

/-! ### Places -/

/-- A finding lies in the text, with or without a journal. -/
theorem span_stop_le_of_mem_findings {source : Option String} {text : String} {checked : Checked}
    (hcheck : check source text = .ok checked) {f : Finding} (hf : f ∈ checked.findings) :
    f.span.stop ≤ text.toList.length := by
  rcases hj : (Reading.ofText text.toList).journal with _ | j
  · rw [check_of_none hj (length_le_of_check hcheck)] at hcheck
    rw [← Except.ok.inj hcheck, Checked.findings, List.append_nil] at hf
    obtain ⟨fault, hfault, rfl⟩ := List.mem_map.mp hf
    obtain ⟨-, -, haccounts, -⟩ := Reading.accountsFor_ofText text.toList
    exact haccounts.inside fault hfault
  · exact (hasPiece_of_mem_findings hj hcheck hf List.mem_cons_self).stop_le_length hj

/-! ### Reports -/

/-- What stands between two findings of a report: a line feed, or two of them. -/
def ReportFormat.feeds : ReportFormat → List Char
  | .fancy => ['\n', '\n']
  | _ => ['\n']

namespace Report

/-- A report of findings can be taken apart: what stands between two of them stands nowhere else, so
cutting there gives each of them back as it was written, in order. An object that was written can be
read, and shows its finding. -/
structure ComesApart (r : Report) (ix : LineIndex) (fs : List Finding) : Prop where
  feeds : occurrences r.format.feeds (r.render ix fs).toList + 1 = fs.length
  pieces : cutAt r.format.feeds (r.render ix fs).toList = fs.map fun f => (r.finding ix f).toList
  objects : r.format = .json → ∀ f ∈ fs, ∃ v, Json.read (r.finding ix f).toList = some v ∧
    f.IsShown r ix v

variable (r : Report)

theorem toList_separator : r.separator.toList = r.format.feeds := by
  unfold separator ReportFormat.feeds
  cases r.format <;> rfl

theorem feeds_ne_nil : r.format.feeds ≠ [] := by
  cases r.format <;> exact List.cons_ne_nil _ _

theorem toList_render (ix : LineIndex) (fs : List Finding) : (r.render ix fs).toList =
    r.format.feeds.intercalate (fs.map fun f => (r.finding ix f).toList) := by
  rw [render, String.toList_intercalate, toList_separator, List.map_map]
  rfl

/-- **A finding is not cut**, in no format. -/
theorem isSeparable_finding {f : Finding} {uri : String} {ix : LineIndex}
    (hf : f.issue.IsInRows uri) (hname : IsRow r.fileName) (huri : r.format = .fancy → IsRow uri)
    (hix : ∀ line, '\n' ∉ ix.lineText line) :
    IsSeparable r.format.feeds (r.finding ix f).toList := by
  unfold finding
  cases hformat : r.format with
  | oneline => exact isSeparable_singleton.mpr (r.isRow_oneline ix hf hname)
  | fancy =>
    obtain ⟨rows, hne, hrows, hfancy⟩ := r.exists_rows ix hf hname (huri hformat) hix
    show IsSeparable ['\n', '\n'] (r.fancy ix f).toList
    rw [hfancy, String.toList_intercalate]
    refine isSeparable_intercalate (by simpa using hne) fun chars hchars => ?_
    obtain ⟨row, hrow, rfl⟩ := List.mem_map.mp hchars
    exact ⟨(hrows row hrow).ne_nil, (hrows row hrow).isRow⟩
  | json =>
    refine isSeparable_singleton.mpr ?_
    rw [Json.render, String.toList_ofList]
    exact Json.feed_notMem_write _

theorem comesApart_of_check {source : Option String} {text : String} {checked : Checked}
    (hcheck : check source text = .ok checked) (hne : checked.findings ≠ [])
    (hname : IsRow r.fileName) (huri : r.format = .fancy → IsRow (source.getD "")) :
    r.ComesApart (LineIndex.ofText text.toList) checked.findings := by
  have hnil : (checked.findings.map fun f => (r.finding (LineIndex.ofText text.toList) f).toList) ≠
      [] := List.map_eq_nil_iff.not.mpr hne
  have hpieces : ∀ piece ∈ checked.findings.map fun f =>
      (r.finding (LineIndex.ofText text.toList) f).toList, IsSeparable r.format.feeds piece := by
    intro piece hpiece
    obtain ⟨f, hf, rfl⟩ := List.mem_map.mp hpiece
    exact r.isSeparable_finding (isInRows_of_mem_findings hcheck hf) hname huri
      LineIndex.feed_notMem_lineText
  refine ⟨?_, ?_, fun hformat f hf => ⟨r.findingJson (LineIndex.ofText text.toList) f, ?_, ?_⟩⟩
  · rw [toList_render, occurrences_intercalate r.feeds_ne_nil hnil hpieces, List.length_map]
  · rw [toList_render, cutAt_intercalate r.feeds_ne_nil hnil hpieces]
  · simp only [finding, hformat, Json.render, String.toList_ofList]
    exact Json.read_write _
  · exact r.isShown_findingJson
      (f.span.start_le_stop.trans (span_stop_le_of_mem_findings hcheck hf))

/-- **The findings of every text can be told apart in a report.** A text that is not too long, and
whose source has no bad host, is checked, and the report of what is found can be taken apart. In an
excerpt the source is quoted, so it may not hold a line feed there. -/
theorem render_comesApart (source : Option String) (text : String) {fileDate : Option Date}
    (hsize : text.length ≤ Journal.defaultLimit) (hsource : Location.date? source = .ok fileDate)
    (hname : IsRow r.fileName) (huri : r.format = .fancy → ∀ s ∈ source, IsRow s) :
    ∃ checked, check source text = .ok checked ∧ (checked.findings ≠ [] →
      r.ComesApart (LineIndex.ofText text.toList) checked.findings) := by
  obtain ⟨checked, hcheck⟩ : ∃ checked, check source text = .ok checked := by
    rcases hj : (Reading.ofText text.toList).journal with _ | j
    · exact ⟨_, check_of_none hj hsize⟩
    · exact ⟨_, check_eq hsource hj hsize⟩
  refine ⟨checked, hcheck, fun hne => r.comesApart_of_check hcheck hne hname fun hformat => ?_⟩
  cases source with
  | none => exact (by decide : IsRow "")
  | some s => exact huri hformat s rfl

end Report

/-- A text with a stray line in its front matter, a bad minute, a bad duration, a jump, and a line that
is no entry; its lines end in carriage returns, and one of them holds another separator. -/
def noisyText : String :=
  "---\r\ndate: 2024-01-03\r\nend: 9:60\r\nlunch\r\n---\r\n- 9:00-10:00 1.00 a\r\n" ++
    "- 10:30-24:00 OPS 1..5 b\u2028c\n- 11:00 d"

/-- Seven findings, told apart in color and as objects. -/
theorem Report.render_comesApart_noisyText : ∃ checked,
    check (some "file:///2024-01-04.md") noisyText = .ok checked ∧
    checked.findings.map Finding.rule = [.parseError, .parseError, .parseError, .dateMismatch,
      .invalidStop, .missingStart, .timeJumped] ∧
    (⟨.fancy, true, "2024-01-04.md"⟩ : Report).ComesApart (LineIndex.ofText noisyText.toList)
      checked.findings ∧
    (⟨.json, false, "2024-01-04.md"⟩ : Report).ComesApart (LineIndex.ofText noisyText.toList)
      checked.findings := by
  have hsize : noisyText.length ≤ Journal.defaultLimit := by decide +kernel
  have hsource : Location.date? (some "file:///2024-01-04.md") =
      .ok (some ⟨2024, 1, 4, by decide, by decide, by decide⟩) := by decide +kernel
  have huri : ∀ s ∈ some "file:///2024-01-04.md", IsRow s := by
    intro s hs
    rw [← Option.some.inj hs]
    decide
  obtain ⟨checked, hcheck, hfancy⟩ := render_comesApart ⟨.fancy, true, "2024-01-04.md"⟩ _ noisyText
    hsize hsource (by decide) fun _ => huri
  obtain ⟨again, hagain, hjson⟩ := render_comesApart ⟨.json, false, "2024-01-04.md"⟩ _ noisyText
    hsize hsource (by decide) nofun
  obtain rfl := Except.ok.inj (hcheck.symm.trans hagain)
  have hrules : (check (some "file:///2024-01-04.md") noisyText).toOption.map
      (fun checked => checked.findings.map Finding.rule) = some [.parseError, .parseError, .parseError,
        .dateMismatch, .invalidStop, .missingStart, .timeJumped] := by decide +kernel
  rw [hcheck] at hrules
  have hrules := Option.some.inj hrules
  have hne : checked.findings ≠ [] := by
    intro hnil
    simp [hnil] at hrules
  exact ⟨checked, hcheck, hrules, hfancy hne, hjson hne⟩

end TimeJournal
