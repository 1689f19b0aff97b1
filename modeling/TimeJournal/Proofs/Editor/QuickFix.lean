import TimeJournal.Editor
import TimeJournal.Proofs.Edit.Suggestion
import TimeJournal.Proofs.Text.LineIndex

/-! # Quick fixes

A finding with a suggested text is offered to an editor together with one command. Called at the range
of the finding, the command makes one edit, the suggested one, and after it the finding is gone.

* `Setting.eq_of_partSpan?`: of the parts that a command can set, only one begins at an offset.
* `ne_start_of_settles`: after an edit the rule of its command finds nothing there.
* `Editor.quickFix_of_check`: this, for every finding of a check. -/

namespace TimeJournal

open Lint

/-! ### One part at an offset -/

namespace Journal

variable {j : Journal}

/-- Entries that hold parts with the same start are the same. -/
theorem IsLaidOut.eq_of_start_eq (h : j.IsLaidOut) {a b : Entry} (ha : a ∈ j.entries)
    (hb : b ∈ j.entries) {s t : Span} (hs : a.span.start < s.start ∧ s.stop ≤ a.span.stop)
    (ht : b.span.start < t.start ∧ t.stop ≤ b.span.stop) (hstart : s.start = t.start) : a = b := by
  have hapart : j.entries.Pairwise fun a b =>
      a.span.stop ≤ b.span.start ∨ b.span.stop ≤ a.span.start :=
    h.pairwise.imp fun hle => Or.inl hle
  have : Std.Symm fun a b : Entry => a.span.stop ≤ b.span.start ∨ b.span.stop ≤ a.span.start :=
    ⟨fun _ _ => Or.symm⟩
  by_contra hne
  have hle := s.start_le_stop
  have hle' := t.start_le_stop
  rcases hapart.forall ha hb hne with hfirst | hfirst
  · omega
  · omega

end Journal

/-- The start time and the duration of an entry lie behind the front of it. -/
theorem Entry.IsLaidOut.within_duration {e : Entry} (h : e.IsLaidOut) {d : Duration}
    (hd : e.duration.part? = some d) :
    e.span.start < d.span.start ∧ d.span.stop ≤ e.span.stop := by
  have hlt := h.lt_start
  have hle := e.start.span.start_le_stop
  have hduration := h.lt_duration d hd
  exact ⟨by omega, h.duration_le d hd⟩

/-- **Only one part that a command can set begins at an offset.** -/
theorem Setting.eq_of_partSpan? {j : Journal} (hj : j.IsLaidOut) {x y : Setting}
    (hcommand : x.command = y.command) {a b : Span} (hx : j.partSpan? x = some a)
    (hy : j.partSpan? y = some b) (hstart : a.start = b.start) : a = b := by
  cases x <;> cases y <;> try cases hcommand
  case date.date => exact Option.some.inj (hx.symm.trans hy)
  case start.start =>
    obtain ⟨e, he, rfl⟩ := Option.map_eq_some_iff.mp hx
    obtain ⟨e', he', rfl⟩ := Option.map_eq_some_iff.mp hy
    have hmem := Journal.mem_entries_of_entryAt? he
    have hmem' := Journal.mem_entries_of_entryAt? he'
    have hlaid := hj.entry e hmem
    have hlaid' := hj.entry e' hmem'
    rw [hj.eq_of_start_eq hmem hmem' ⟨hlaid.lt_start, hlaid.start_le⟩
      ⟨hlaid'.lt_start, hlaid'.start_le⟩ hstart]
  case duration.duration =>
    obtain ⟨e, he, hpart⟩ := Option.bind_eq_some_iff.mp hx
    obtain ⟨e', he', hpart'⟩ := Option.bind_eq_some_iff.mp hy
    obtain ⟨d, hd, rfl⟩ := Option.map_eq_some_iff.mp hpart
    obtain ⟨d', hd', rfl⟩ := Option.map_eq_some_iff.mp hpart'
    have hmem := Journal.mem_entries_of_entryAt? he
    have hmem' := Journal.mem_entries_of_entryAt? he'
    obtain rfl := hj.eq_of_start_eq hmem hmem' ((hj.entry e hmem).within_duration hd)
      ((hj.entry e' hmem').within_duration hd') hstart
    rw [Option.some.inj (hd.symm.trans hd')]

/-! ### The finding is gone -/

/-- **After an edit the rule of its command finds nothing at its offset.** A finding there would be
on the part that was set, where the command would have an edit, but it has nothing to do. -/
theorem ne_start_of_settles {s : List Char} {j : Journal} {source : Option String}
    (settings : Settings) (hs : Location.date? source = .ok settings.fileDate)
    (ht : settings.tolerance = defaultTolerance) {c : Command} {x : Setting} {edit : TextEdit}
    (h : Command.Settles c s j source x edit) {f : Finding}
    (hf : f ∈ declared settings ((j.set x).move edit.move))
    (hc : Command.ofRule f.rule = some c) : f.span.start ≠ edit.span.start := by
  intro hstart
  have hj := h.rereads.journal
  obtain ⟨new, hedit⟩ := Finding.exists_edit hc
  obtain ⟨c', hc', he⟩ := execute_eq_edit settings hj hs ht hf hedit
  obtain rfl := Option.some.inj (hc.symm.trans hc')
  obtain ⟨y, hy⟩ := Command.exists_settles hj he
  have hpart : ((j.set x).move edit.move).partSpan? x = some edit.newSpan := by
    rw [Journal.partSpan?_move, Journal.partSpan?_set, h.span, Option.map_some,
      TextEdit.move_span h.rereads.start_lt_stop]
  have hspan : f.span = edit.newSpan :=
    Setting.eq_of_partSpan? (isLaidOut_of_ofText hj) (hy.command.trans h.command.symm) hy.span hpart
      hstart
  have hagain := h.again
  rw [← hspan, he] at hagain
  cases hagain

/-! ### Positions of an editor -/

namespace Editor

open Text

/-- A range as an editor sends it back. -/
def SentRange.ofRange (r : Range) : SentRange :=
  ⟨some ⟨some r.start.line, some r.start.character⟩, some ⟨some r.stop.line, some r.stop.character⟩⟩

/-- What an editor sends has the span of the range that is sent. -/
theorem toSpan_of_toSpan? {ix : LineIndex} {r : Range} {s : Span}
    (h : ix.toSpan? (r.start.line, r.start.character) (r.stop.line, r.stop.character) = .ok s) :
    (SentRange.ofRange r).toSpan ix = .ok s := by
  unfold SentRange.toSpan SentRange.ofRange
  dsimp only [required, bind, Except.bind]
  rw [h]

/-- The range of a span of a text is sent back as this span. -/
theorem toSpan_ofRange {text : List Char} {s : Span} (h : s.stop ≤ text.length) :
    (SentRange.ofRange ((LineIndex.ofText text).toRange s)).toSpan (LineIndex.ofText text) =
      .ok s :=
  toSpan_of_toSpan? (LineIndex.toSpan?_toRange text h)

theorem parse_id_rule (r : Rule) : Rule.parse r.id = .ok r := by
  cases r <;> decide

theorem parse_id_command (c : Command) : Command.parse c.id = .ok c := by
  cases c <;> decide

/-- A rule has the action of its command, and no other. -/
theorem actions_id {ρ : Type} (uri : String) (range : ρ) (r : Rule) :
    actions uri range [some r.id] =
      (Command.ofRule r).toList.map fun c => ⟨c.title, c.id, uri, range⟩ := by
  show [some r.id].flatMap _ = _
  rw [List.flatMap_singleton, Option.map_some, parse_id_rule]
  cases r <;> rfl

/-! ### Quick fixes -/

/-- What is made of a finding with a suggested text `new` in a text that was checked: its command
gives the suggested edit, is the one action that an editor offers, gives the same edit at the range
that the editor sends back, and the finding is gone after it. -/
structure IsQuickFix (uri text : String) (checked : Checked) (f : Finding) (new : String)
    (c : Command) : Prop where
  command : Command.ofRule f.rule = some c
  execute : ∃ j, checked.journal = some j ∧
    c.execute j f.span (some uri) = .ok (some ⟨f.span, new⟩) ∧
    applyCommand c.id j (LineIndex.ofText text.toList) uri
      (.ofRange (Diagnostic.ofFinding (LineIndex.ofText text.toList) f).range) =
        .ok (some ⟨c.title, uri, (LineIndex.ofText text.toList).toRange f.span, new⟩)
  range : (SentRange.ofRange ((LineIndex.ofText text.toList).toRange f.span)).toSpan
    (LineIndex.ofText text.toList) = .ok f.span
  actions : ∀ {ρ : Type} (range : ρ), Editor.actions uri range
    [some (Diagnostic.ofFinding (LineIndex.ofText text.toList) f).code] =
      [⟨c.title, c.id, uri, range⟩]
  gone : ∃ after, TextEdit.apply ⟨f.span, new⟩ text = .ok after ∧
    (after.length ≤ Journal.defaultLimit → ∃ again, check (some uri) after = .ok again ∧
      ∀ g ∈ again.findings, g.rule = f.rule → g.span.start ≠ f.span.start)

theorem exists_isQuickFix {uri text : String} {fileDate : Option Date} {checked : Checked}
    (hs : Location.date? (some uri) = .ok fileDate) (hc : check (some uri) text = .ok checked)
    {f : Finding} (hf : f ∈ checked.findings) {new : String} (hnew : f.suggestion = some new) :
    ∃ c, IsQuickFix uri text checked f new c := by
  have hedit : f.edit? = some ⟨f.span, new⟩ := by rw [Finding.edit?, hnew]; rfl
  obtain ⟨j, hjournal, hj, hmem⟩ := exists_of_mem_check hs hc hf hedit
  set settings : Settings := ⟨(some uri).getD "", fileDate, defaultTolerance⟩
  obtain ⟨c, hcommand, he⟩ := execute_eq_edit settings hj hs rfl hmem hedit
  obtain ⟨x, hx⟩ := Command.exists_settles hj he
  have hrange := toSpan_ofRange hx.rereads.stop_le_length
  refine ⟨c, hcommand, ⟨j, hjournal, he, ?_⟩, hrange, fun range => ?_, ?_⟩
  · unfold applyCommand
    rw [parse_id_command]
    dsimp only [Diagnostic.ofFinding]
    rw [hrange]
    dsimp only
    rw [he]
  · dsimp only [Diagnostic.ofFinding]
    rw [actions_id, hcommand]
    rfl
  · obtain ⟨after, happly, hafter, -⟩ := hx.exists_apply
    refine ⟨after, happly, fun hsize => ?_⟩
    have hj' := hx.rereads.journal
    rw [← hafter] at hj'
    refine ⟨_, check_eq hs hj' hsize, fun g hg hrule => ?_⟩
    have hcommand' : Command.ofRule g.rule = some c := by rw [hrule, hcommand]
    obtain ⟨new', hedit'⟩ := Finding.exists_edit hcommand'
    exact ne_start_of_settles settings hs rfl hx (mem_of_mem_findings hg hedit')
      hcommand'

/-- **Findings, commands and quick fixes agree.** A finding of a check has a suggested text exactly if
there is a command for its rule; then the command is the quick fix, and otherwise there is no
action. -/
theorem quickFix_of_check {uri text : String} {fileDate : Option Date} {checked : Checked}
    (hs : Location.date? (some uri) = .ok fileDate) (hc : check (some uri) text = .ok checked)
    {f : Finding} (hf : f ∈ checked.findings) :
    (f.suggestion.isSome = true ↔ (Command.ofRule f.rule).isSome = true) ∧
    (∀ new, f.suggestion = some new → ∃ c, IsQuickFix uri text checked f new c) ∧
    (f.suggestion = none → ∀ {ρ : Type} (range : ρ), actions uri range
      [some (Diagnostic.ofFinding (LineIndex.ofText text.toList) f).code] = []) := by
  refine ⟨f.isSome_suggestion_iff, fun new hnew => exists_isQuickFix hs hc hf hnew,
    fun hnone ρ range => ?_⟩
  have hcommand : Command.ofRule f.rule = none := Finding.ofRule_eq_none hnone
  dsimp only [Diagnostic.ofFinding]
  rw [actions_id, hcommand]
  rfl

/-- A day whose second entry starts half an hour after the first one stopped. -/
def jumpText : String :=
  "---\r\ndate: 2024-01-03\r\n---\r\n- 09:00-10:00 1.00 read\r\n- 10:30-11:00 0.50 write\r\n"

theorem quickFix_of_check_jumpText : ∃ checked f c,
    check (some "file:///notes/2024-01-03.md") jumpText = .ok checked ∧ f ∈ checked.findings ∧
      f.suggestion = some "10:00" ∧
      IsQuickFix "file:///notes/2024-01-03.md" jumpText checked f "10:00" c := by
  have hs : Location.date? (some "file:///notes/2024-01-03.md") =
      .ok (some ⟨2024, 1, 3, by decide, by decide, by decide⟩) := by decide +kernel
  have hfinding : (check (some "file:///notes/2024-01-03.md") jumpText).toOption.map
      (fun checked => decide (∃ f ∈ checked.findings, f.suggestion = some "10:00")) =
        some true := by decide +kernel
  obtain ⟨checked, hchecked, hexists⟩ := Option.map_eq_some_iff.mp hfinding
  obtain ⟨f, hf, hnew⟩ := of_decide_eq_true hexists
  have hc : check (some "file:///notes/2024-01-03.md") jumpText = .ok checked := by
    rcases hcheck : check (some "file:///notes/2024-01-03.md") jumpText with fault | other
    · rw [hcheck] at hchecked
      cases hchecked
    · rw [hcheck] at hchecked
      exact congrArg _ (Option.some.inj hchecked)
  obtain ⟨c, hquick⟩ := (quickFix_of_check hs hc hf).2.1 "10:00" hnew
  exact ⟨checked, f, c, hc, hf, hnew, hquick⟩

end Editor

end TimeJournal
