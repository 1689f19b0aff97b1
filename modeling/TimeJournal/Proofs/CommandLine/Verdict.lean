import TimeJournal.Proofs.CommandLine.InPlace

/-! # The verdict of a run

What a run finds depends on the text of its file, on whether the file is fixed first, and on the
rules that are asked for. All other options only say how that is shown.

* `Location.isUri_toText`: the name of a file is no URI, so nothing but its size keeps the text of a
  file from being checked (`exists_check`).
* `mem_rules_iff`: a finding is selected by the identifier of its rule.
* `execute_verdict`: the exit code of a run and what it writes, and what two runs have in common. -/

namespace TimeJournal

/-! ### Names of files -/

namespace Location

theorem notMem_of_mem_splitSlashes {s part : List Char} (h : part ∈ splitSlashes s) :
    '/' ∉ part := by
  unfold splitSlashes at h
  induction s generalizing part with
  | nil =>
    rw [List.splitOn_nil, List.mem_singleton] at h
    rw [h]
    exact List.not_mem_nil
  | cons c s ih =>
    rw [List.splitOn_cons_eq_if_modifyHead] at h
    rcases hparts : s.splitOn '/' with _ | ⟨p, ps⟩
    · exact absurd hparts (List.splitOn_ne_nil _ _)
    rw [hparts] at h ih
    split_ifs at h with hc
    · rcases List.mem_cons.mp h with rfl | h
      · exact List.not_mem_nil
      · exact ih h
    · rcases List.mem_cons.mp h with rfl | h
      · rw [List.mem_cons, not_or]
        exact ⟨fun hslash => hc (by rw [hslash]; exact beq_self_eq_true c), ih List.mem_cons_self⟩
      · exact ih (List.mem_cons_of_mem _ h)

theorem isUri_of_notMem {s : List Char} (h : '/' ∉ s) : isUri s = false := by
  induction s with
  | nil => rfl
  | cons c s ih =>
    have hs : '/' ∉ s := fun hmem => h (List.mem_cons_of_mem c hmem)
    rw [isUri, ih hs, Bool.or_false]
    rcases s with _ | ⟨d, s⟩
    · simp [List.isPrefixOf]
    · have hd : ¬ '/' = d := fun hd => hs (hd ▸ List.mem_cons_self)
      simp [List.isPrefixOf, hd]

/-- A single slash does not make a URI. -/
theorem isUri_append {p t : List Char} (hp : '/' ∉ p) (ht : t.head? ≠ some '/') :
    isUri (p ++ '/' :: t) = isUri t := by
  induction p with
  | nil => simp [isUri]
  | cons c p ih =>
    have hp' : '/' ∉ p := fun hmem => hp (List.mem_cons_of_mem c hmem)
    rw [List.cons_append, isUri, ih hp', Bool.or_eq_right_iff_imp]
    intro h
    exfalso
    rcases p with _ | ⟨d, p⟩
    · rcases t with _ | ⟨e, t⟩
      · simp [List.isPrefixOf] at h
      · obtain ⟨-, he⟩ : ':' = c ∧ '/' = e := by simpa [List.isPrefixOf] using h
        exact ht (congrArg some he.symm)
    · have hd : ¬ '/' = d := fun hd => hp' (hd ▸ List.mem_cons_self)
      simp [List.isPrefixOf, hd] at h

/-- Parts that are joined by slashes make no URI, and no slash stands in front of them. -/
theorem isUri_intercalate {parts : List (List Char)} (h : ∀ p ∈ parts, p ≠ [] ∧ '/' ∉ p) :
    isUri (['/'].intercalate parts) = false ∧ (['/'].intercalate parts).head? ≠ some '/' := by
  induction parts with
  | nil => exact ⟨rfl, nofun⟩
  | cons p ps ih =>
    obtain ⟨hne, hp⟩ := h p List.mem_cons_self
    obtain ⟨huri, hhead⟩ := ih fun q hq => h q (List.mem_cons_of_mem p hq)
    have hfirst : ∀ t, (p ++ t).head? ≠ some '/' := by
      intro t hslash
      rw [List.head?_append_of_ne_nil _ hne] at hslash
      exact hp (List.mem_of_head? hslash)
    rcases ps with _ | ⟨q, qs⟩
    · rw [List.intercalate_singleton]
      exact ⟨isUri_of_notMem hp, by simpa using hfirst []⟩
    · rw [List.intercalate_cons_cons, List.append_assoc]
      exact ⟨(isUri_append hp hhead).trans huri, hfirst _⟩

/-- **The text of a path is no URI**: only at its front do two slashes follow one another. -/
theorem isUri_toText (s : List Char) : isUri (Path.ofText s).toText = false := by
  have hparts : ∀ p ∈ (Path.ofText s).parts, p ≠ [] ∧ '/' ∉ p := by
    intro p hp
    obtain ⟨hp, hmeans⟩ := List.mem_filter.mp hp
    exact ⟨by simp_all, notMem_of_mem_splitSlashes hp⟩
  obtain ⟨huri, hhead⟩ := isUri_intercalate hparts
  unfold Path.toText
  split_ifs
  · rfl
  show isUri (Path.rootOf s ++ _) = false
  unfold Path.rootOf
  split
  · exact (isUri_append List.not_mem_nil hhead).trans huri
  · simpa [isUri, List.isPrefixOf] using huri
  · exact (isUri_append List.not_mem_nil hhead).trans huri
  · exact huri

end Location

/-! ### Rules by their identifiers -/

theorem Rule.parse_eq_ok_iff {id : String} {rule : Rule} :
    Rule.parse id = .ok rule ↔ rule.id = id := by
  constructor
  · intro h
    unfold Rule.parse at h
    split at h
    · rename_i r hfind
      obtain rfl := Except.ok.inj h
      simpa using List.find?_some hfind
    · cases h
  · rintro rfl
    cases rule <;> rfl

theorem Rule.id_injective : Function.Injective Rule.id := by
  intro r r' h
  have hparse := Rule.parse_eq_ok_iff.mpr h
  rw [Rule.parse_eq_ok_iff.mpr rfl] at hparse
  exact (Except.ok.inj hparse).symm

namespace CommandLine

open Lint Text

theorem parseRules_eq_ok_iff {ids : List String} {rules : List Rule} :
    parseRules ids = .ok rules ↔ rules.map Rule.id = ids := by
  induction ids generalizing rules with
  | nil => simp [parseRules, eq_comm]
  | cons id ids ih =>
    rw [List.map_eq_cons_iff]
    constructor
    · intro h
      unfold parseRules at h
      rcases hrule : Rule.parse id with fault | rule
      · rw [hrule] at h
        cases h
      rcases hrest : parseRules ids with fault | rest
      · rw [hrule, hrest] at h
        cases h
      rw [hrule, hrest] at h
      exact ⟨rule, rest, (Except.ok.inj h).symm, Rule.parse_eq_ok_iff.mp hrule, ih.mp hrest⟩
    · rintro ⟨rule, rest, rfl, hrule, hrest⟩
      unfold parseRules
      rw [Rule.parse_eq_ok_iff.mpr hrule, ih.mpr hrest]

/-- Whether the options name rules that there are. -/
def Options.KnowsRules (o : Options) : Prop := ∀ id ∈ o.rules, ∃ rule : Rule, rule.id = id

theorem Options.knowsRules_iff {o : Options} :
    o.KnowsRules ↔ ∃ rules, parseRules o.rules = .ok rules := by
  have hrange : o.KnowsRules ↔ o.rules ∈ Set.range (List.map Rule.id) := by
    rw [Set.range_list_map]
    rfl
  rw [hrange]
  exact exists_congr fun rules => parseRules_eq_ok_iff.symm

/-- Whether the options ask for a finding: its rule is named, or no rule is. -/
def Options.Selects (o : Options) (f : Finding) : Prop := o.rules = [] ∨ f.rule.id ∈ o.rules

instance (o : Options) : DecidablePred o.Selects := fun f =>
  inferInstanceAs (Decidable (o.rules = [] ∨ f.rule.id ∈ o.rules))

/-- The order in which rules are named, and how often, does not matter. -/
theorem Options.selects_congr {o o' : Options} (h : ∀ id, id ∈ o'.rules ↔ id ∈ o.rules)
    (f : Finding) : o'.Selects f ↔ o.Selects f := by
  rw [Selects, Selects, List.eq_nil_iff_forall_not_mem, List.eq_nil_iff_forall_not_mem, h]
  simp only [h]

theorem selected_eq_filter {o : Options} {rules : List Rule} (h : parseRules o.rules = .ok rules)
    (fs : List Finding) : selected rules fs = fs.filter o.Selects := by
  have hids := parseRules_eq_ok_iff.mp h
  unfold selected
  rcases rules with _ | ⟨rule, rules⟩
  · have hall : ∀ f ∈ fs, decide (o.Selects f) = true :=
      fun f _ => decide_eq_true (Or.inl hids.symm)
    rw [List.filter_eq_self.mpr hall]
    rfl
  · refine List.filter_congr fun f _ => ?_
    rw [List.contains_eq_mem, decide_eq_decide, Options.Selects, ← hids,
      List.mem_map_of_injective Rule.id_injective]
    simp

/-! ### Texts that are checked -/

/-- Nothing but its size keeps the text of a file from being checked. -/
theorem exists_check (o : Options) {text : String} (hsize : text.length ≤ Journal.defaultLimit) :
    ∃ checked, check (some o.name) text = .ok checked := by
  have huri : Location.isUri o.name.toList = false := by
    rw [Options.name, String.toList_ofList]
    exact Location.isUri_toText o.file.toList
  rcases hcheck : check (some o.name) text with fault | checked
  · obtain ⟨-, f, ⟨s, hs, hbad, -⟩, -⟩ := (check_eq_error_iff hsize).mp hcheck
    rw [← Option.some.inj hs, huri] at hbad
    cases hbad
  · exact ⟨checked, rfl⟩

/-- How many rounds a run fixes its file: none unless that is asked for. -/
def Options.rounds (o : Options) : ℕ := if o.fix then defaultRounds else 0

/-- Nothing but its size keeps the text of a file from being fixed. -/
theorem exists_fix (o : Options) {text : String} {rounds : ℕ}
    (hsize : ∀ n ≤ rounds, ∀ after applied, (fix text (some o.name) n).2 = .ok (after, applied) →
      after.length ≤ Journal.defaultLimit) :
    ∃ final applied, (fix text (some o.name) rounds).2 = .ok (final, applied) ∧
      final.length ≤ Journal.defaultLimit := by
  have hread : text.length ≤ Journal.defaultLimit := hsize 0 rounds.zero_le text 0 fix_zero
  rcases hj : (Reading.ofText text.toList).journal with _ | j
  · exact ⟨text, 0, fix_of_none hj hread rounds, hread⟩
  obtain ⟨checked, hcheck⟩ := exists_check o hread
  obtain ⟨fileDate, hs, -⟩ := exists_of_check hcheck hj
  obtain ⟨notes, hloop⟩ := exists_fixLoop hs rounds (f := ⟨text, 0, []⟩) hj
    (length_applyAll_le hs hj fun n hn => hsize n hn.le)
  have hfix := fix_of_fixLoop hloop
  exact ⟨_, _, hfix, hsize rounds le_rfl _ _ hfix⟩

/-! ### Runs -/

/-- Whether a run gets to the text of its file: it knows its rules, and the file can be read. -/
structure Options.Reads (o : Options) (state : FileState) (text : String) : Prop where
  rules : o.KnowsRules
  name : '\x00' ∉ o.name.toList
  text : state.text = .ok text

/-- What a run reports in some format, in color or not, on a text and what a check has found in it:
the findings that it is asked for, with a line feed behind them, or nothing if there are none. -/
def Options.report (o : Options) (format : ReportFormat) (color : Bool) (text : String)
    (checked : Checked) : String :=
  if ∃ f ∈ checked.findings, o.Selects f then
    Report.render ⟨format, color, o.name⟩ (LineIndex.ofText text.toList)
      (checked.findings.filter o.Selects) ++ "\n"
  else ""

/-- What a run shows of a text and of what a check has found in it. A report is in color if that is
asked for on the console that it goes to. -/
structure Options.Shows (o : Options) (console : Console) (text : String) (checked : Checked)
    (outcome : Outcome) : Prop where
  exit : outcome.exit = if ∃ f ∈ checked.findings, o.Selects f then 1 else 0
  report : o.exportAs = none →
    outcome.stdout =
      o.report o.format (o.color.isOn console.stdoutIsTerminal console.noColor) text checked ∧
    ∃ notes, outcome.stderr = logText o.verbosity notes
  exported : ∀ format, o.exportAs = some format →
    outcome.stdout = (checked.journal.elim "" fun j => (j.export format o.split).output) ∧
    ∃ before after, outcome.stderr = logText o.verbosity before ++
      o.report .oneline (o.color.isOn console.stderrIsTerminal console.noColor) text checked ++
        logText o.verbosity after

variable {console : Console}

theorem Options.Reads.execute {o : Options} {state : FileState} {text : String}
    (h : o.Reads state text) : ∃ rules, parseRules o.rules = .ok rules ∧
      execute console o state = .ok (runText console o rules o.name text) := by
  obtain ⟨rules, hrules⟩ := Options.knowsRules_iff.mp h.rules
  exact ⟨rules, hrules, execute_of_text hrules h.name h.text⟩

/-- The stage of fixing hands on the text that fixing gives. -/
theorem exists_fixStage {o : Options} {name text final : String} {applied : ℕ}
    (h : (fix text (some name) o.rounds).2 = .ok (final, applied)) :
    ∃ fixed, fixStage o name text = .ok fixed ∧ fixed.text = final := by
  unfold Options.rounds at h
  unfold fixStage
  split_ifs at h ⊢ with hfix
  · rcases hboth : TimeJournal.fix text (some name) defaultRounds with ⟨notes, result⟩
    rw [hboth] at h
    subst h
    dsimp only
    split_ifs with hcount
    · exact ⟨_, rfl, rfl⟩
    · exact ⟨_, rfl, rfl⟩
  · obtain ⟨rfl, -⟩ := Prod.mk.inj (Except.ok.inj (fix_zero.symm.trans h))
    exact ⟨_, rfl, rfl⟩

/-- The exit code for what a check finds in a text. -/
def exitOf (rules : List Rule) (name text : String) : ℕ :=
  match check (some name) text with
  | .error _ => 74
  | .ok checked => if (selected rules checked.findings).isEmpty then 0 else 1

theorem exit_reportStage (o : Options) (rules : List Rule) (name text : String)
    (checked : Checked) : (reportStage console o rules name text checked).exit =
      if (selected rules checked.findings).isEmpty then 0 else 1 := by
  unfold reportStage
  rcases o.exportAs with _ | format
  · rfl
  · rcases checked.journal with _ | j
    · rfl
    · rfl

/-- **The exit code of a run is that for the fixed text**, whatever was fixed in it. -/
theorem exit_runText {o : Options} {rules : List Rule} {name text : String} {fixed : Fixed}
    (h : fixStage o name text = .ok fixed) :
    (runText console o rules name text).exit = exitOf rules name fixed.text := by
  unfold runText exitOf
  rw [h]
  dsimp only
  rcases check (some name) fixed.text with fault | checked
  · rfl
  · exact exit_reportStage o rules name fixed.text checked

/-! ### What a run shows -/

section Shows

variable {o : Options} {rules : List Rule} (text : String) (checked : Checked)

theorem isEmpty_selected (hrules : parseRules o.rules = .ok rules) (fs : List Finding) :
    (selected rules fs).isEmpty = true ↔ ¬ ∃ f ∈ fs, o.Selects f := by
  rw [selected_eq_filter hrules]
  simp [List.isEmpty_iff, List.filter_eq_nil_iff]

/-- What a run reports is the report on the findings that it is asked for. -/
theorem reportText_selected (hrules : parseRules o.rules = .ok rules) (format : ReportFormat)
    (color : Bool) : reportText ⟨format, color, o.name⟩ (LineIndex.ofText text.toList)
      (selected rules checked.findings) = o.report format color text checked := by
  unfold reportText Options.report
  rw [if_congr (isEmpty_selected hrules checked.findings) rfl rfl, ite_not,
    selected_eq_filter hrules]

/-- Without an export a report goes to the standard output. -/
theorem reportStage_of_none (hrules : parseRules o.rules = .ok rules) (h : o.exportAs = none) :
    (reportStage console o rules o.name text checked).stdout =
        o.report o.format (o.color.isOn console.stdoutIsTerminal console.noColor) text checked ∧
      (reportStage console o rules o.name text checked).stderr = "" := by
  unfold reportStage
  dsimp only
  rw [h]
  exact ⟨reportText_selected text checked hrules o.format _, rfl⟩

/-- An export takes the standard output, so a report goes to the other stream. -/
theorem reportStage_of_some (hrules : parseRules o.rules = .ok rules) {format : ExportFormat}
    (h : o.exportAs = some format) :
    (reportStage console o rules o.name text checked).stdout =
        (checked.journal.elim "" fun j => (j.export format o.split).output) ∧
      ∃ after, (reportStage console o rules o.name text checked).stderr =
        o.report .oneline (o.color.isOn console.stderrIsTerminal console.noColor) text checked ++
          logText o.verbosity after := by
  unfold reportStage
  dsimp only
  rw [h]
  dsimp only
  rw [reportText_selected text checked hrules]
  rcases checked.journal with _ | j
  · exact ⟨rfl, [], (String.append_empty).symm⟩
  · exact ⟨rfl, _, rfl⟩

/-- **A run shows the text that it has fixed**, between the lines of its log. -/
theorem shows_runText {text : String} {checked : Checked} {fixed : Fixed}
    (hrules : parseRules o.rules = .ok rules) (hstage : fixStage o o.name text = .ok fixed)
    (hcheck : check (some o.name) fixed.text = .ok checked) :
    o.Shows console fixed.text checked (runText console o rules o.name text) := by
  set shown := reportStage console o rules o.name fixed.text checked with hshown
  have hrun : runText console o rules o.name text = ⟨shown.exit, shown.stdout,
      logText o.verbosity (fixed.notes ++ checked.notes.map LogNote.fix) ++ shown.stderr,
      fixed.rewritten⟩ := by
    unfold runText
    rw [hstage]
    dsimp only
    rw [hcheck]
  rw [hrun]
  refine ⟨?_, fun hnone => ?_, fun format hformat => ?_⟩
  · dsimp only
    rw [hshown, exit_reportStage, if_congr (isEmpty_selected hrules checked.findings) rfl rfl,
      ite_not]
  · obtain ⟨hstdout, hstderr⟩ := reportStage_of_none fixed.text checked hrules hnone
    refine ⟨hstdout, fixed.notes ++ checked.notes.map LogNote.fix, ?_⟩
    dsimp only
    rw [hshown, hstderr, String.append_empty]
  · obtain ⟨hstdout, after, hstderr⟩ := reportStage_of_some fixed.text checked hrules hformat
    refine ⟨hstdout, fixed.notes ++ checked.notes.map LogNote.fix, after, ?_⟩
    dsimp only
    rw [hshown, hstderr, String.append_assoc]

end Shows

/-- **The verdict of a run does not depend on how it is shown.** A run that reads its file, and comes
upon no text on the way that is too long, checks the text that fixing comes to, or that of the file if
it is not to fix it. It exits with 1 if a finding is selected, and with 0 otherwise, and shows the
selected findings and the export. Any other run on the file that is or is not to fix it likewise,
whatever console it writes to, comes to the same text and the same check. So it has the same exit code
if it names the same rules, and makes the same export if it is asked for in the same way. -/
theorem execute_verdict {o : Options} {state : FileState} {text : String}
    (hreads : o.Reads state text)
    (hsize : ∀ n ≤ o.rounds, ∀ after applied,
      (fix text (some o.name) n).2 = .ok (after, applied) →
        after.length ≤ Journal.defaultLimit) :
    ∃ final applied checked outcome,
      (fix text (some o.name) o.rounds).2 = .ok (final, applied) ∧
      (o.fix = false → final = text) ∧ check (some o.name) final = .ok checked ∧
      execute console o state = .ok outcome ∧ o.Shows console final checked outcome ∧
      ∀ (console' : Console) (o' : Options),
        o'.file = o.file → o'.fix = o.fix → o'.KnowsRules →
        ∃ outcome', execute console' o' state = .ok outcome' ∧
          o'.Shows console' final checked outcome' ∧
          ((∀ id, id ∈ o'.rules ↔ id ∈ o.rules) → outcome'.exit = outcome.exit) ∧
          ∀ format, o.exportAs = some format → o'.exportAs = some format → o'.split = o.split →
            outcome'.stdout = outcome.stdout := by
  obtain ⟨final, applied, hfix, hfinal⟩ := exists_fix o hsize
  obtain ⟨checked, hcheck⟩ := exists_check o hfinal
  -- a run with other options differs only in what it shows
  have hshows : ∀ (console' : Console) (o' : Options),
      o'.file = o.file → o'.fix = o.fix → o'.KnowsRules → ∃ outcome',
        execute console' o' state = .ok outcome' ∧ o'.Shows console' final checked outcome' := by
    intro console' o' hfile hasked hknows
    have hname : o'.name = o.name := by
      rw [Options.name, Options.path, hfile]
      rfl
    have hrounds : o'.rounds = o.rounds := by rw [Options.rounds, Options.rounds, hasked]
    rw [← hname, ← hrounds] at hfix
    rw [← hname] at hcheck
    obtain ⟨rules, hrules, hrun⟩ :=
      Options.Reads.execute ⟨hknows, hname ▸ hreads.name, hreads.text⟩
    obtain ⟨fixed, hstage, rfl⟩ := exists_fixStage hfix
    exact ⟨_, hrun, shows_runText hrules hstage hcheck⟩
  obtain ⟨outcome, hrun, hshown⟩ := hshows console o rfl rfl hreads.rules
  refine ⟨final, applied, checked, outcome, hfix, fun hasked => ?_, hcheck, hrun, hshown,
    fun console' o' hfile hasked hknows => ?_⟩
  · rw [Options.rounds, hasked] at hfix
    exact (Prod.mk.inj (Except.ok.inj (fix_zero.symm.trans hfix))).1.symm
  obtain ⟨outcome', hrun', hshown'⟩ := hshows console' o' hfile hasked hknows
  refine ⟨outcome', hrun', hshown', fun hsame => ?_, fun format hformat hformat' hsplit => ?_⟩
  · rw [hshown'.exit, hshown.exit]
    simp only [Options.selects_congr hsame]
  · rw [(hshown'.exported format hformat').1, (hshown.exported format hformat).1, hsplit]

/-- The options that ask for a file to be fixed and for what is left of two rules. -/
def asking : Options :=
  { fixing "2006-01-02.md" with rules := ["missing-end-time", "time-jumped"] }

/-- The same rules in another order, and a report in another format and in color, with a log. -/
def askingInColor : Options :=
  { asking with
    rules := ["time-jumped", "missing-end-time"], format := .fancy, color := .always,
    verbosity := 2 }

/-- The text has three edits, and a missing time is left, however that is shown. -/
theorem execute_verdict_feedText : ∃ outcome outcome',
    asking.Reads (.content feedText.toUTF8) feedText ∧
    (∀ n ≤ asking.rounds, ∀ after applied,
      (fix feedText (some asking.name) n).2 = .ok (after, applied) →
        after.length ≤ Journal.defaultLimit) ∧
    execute redirected asking (.content feedText.toUTF8) = .ok outcome ∧
    execute ⟨true, true, false⟩ askingInColor (.content feedText.toUTF8) = .ok outcome' ∧
    outcome.exit = 1 ∧ outcome'.exit = 1 ∧
    outcome.stdout = "2006-01-02.md:1:1: missing-end-time Field 'end' is missing\n" := by
  have hno : '\r' ∉ feedText.toList := by decide +kernel
  have hknows : ∀ id ∈ ["time-jumped", "missing-end-time"], ∃ rule : Rule, rule.id = id := by
    intro id hid
    rcases List.mem_pair.mp hid with rfl | rfl
    · exact ⟨.timeJumped, rfl⟩
    · exact ⟨.missingStop, rfl⟩
  have hname : asking.name = "2006-01-02.md" := by decide +kernel
  have hreads : asking.Reads (.content feedText.toUTF8) feedText := by
    refine ⟨fun id hid => hknows id ?_, ?_, ?_⟩
    · exact List.mem_pair.mpr (List.mem_pair.mp hid).symm
    · rw [hname]
      decide +kernel
    · rw [text_content, unifyEndings_eq_self hno]
  have hs : Location.date? (some asking.name) =
      .ok (some ⟨2006, 1, 2, by decide, by decide, by decide⟩) := by
    rw [hname]
    decide +kernel
  have hmap : (Reading.ofText feedText.toList).journal.map
      (Journal.corrections (some ⟨2006, 1, 2, by decide, by decide, by decide⟩)) =
        some [⟨⟨39, 43, by decide⟩, "1.00"⟩, ⟨⟨48, 53, by decide⟩, "11:00"⟩,
          ⟨⟨60, 64, by decide⟩, "1.00"⟩] := by decide +kernel
  obtain ⟨j, hj, hcorrections⟩ := Option.map_eq_some_iff.mp hmap
  have hfits : FitsIn Journal.defaultLimit (asking.rounds + 1) (j.corrections
      (some ⟨2006, 1, 2, by decide, by decide, by decide⟩)) feedText.toList := by
    rw [hcorrections]
    refine fitsIn_of_length ?_
    decide +kernel
  have hsize : ∀ n ≤ asking.rounds, ∀ after applied,
      (fix feedText (some asking.name) n).2 = .ok (after, applied) →
        after.length ≤ Journal.defaultLimit := by
    intro n hn
    exact length_fix_le hs hj hfits n (by omega)
  obtain ⟨final, applied, checked, outcome, -, -, -, hrun, -, hothers⟩ :=
    execute_verdict hreads hsize
  obtain ⟨outcome', hrun', -, hsame, -⟩ := hothers ⟨true, true, false⟩ askingInColor rfl rfl hknows
  have hvalue : execute redirected asking (.content feedText.toUTF8) =
      .ok (runText redirected asking [.missingStop, .timeJumped] asking.name feedText) :=
    execute_of_text (parseRules_eq_ok_iff.mpr rfl) hreads.name hreads.text
  have houtcome := Except.ok.inj (hrun.symm.trans hvalue)
  obtain ⟨hexit, hstdout⟩ : outcome.exit = 1 ∧
      outcome.stdout = "2006-01-02.md:1:1: missing-end-time Field 'end' is missing\n" := by
    rw [houtcome]
    decide +kernel
  refine ⟨outcome, outcome', hreads, hsize, hrun, hrun', hexit, ?_, hstdout⟩
  rw [hsame fun id => List.mem_pair.trans (or_comm.trans List.mem_pair.symm), hexit]

end CommandLine

end TimeJournal
