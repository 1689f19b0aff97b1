import TimeJournal.CommandLine.Options
import TimeJournal.Proofs.CommandLine.Verdict

/-! # The file after a run

A run writes its file at one point only: when fixing has come to its end and has made a correction.
What it writes is the whole text, so no file is left half fixed, and a run that fails leaves its file
alone, with one exception: if fixing has used up its rounds, its last text is written before it is
known whether it can be checked.

* `exists_check_of_fix`: fixing that does not use up its rounds ends with a text that was checked.
* `fix_fixed`: there is nothing to fix in a fixed text.
* `Completes`: when a file is written; `Completes.aftermath_eq`, `file_of_not_completes`: what is in
  the file then, and otherwise.
* `aftermath_console`: neither depends on where the run writes to.
* `aftermath_completes`: all of it, and what the same command line does when it is given once more. -/

namespace TimeJournal

open Lint

/-! ### The end of fixing -/

section Fix

variable {source : Option String} {text after : String} {rounds applied : ℕ}

theorem exists_check_of_fixRound {notes : List FixNote} {r : Option Repair}
    (h : fixRound source text = (notes, .ok r)) : ∃ checked, check source text = .ok checked := by
  rcases hcheck : check source text with fault | checked
  · unfold fixRound at h
    rw [hcheck] at h
    cases h
  · exact ⟨checked, rfl⟩

/-- Rounds that come to their end are used up, or the last of them has checked the text and found
nothing to fix. -/
theorem exists_check_of_fixLoop {allowed : ℕ} {f f' : Fixing}
    (h : fixLoop source allowed rounds f = (f', none)) :
    f'.applied = f.applied + rounds ∨ ∃ checked, check source f'.text = .ok checked := by
  induction rounds generalizing f with
  | zero =>
    obtain ⟨rfl, -⟩ := Prod.mk.inj h
    exact Or.inl rfl
  | succ rounds ih =>
    unfold fixLoop at h
    rcases hround : fixRound source f.text with ⟨notes, fault | _ | r⟩
    · rw [hround] at h
      cases h
    · rw [hround] at h
      obtain ⟨rfl, -⟩ := Prod.mk.inj h
      exact Or.inr (exists_check_of_fixRound hround)
    · rw [hround] at h
      refine (ih h).imp_left fun happlied => ?_
      dsimp only at happlied
      omega

/-- **Fixing that does not use up its rounds ends with a text that was checked.** -/
theorem exists_check_of_fix (h : (fix text source rounds).2 = .ok (after, applied)) :
    applied = rounds ∨ ∃ checked, check source after = .ok checked := by
  rcases hloop : fixLoop source rounds rounds ⟨text, 0, []⟩ with ⟨f, _ | fault⟩
  · obtain ⟨rfl, rfl⟩ := Prod.mk.inj (Except.ok.inj ((fix_of_fixLoop hloop).symm.trans h))
    simpa using exists_check_of_fixLoop hloop
  · unfold fix at h
    rw [hloop] at h
    cases h

/-- A text that is too long is not fixed. -/
theorem fix_of_lt (h : Journal.defaultLimit < text.length) : (fix text source (rounds + 1)).2 =
    .error (.check (.size ⟨text.length, Journal.defaultLimit⟩)) := by
  unfold fix fixLoop
  rw [fixRound_of_lt h]

/-- **There is nothing to fix in a fixed text**, if there were enough rounds. -/
theorem fix_fixed (h : (fix text source rounds).2 = .ok (after, applied)) (hne : applied ≠ 0)
    (hrounds : ∀ j, (Reading.ofText text.toList).journal = some j →
      max 1 (2 * j.entries.length) ≤ rounds)
    (hsize : after.length ≤ Journal.defaultLimit) (more : ℕ) :
    (fix after source more).2 = .ok (after, 0) := by
  obtain ⟨hedits, rfl⟩ := fix_eq_ok_iff.mp ⟨applied, hne, h⟩
  obtain ⟨fileDate, j, hs, hj, -, heq⟩ := exists_of_editsOf_ne_nil hedits
  obtain ⟨j', hj', hleft⟩ := exists_journal_after fileDate hj rounds
  have hcount := (j.length_corrections_le fileDate).trans (hrounds j hj)
  have hnil : j'.corrections fileDate = [] := List.length_eq_zero_iff.mp (by omega)
  rw [← heq, ← String.toList_ofList (l := TextEdit.applyAll _ _ _)] at hj'
  exact fix_of_corrections_eq_nil hs hj' hsize hnil more

/-- Fixing puts no carriage return into a text. -/
theorem notMem_of_fix (h : (fix text source rounds).2 = .ok (after, applied)) (hne : applied ≠ 0)
    (htext : '\r' ∉ text.toList) : '\r' ∉ after.toList := by
  obtain ⟨-, rfl⟩ := fix_eq_ok_iff.mp ⟨applied, hne, h⟩
  rw [String.toList_ofList]
  exact CommandLine.notMem_applyAll htext
    (fun x hx => ((editsOf_spec source rounds text).2 x hx).2) 0

end Fix

namespace CommandLine

/-! ### The file -/

/-- What a command line comes to: the exit code, and the state of the file. -/
structure Aftermath where
  exit : ℕ
  file : FileState

/-- What a command line comes to that is given on some console and finds its file in some state. -/
def aftermath (console : Console) (words : List String) (state : FileState) : Aftermath :=
  match Options.parse words with
  | .error stop => ⟨stop.exit, state⟩
  | .ok o =>
    match execute console o state with
    | .error fault => ⟨fault.exit, state⟩
    | .ok outcome => ⟨outcome.exit, outcome.leaves state⟩

/-- A command line asks for its file to be fixed, which reads as `text`; fixing comes to its end with
some corrections made. -/
structure Completes (words : List String) (state : FileState) (o : Options) (text fixed : String)
    (applied : ℕ) : Prop where
  parse : Options.parse words = .ok o
  asked : o.fix = true
  reads : o.Reads state text
  fixes : (fix text (some o.name) defaultRounds).2 = .ok (fixed, applied)
  applied : applied ≠ 0

variable {console : Console} {words : List String} {state : FileState} {o : Options}
  {text fixed : String} {applied : ℕ}

/-- What a run shows depends on its console, and nothing else does. -/
theorem runText_console (console console' : Console) (o : Options) (rules : List Rule)
    (name text : String) :
    (runText console' o rules name text).exit = (runText console o rules name text).exit ∧
      (runText console' o rules name text).rewritten =
        (runText console o rules name text).rewritten := by
  refine ⟨?_, (rewritten_runText console' o rules name text).trans
    (rewritten_runText console o rules name text).symm⟩
  rcases hstage : fixStage o name text with fault | fixed
  · unfold runText
    rw [hstage]
  · rw [exit_runText hstage, exit_runText hstage]

/-- **What a command line comes to does not depend on its console.** -/
theorem aftermath_console (console console' : Console) (words : List String) (state : FileState) :
    aftermath console' words state = aftermath console words state := by
  unfold aftermath
  rcases Options.parse words with stop | o
  · rfl
  dsimp only
  unfold execute
  rcases parseRules o.rules with fault | rules
  · rfl
  dsimp only
  split_ifs
  · rfl
  rcases state.text with fault | text
  · rfl
  obtain ⟨hexit, hrewritten⟩ :=
    runText_console console console' o rules (String.ofList o.path.toText) text
  dsimp only
  rw [Outcome.leaves, hexit, hrewritten]
  rfl

/-- A run that writes has read its file and fixed it. -/
theorem exists_reads_of_rewritten {outcome : Outcome}
    (h : execute console o state = .ok outcome) (hwritten : outcome.rewritten = some fixed) :
    ∃ text applied, o.fix = true ∧ o.Reads state text ∧
      (fix text (some o.name) defaultRounds).2 = .ok (fixed, applied) ∧ applied ≠ 0 := by
  rcases execute_cases h with ⟨rules, text, hrules, hname, htext, rfl⟩ | ⟨hnone, -⟩
  · obtain ⟨hasked, applied, hne, hfix⟩ := rewritten_runText_eq_some_iff.mp hwritten
    exact ⟨text, applied, hasked, ⟨Options.knowsRules_iff.mpr ⟨rules, hrules⟩, hname, htext⟩, hfix,
      hne⟩
  · rw [hnone] at hwritten
    cases hwritten

/-- **A file is left alone** unless fixing it comes to its end with some corrections made. -/
theorem file_of_not_completes (h : ∀ o text fixed applied,
    ¬ Completes words state o text fixed applied) : (aftermath console words state).file = state := by
  unfold aftermath
  rcases hparse : Options.parse words with stop | o
  · rfl
  dsimp only
  rcases hrun : execute console o state with fault | outcome
  · rfl
  dsimp only
  unfold Outcome.leaves
  rcases hwritten : outcome.rewritten with _ | fixed
  · rfl
  obtain ⟨text, applied, hasked, hreads, hfix, hne⟩ := exists_reads_of_rewritten hrun hwritten
  exact absurd ⟨hparse, hasked, hreads, hfix, hne⟩ (h o text fixed applied)

/-- **Otherwise the file holds the fixed text**, and the exit code is that for the fixed text. -/
theorem Completes.aftermath_eq (h : Completes words state o text fixed applied) :
    ∃ rules, parseRules o.rules = .ok rules ∧
      aftermath console words state = ⟨exitOf rules o.name fixed, .content fixed.toUTF8⟩ := by
  obtain ⟨rules, hrules, hrun⟩ := h.reads.execute
  have hrounds : o.rounds = defaultRounds := if_pos h.asked
  obtain ⟨stage, hstage, htext⟩ := exists_fixStage (hrounds ▸ h.fixes)
  have hwritten : (runText console o rules o.name text).rewritten = some fixed :=
    rewritten_runText_eq_some_iff.mpr ⟨h.asked, applied, h.applied, h.fixes⟩
  refine ⟨rules, hrules, ?_⟩
  unfold aftermath
  rw [h.parse]
  dsimp only
  rw [hrun]
  dsimp only
  rw [Outcome.leaves, hwritten, exit_runText hstage, htext]

/-! ### Exit codes -/

theorem exitOf_of_check {name : String} {checked : Checked}
    (h : check (some name) text = .ok checked) (rules : List Rule) :
    exitOf rules name text = 0 ∨ exitOf rules name text = 1 := by
  unfold exitOf
  rw [h]
  dsimp only
  split_ifs
  · exact Or.inl rfl
  · exact Or.inr rfl

theorem exitOf_of_error {name : String} {fault : CheckFault}
    (h : check (some name) text = .error fault) (rules : List Rule) :
    exitOf rules name text = 74 := by
  unfold exitOf
  rw [h]

/-- The exit codes for a text: nothing is found in it, something is, or it cannot be checked. -/
theorem exitOf_cases (rules : List Rule) (name text : String) :
    exitOf rules name text = 0 ∨ exitOf rules name text = 1 ∨ exitOf rules name text = 74 := by
  rcases hcheck : check (some name) text with fault | checked
  · exact Or.inr (Or.inr (exitOf_of_error hcheck rules))
  · exact (exitOf_of_check hcheck rules).imp_right Or.inl

/-! ### The same command line once more -/

/-- A file that was read has no carriage return. -/
theorem notMem_of_text (h : state.text = .ok text) : '\r' ∉ text.toList := by
  unfold FileState.text at h
  split at h
  · cases h
  · cases h
  · cases h
  · cases h
  · split at h
    · rw [← Except.ok.inj h]
      exact notMem_unifyEndings _
    · split at h
      · rw [← Except.ok.inj h]
        exact notMem_unifyEndings _
      · cases h

/-- **A written file is read back as it was written.** -/
theorem Completes.reads_again (h : Completes words state o text fixed applied) :
    o.Reads (.content fixed.toUTF8) fixed := by
  have hno : '\r' ∉ fixed.toList := notMem_of_fix h.fixes h.applied (notMem_of_text h.reads.text)
  refine ⟨h.reads.rules, h.reads.name, ?_⟩
  rw [text_content, unifyEndings_eq_self hno]

/-- A run that cannot fix a text since it is too long exits like one that cannot check it. -/
theorem runText_of_lt (rules : List Rule) (hasked : o.fix = true)
    (h : Journal.defaultLimit < text.length) :
    (runText console o rules o.name text).exit = exitOf rules o.name text ∧
      (runText console o rules o.name text).rewritten = none := by
  have hfix : (fix text (some o.name) (999 + 1)).2 = _ := fix_of_lt h
  rw [exitOf_of_error (check_of_lt h)]
  unfold runText fixStage
  rw [if_pos hasked]
  rcases hboth : TimeJournal.fix text (some o.name) defaultRounds with ⟨notes, result⟩
  obtain rfl : result = _ := (congrArg Prod.snd hboth).symm.trans hfix
  exact ⟨rfl, rfl⟩

/-- A run that finds nothing to fix in a text leaves it, and exits with the code for it. -/
theorem runText_of_fix_zero (rules : List Rule) (hasked : o.fix = true)
    (h : (fix text (some o.name) defaultRounds).2 = .ok (text, 0)) :
    (runText console o rules o.name text).exit = exitOf rules o.name text ∧
      (runText console o rules o.name text).rewritten = none := by
  have hrounds : o.rounds = defaultRounds := if_pos hasked
  obtain ⟨stage, hstage, htext⟩ := exists_fixStage (hrounds ▸ h)
  refine ⟨(exit_runText hstage).trans (by rw [htext]), ?_⟩
  rcases hwritten : (runText console o rules o.name text).rewritten with _ | after
  · rfl
  obtain ⟨-, applied, hne, hfix⟩ := rewritten_runText_eq_some_iff.mp hwritten
  obtain ⟨-, rfl⟩ := Prod.mk.inj (Except.ok.inj (h.symm.trans hfix))
  exact absurd rfl hne

/-- **The same command line changes nothing when it is given once more**: there are rounds enough for
the corrections of all entries, so none is left. -/
theorem Completes.aftermath_again (h : Completes words state o text fixed applied)
    (hentries : ∀ j, (Reading.ofText text.toList).journal = some j → j.entries.length ≤ 500) :
    aftermath console words (aftermath console words state).file =
      aftermath console words state := by
  obtain ⟨rules, hrules, hfirst⟩ := h.aftermath_eq
  -- the fixed text has nothing left to fix, or it has become too long to be fixed any further
  have hagain : (runText console o rules o.name fixed).exit = exitOf rules o.name fixed ∧
      (runText console o rules o.name fixed).rewritten = none := by
    rcases le_or_gt fixed.length Journal.defaultLimit with hsize | hsize
    · refine runText_of_fix_zero rules h.asked ?_
      refine fix_fixed h.fixes h.applied (fun j hj => ?_) hsize defaultRounds
      have hcount := hentries j hj
      rw [show defaultRounds = 1000 from rfl]
      omega
    · exact runText_of_lt rules h.asked hsize
  have hreads := h.reads_again
  rw [hfirst]
  unfold aftermath
  rw [h.parse]
  dsimp only
  rw [execute_of_text hrules hreads.name hreads.text]
  dsimp only
  rw [Outcome.leaves, hagain.1, hagain.2]

/-- **Only a completed fix is ever written.** If a command line asks for a fix, and fixing comes to
its end with some corrections made, then the file holds the fixed text; otherwise it is left alone. So
it is left alone after the exit codes 64, 66 and 70, and after 74 unless fixing has used up its rounds.
The same command line changes nothing when it is given once more, on whatever console, and exits with
the same code, if the journal has at most 500 entries. -/
theorem aftermath_completes (console : Console) (words : List String) (state : FileState) :
    (∀ o text fixed applied, Completes words state o text fixed applied →
      (aftermath console words state).file = .content fixed.toUTF8) ∧
    ((∀ o text fixed applied, ¬ Completes words state o text fixed applied) →
      (aftermath console words state).file = state) ∧
    ((aftermath console words state).exit ∈ [64, 66, 70] →
      (aftermath console words state).file = state) ∧
    ((aftermath console words state).exit = 74 → (aftermath console words state).file = state ∨
      ∃ o text fixed, Completes words state o text fixed defaultRounds) ∧
    ((∀ text j, state.text = .ok text → (Reading.ofText text.toList).journal = some j →
        j.entries.length ≤ 500) →
      ∀ console', aftermath console' words (aftermath console words state).file =
        aftermath console words state) := by
  by_cases hcompletes : ∀ o text fixed applied, ¬ Completes words state o text fixed applied
  · -- what finds the file as it was does the same once more
    have hfile : (aftermath console words state).file = state := file_of_not_completes hcompletes
    refine ⟨fun o text fixed applied h => absurd h (hcompletes o text fixed applied),
      fun _ => hfile, fun _ => hfile, fun _ => Or.inl hfile, fun _ console' => ?_⟩
    rw [hfile, aftermath_console console]
  simp only [not_forall, not_not] at hcompletes
  obtain ⟨o, text, fixed, applied, h⟩ := hcompletes
  obtain ⟨rules, -, hfirst⟩ := h.aftermath_eq
  refine ⟨fun o' text' fixed' applied' h' => ?_, fun hnone => absurd h (hnone _ _ _ _),
    fun hexit => ?_, fun hexit => ?_, fun hentries console' => ?_⟩
  · obtain ⟨rules', -, hfile⟩ := h'.aftermath_eq
    rw [hfile]
  · rw [hfirst] at hexit
    have hcases := exitOf_cases rules o.name fixed
    simp only [List.mem_cons, List.not_mem_nil, or_false] at hexit
    omega
  · rw [hfirst] at hexit
    dsimp only at hexit
    rcases exists_check_of_fix h.fixes with rfl | ⟨checked, hcheck⟩
    · exact Or.inr ⟨o, text, fixed, h⟩
    · rcases exitOf_of_check hcheck rules with h0 | h1
      all_goals omega
  · rw [aftermath_console console]
    exact h.aftermath_again fun j hj => hentries text j h.reads.text hj

/-- Three corrections are made and written, and none is left. -/
theorem aftermath_completes_feedText :
    Completes ["2006-01-02.md", "--fix"] (.content feedText.toUTF8) (fixing "2006-01-02.md")
      feedText fixedText 3 ∧
    (∀ text j, (FileState.content feedText.toUTF8).text = .ok text →
      (Reading.ofText text.toList).journal = some j → j.entries.length ≤ 500) ∧
    (aftermath redirected ["2006-01-02.md", "--fix"] (.content feedText.toUTF8)).file =
      .content fixedText.toUTF8 ∧
    ∀ console, aftermath console ["2006-01-02.md", "--fix"] (.content fixedText.toUTF8) =
      aftermath redirected ["2006-01-02.md", "--fix"] (.content feedText.toUTF8) := by
  obtain ⟨hwritten, -, -, -, hagain⟩ :=
    aftermath_completes redirected ["2006-01-02.md", "--fix"] (.content feedText.toUTF8)
  have htext : (FileState.content feedText.toUTF8).text = .ok feedText := by
    rw [text_content, unifyEndings_eq_self (by decide +kernel)]
  have hcompletes : Completes ["2006-01-02.md", "--fix"] (.content feedText.toUTF8)
      (fixing "2006-01-02.md") feedText fixedText 3 := by
    refine ⟨by decide +kernel, rfl, ⟨nofun, by decide +kernel, htext⟩, ?_, by decide⟩
    decide +kernel
  have hmap : (Reading.ofText feedText.toList).journal.map (fun j => j.entries.length) =
      some 2 := by decide +kernel
  have hentries : ∀ text j, (FileState.content feedText.toUTF8).text = .ok text →
      (Reading.ofText text.toList).journal = some j → j.entries.length ≤ 500 := by
    intro text j hread hj
    obtain rfl := Except.ok.inj (htext.symm.trans hread)
    rw [hj] at hmap
    have hlength : j.entries.length = 2 := Option.some.inj hmap
    omega
  have hfile := hwritten _ _ _ _ hcompletes
  have hsame := hagain hentries
  rw [hfile] at hsame
  exact ⟨hcompletes, hentries, hfile, hsame⟩

end CommandLine

end TimeJournal
