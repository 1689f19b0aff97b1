import TimeJournal.Proofs.Edit.Convergence
import TimeJournal.Proofs.Edit.DateEdit
import TimeJournal.Proofs.Lint.Translation

/-! # A day at another date

Only differences of times matter. Two texts that differ in the date of the front matter only have the
same findings and the same corrections, as long as no file name says what the date should be and no
hour is so large that the calendar ends before it.

* `TextEdit.applyAll_splice`: edits behind a place in a text, and a change of the same length there.
* `SameButDate.exists_lint`, `SameButDate.exists_check`, `SameButDate.fix_eq`: checking and fixing
  one text and the other.
* `SameButDate.acts_alike`: all of it. -/

namespace TimeJournal

open Lint

/-! ### Edits behind a place -/

namespace TextEdit

/-- Edits look only at the text behind the place where they begin. -/
theorem applyAll_congr {s s' : List Char} {es : List TextEdit} : ∀ {pos : ℕ},
    s.drop pos = s'.drop pos → (∀ x ∈ es, pos ≤ x.span.start) →
    es.Pairwise (fun x y => x.span.stop ≤ y.span.start) → applyAll pos es s = applyAll pos es s' := by
  induction es with
  | nil => intro pos h _ _; exact h
  | cons e es ih =>
    intro pos h hpos horder
    obtain ⟨hbehind, hrest⟩ := List.pairwise_cons.mp horder
    have hle := e.span.start_le_stop
    have hstart := hpos e List.mem_cons_self
    have hdrop : s.drop e.span.stop = s'.drop e.span.stop := by
      obtain ⟨k, hk⟩ := Nat.exists_eq_add_of_le (hstart.trans hle)
      rw [hk, ← List.drop_drop, ← List.drop_drop, h]
    rw [applyAll, applyAll, h, ih hdrop hbehind hrest]

/-- How long a text is after edits depends on its length only. -/
theorem length_applyAll_congr {s s' : List Char} (h : s.length = s'.length) (es : List TextEdit)
    (pos : ℕ) : (applyAll pos es s).length = (applyAll pos es s').length := by
  induction es generalizing pos with
  | nil => rw [applyAll, applyAll, List.length_drop, List.length_drop, h]
  | cons e es ih => simp only [applyAll, List.length_append, List.length_take, List.length_drop, ih, h]

/-- **Edits behind a span do not touch what replaces it.** -/
theorem applyAll_splice {s : List Char} {span : Span} {new : List Char}
    (hstop : span.stop ≤ s.length) (hnew : span.start + new.length = span.stop)
    {es : List TextEdit} (hes : ∀ x ∈ es, span.stop ≤ x.span.start)
    (horder : es.Pairwise fun x y => x.span.stop ≤ y.span.start) :
    applyAll 0 es (splice span new s) = splice span new (applyAll 0 es s) := by
  have hle := span.start_le_stop
  have hlength : (s.take span.start ++ new).length = span.stop := by
    rw [List.length_append, List.length_take_of_le (by omega), hnew]
  have htake : (splice span new s).take span.stop = s.take span.start ++ new := by
    rw [splice, ← hlength, List.take_left]
  have hdrop : (splice span new s).drop span.stop = s.drop span.stop := by
    rw [splice, ← hlength, List.drop_left]
  have hfront : ∀ x ∈ es, 0 + span.stop ≤ x.span.start := by simpa using hes
  rw [applyAll_drop hfront, applyAll_drop hfront, List.drop_zero, List.drop_zero, Nat.zero_add,
    htake, applyAll_congr hdrop hes horder, splice]
  have hkept : (s.take span.stop).length = span.stop := List.length_take_of_le hstop
  rw [List.take_append_of_le_length (by omega), List.take_take, Nat.min_eq_left hle,
    List.drop_append_of_le_length (by omega), List.drop_take, Nat.sub_self, List.take_zero,
    List.nil_append]

end TextEdit

/-- The corrections of a journal stand behind its date, if no date is expected. -/
theorem Journal.IsLaidOut.stop_le {j : Journal} (h : j.IsLaidOut) {a : Located Date}
    (ha : j.frontMatter.date? = some a) {x : TextEdit} (hx : x ∈ j.corrections none) :
    a.span.stop ≤ x.span.start := by
  rcases List.mem_append.mp hx with hx | hx
  · obtain ⟨d, expected, -, hnone, -⟩ := mem_dateEdits hx
    cases hnone
  · obtain ⟨link, hlink, hx⟩ := List.mem_flatMap.mp hx
    have he := mem_of_mem_chain hlink
    exact (h.date a ha link.2 he).trans (within_entryEdits (h.entry link.2 he) hx).1

/-! ### One text and the other -/

namespace SameButDate

variable {text text' : String} {j : Journal} {a : Located Date} {d' : Date}
  (h : SameButDate text.toList text'.toList j a d')

include h

theorem length_text : text'.length = text.length := by
  rw [← String.length_toList, ← String.length_toList]
  exact h.length_eq

/-- Edits behind the date leave one text as the other one with its date replaced. -/
theorem applyAll_eq {es : List TextEdit} (hes : ∀ x ∈ es, a.span.stop ≤ x.span.start)
    (horder : es.Pairwise fun x y => x.span.stop ≤ y.span.start) :
    TextEdit.applyAll 0 es text'.toList =
      TextEdit.splice a.span d'.toString.toList (TextEdit.applyAll 0 es text.toList) := by
  rw [h.text]
  refine TextEdit.applyAll_splice h.rereads.stop_le_length ?_ hes horder
  rw [String.length_toList, Date.length_toString]
  exact h.stop_eq.symm

variable (hsuits : j.Suits a.value d') {source : Option String}
  (hs : Location.date? source = .ok none)

include hsuits hs

/-- The same rules are broken. -/
theorem exists_lint (tolerance : ℤ) : ∃ found, lint source tolerance j = .ok found ∧
    lint source tolerance (j.set (.date d')) = .ok found := by
  have hsame : declared ⟨source.getD "", none, tolerance⟩ (j.set (.date d')) =
      declared ⟨source.getD "", none, tolerance⟩ j := declared_set_date rfl h.date hsuits
  rw [lint_of_date hs, lint_of_date hs, hsame]
  exact ⟨_, rfl, rfl⟩

/-- The same findings are in both texts. -/
theorem exists_check (hsize : text.length ≤ Journal.defaultLimit) :
    ∃ checked checked', check source text = .ok checked ∧ check source text' = .ok checked' ∧
      checked'.findings = checked.findings := by
  obtain ⟨hjournal, hfaults⟩ := h.reading_eq
  refine ⟨_, _, check_eq hs h.journal hsize, check_eq hs hjournal (h.length_text ▸ hsize), ?_⟩
  rw [declared_set_date rfl h.date hsuits, Checked.findings, Checked.findings, hfaults]

/-- The same edits are made to both texts. -/
theorem fix_eq {rounds : ℕ}
    (hsize : ∀ n < rounds, ∀ after applied, (fix text source n).2 = .ok (after, applied) →
      after.length ≤ Journal.defaultLimit) :
    (fix text source rounds).2 =
        .ok (String.ofList (TextEdit.applyAll 0 ((j.corrections none).take rounds) text.toList),
          min rounds (j.corrections none).length) ∧
      (fix text' source rounds).2 =
        .ok (String.ofList (TextEdit.applyAll 0 ((j.corrections none).take rounds) text'.toList),
          min rounds (j.corrections none).length) := by
  have hsame := corrections_set_date h.date hsuits
  have hlengths := length_applyAll_le hs h.journal hsize
  have hlengths' : ∀ n < rounds, (TextEdit.applyAll 0
      (((j.set (.date d')).corrections none).take n) text'.toList).length ≤
        Journal.defaultLimit := by
    intro n hn
    rw [hsame, TextEdit.length_applyAll_congr h.length_eq]
    exact hlengths n hn
  obtain ⟨notes, hloop⟩ := exists_fixLoop hs rounds (f := ⟨text, 0, []⟩) h.journal hlengths
  obtain ⟨notes', hloop'⟩ :=
    exists_fixLoop hs rounds (f := ⟨text', 0, []⟩) h.reading_eq.1 hlengths'
  rw [fix_of_fixLoop hloop, fix_of_fixLoop hloop', hsame, Nat.zero_add]
  exact ⟨rfl, rfl⟩

/-- **Only differences of times matter.** If no file name has a date and no time is too late for
either date, then two texts that differ in the date of the front matter only have the same findings.
Fixing makes the same edits to both, behind the date, so the texts that it gives differ in the date
only. -/
theorem acts_alike :
    (Reading.ofText text'.toList).journal = some (j.set (.date d')) ∧
    (∀ tolerance, ∃ found, lint source tolerance j = .ok found ∧
      lint source tolerance (j.set (.date d')) = .ok found) ∧
    (text.length ≤ Journal.defaultLimit → ∃ checked checked', check source text = .ok checked ∧
      check source text' = .ok checked' ∧ checked'.findings = checked.findings) ∧
    ∃ edits : List TextEdit, (∀ e ∈ edits, a.span.stop ≤ e.span.start) ∧
      ∀ rounds, (∀ n < rounds, ∀ after applied, (fix text source n).2 = .ok (after, applied) →
          after.length ≤ Journal.defaultLimit) →
        ∃ after after' : String,
          (fix text source rounds).2 = .ok (after, min rounds edits.length) ∧
          (fix text' source rounds).2 = .ok (after', min rounds edits.length) ∧
          after.toList = TextEdit.applyAll 0 (edits.take rounds) text.toList ∧
          after'.toList = TextEdit.applyAll 0 (edits.take rounds) text'.toList ∧
          after'.toList = TextEdit.splice a.span d'.toString.toList after.toList := by
  have hlaid := isLaidOut_of_ofText h.journal
  have hbehind : ∀ e ∈ j.corrections none, a.span.stop ≤ e.span.start :=
    fun e he => hlaid.stop_le h.date he
  refine ⟨h.reading_eq.1, h.exists_lint hsuits hs, h.exists_check hsuits hs, j.corrections none,
    hbehind, fun rounds hsize => ?_⟩
  obtain ⟨hfix, hfix'⟩ := h.fix_eq hsuits hs hsize
  have hsplice := h.applyAll_eq
    (fun e he => hbehind e (List.mem_of_mem_take he))
    ((Journal.pairwise_corrections hlaid none).sublist (List.take_sublist rounds _))
  refine ⟨_, _, hfix, hfix', String.toList_ofList, String.toList_ofList, ?_⟩
  rw [String.toList_ofList, String.toList_ofList]
  exact hsplice

end SameButDate

/-- A day in front of a 29 February, with work until the end of the day after it. -/
def leapText : String :=
  "---\ndate: 2024-02-28\nstart: 23:00\n---\n" ++
    "- 23:00-25:30 AB 2.50 read\n- 25:45-48:30 22.75 write\n"

/-- The same day at the end of a year. -/
def newYearText : String :=
  "---\ndate: 2023-12-31\nstart: 23:00\n---\n" ++
    "- 23:00-25:30 AB 2.50 read\n- 25:45-48:30 22.75 write\n"

/-- In both texts the second entry jumps, and fixing corrects its start and then its duration. -/
theorem acts_alike_leapText : ∃ j a d',
    SameButDate leapText.toList newYearText.toList j a d' ∧ j.Suits a.value d' ∧
    Location.date? none = .ok none ∧
    (∃ found, lint none defaultTolerance j = .ok found ∧
      lint none defaultTolerance (j.set (.date d')) = .ok found ∧
      found.map Finding.rule = [.missingStop, .timeJumped]) ∧
    (fix leapText none 5).2 = .ok ("---\ndate: 2024-02-28\nstart: 23:00\n---\n" ++
      "- 23:00-25:30 AB 2.50 read\n- 25:30-48:30 23.00 write\n", 2) ∧
    (fix newYearText none 5).2 = .ok ("---\ndate: 2023-12-31\nstart: 23:00\n---\n" ++
      "- 23:00-25:30 AB 2.50 read\n- 25:30-48:30 23.00 write\n", 2) := by
  have hparts : (Reading.ofText leapText.toList).journal.map (fun j =>
      (j.frontMatter.date?, j.times, j.corrections none)) =
      some (some ⟨⟨2024, 2, 28, by decide, by decide, by decide⟩, ⟨10, 20, by decide⟩⟩,
        [⟨"23:00"⟩, ⟨"23:00"⟩, ⟨"25:30"⟩, ⟨"25:45"⟩, ⟨"48:30"⟩],
        [⟨⟨67, 72, by decide⟩, "25:30"⟩, ⟨⟨79, 84, by decide⟩, "23.00"⟩]) := by decide +kernel
  have hrules : (Reading.ofText leapText.toList).journal.map (fun j =>
      (declared ⟨"", none, defaultTolerance⟩ j).map Finding.rule) =
        some [.missingStop, .timeJumped] := by decide +kernel
  obtain ⟨j, hj, hall⟩ := Option.map_eq_some_iff.mp hparts
  obtain ⟨hdate, hrest⟩ := Prod.mk.inj hall
  obtain ⟨htimes, hcorrections⟩ := Prod.mk.inj hrest
  rw [hj] at hrules
  have hsame : SameButDate leapText.toList newYearText.toList j
      ⟨⟨2024, 2, 28, by decide, by decide, by decide⟩, ⟨10, 20, by decide⟩⟩
      ⟨2023, 12, 31, by decide, by decide, by decide⟩ := ⟨hj, hdate, by decide +kernel⟩
  have hsuits : j.Suits ⟨2024, 2, 28, by decide, by decide, by decide⟩
      ⟨2023, 12, 31, by decide, by decide, by decide⟩ := by
    have hresolve : ∀ t ∈ [⟨"23:00"⟩, ⟨"23:00"⟩, ⟨"25:30"⟩, ⟨"25:45"⟩, (⟨"48:30"⟩ : TimeToken)],
        (t.resolve ⟨2024, 2, 28, by decide, by decide, by decide⟩).toOption.isSome = true ∧
          (t.resolve ⟨2023, 12, 31, by decide, by decide, by decide⟩).toOption.isSome = true := by
      decide +kernel
    intro t ht
    rw [htimes] at ht
    exact (hresolve t ht).imp TimeToken.not_overflows_of_isSome TimeToken.not_overflows_of_isSome
  have hs : Location.date? none = .ok none := rfl
  have hsize : ∀ n < 5, ∀ after applied, (fix leapText none n).2 = .ok (after, applied) →
      after.length ≤ Journal.defaultLimit := by
    refine length_fix_le hs hj ?_
    rw [hcorrections]
    decide +kernel
  obtain ⟨-, hlint, -, edits, -, hfixes⟩ := hsame.acts_alike hsuits hs
  obtain ⟨found, hfound, hfound'⟩ := hlint defaultTolerance
  obtain ⟨after, after', hfix, hfix', -, -, hsplice⟩ := hfixes 5 hsize
  have hfirst : (fix leapText none 5).2 = .ok ("---\ndate: 2024-02-28\nstart: 23:00\n---\n" ++
      "- 23:00-25:30 AB 2.50 read\n- 25:30-48:30 23.00 write\n", 2) := by
    rw [(hsame.fix_eq hsuits hs hsize).1, hcorrections]
    decide +kernel
  rw [hfirst] at hfix
  obtain ⟨hafter, hcount⟩ := Prod.mk.inj (Except.ok.inj hfix)
  rw [← hafter] at hsplice
  have hrule : found.map Finding.rule = [.missingStop, .timeJumped] := by
    rw [lint_of_date hs] at hfound
    rw [← Except.ok.inj hfound]
    exact Option.some.inj hrules
  refine ⟨j, _, _, hsame, hsuits, hs, ⟨found, hfound, hfound', hrule⟩, hfirst, ?_⟩
  have hafter' := congrArg String.ofList hsplice
  rw [String.ofList_toList] at hafter'
  rw [hfix', ← hcount, hafter']
  decide +kernel

end TimeJournal
