import TimeJournal.Proofs.Edit.CorrectionStep

/-! # Fixing in one pass

Fixing reads and checks the text again after every edit. It comes to what one pass over the text gives
that makes the corrections of the journal from left to right, as many as there are rounds.

* `exists_fixRound`: a round makes the first correction of the journal.
* `exists_rest`: it leaves a journal with one correction less.
* `exists_fixLoop`: so the rounds make the corrections one by one, by induction on the rounds.
* `fix_eq_applyAll`: the text that fixing gives and the number of edits. -/

namespace TimeJournal

open Lint

variable {source : Option String} {fileDate : Option Date} {text : String} {j : Journal}

/-! ### One round -/

/-- A repair of a text by its edit. -/
def Repair.IsFrom (r : Repair) (text : String) : Prop :=
  r.text.toList = TextEdit.splice r.edit.span r.edit.newText.toList text.toList

theorem repair?_of_none {f : Finding} (h : f.edit? = none) : repair? source text j f = .ok none := by
  have hcommand : Command.ofRule f.rule = none :=
    Finding.ofRule_eq_none (Option.map_eq_none_iff.mp h)
  unfold repair?
  rw [hcommand]

theorem exists_repair (hj : (Reading.ofText text.toList).journal = some j) {f : Finding}
    {c : Command} (hc : Command.ofRule f.rule = some c) {edit : TextEdit}
    (he : c.execute j f.span source = .ok (some edit)) :
    ∃ r, repair? source text j f = .ok (some r) ∧ r.edit = edit ∧ r.IsFrom text := by
  obtain ⟨x, hx⟩ := Command.exists_settles hj he
  obtain ⟨after, happly, hafter, hne⟩ := hx.exists_apply
  refine ⟨⟨c, f.rule, edit, after⟩, ?_, rfl, hafter⟩
  unfold repair?
  rw [hc]
  dsimp only
  rw [he]
  dsimp only
  rw [happly]
  dsimp only
  rw [if_neg hne]

/-- The findings without an edit are passed over, and the first one with an edit is resolved. -/
theorem exists_firstRepair {fs : List Finding} (h : ∀ f ∈ fs, ∀ edit, f.edit? = some edit →
    ∃ r, repair? source text j f = .ok (some r) ∧ r.edit = edit ∧ r.IsFrom text) :
    ∃ r, firstRepair source text j fs = .ok r ∧
      r.map Repair.edit = (fs.filterMap Finding.edit?).head? ∧ ∀ x ∈ r, x.IsFrom text := by
  induction fs with
  | nil => exact ⟨none, rfl, rfl, by simp⟩
  | cons f fs ih =>
    rcases hedit : f.edit? with _ | edit
    · obtain ⟨r, hr, hhead, htext⟩ := ih fun g hg => h g (List.mem_cons_of_mem f hg)
      refine ⟨r, ?_, ?_, htext⟩
      · unfold firstRepair
        rw [repair?_of_none hedit]
        exact hr
      · rw [List.filterMap_cons, hedit]
        exact hhead
    · obtain ⟨x, hx, hxedit, htext⟩ := h f List.mem_cons_self edit hedit
      refine ⟨some x, ?_, ?_, by simpa using htext⟩
      · unfold firstRepair
        rw [hx]
      · rw [List.filterMap_cons, hedit, ← hxedit]
        rfl

/-- The first edit that is suggested is the first correction: nothing before it waits for another. -/
theorem head?_filterMap_edit?_declared {settings : Settings}
    (h : settings.tolerance = defaultTolerance) (j : Journal) :
    ((declared settings j).filterMap Finding.edit?).head? =
      (j.corrections settings.fileDate).head? := by
  rw [filterMap_edit?_declared h, Journal.corrections]
  rcases hdate : dateEdits settings.fileDate j.frontMatter with _ | ⟨x, xs⟩
  swap
  · rfl
  have hright : rightDate settings.fileDate j = reference j := rightDate_of_nil hdate
  rw [List.nil_append, List.nil_append, List.head?_flatMap, List.head?_flatMap, hright]
  congr 1
  funext link
  rw [entryEdits]
  rcases hstart : startEdits (reference j) link.1 link.2 with _ | ⟨x, xs⟩
  · rw [rightStart_of_nil hstart]
  · rfl

/-- **A round makes the first correction**, if there is one. -/
theorem exists_fixRound (hs : Location.date? source = .ok fileDate)
    (hj : (Reading.ofText text.toList).journal = some j)
    (hsize : text.length ≤ Journal.defaultLimit) :
    ∃ notes r, fixRound source text = (notes, .ok r) ∧
      r.map Repair.edit = (j.corrections fileDate).head? ∧ ∀ x ∈ r, x.IsFrom text := by
  set settings : Settings := ⟨source.getD "", fileDate, defaultTolerance⟩
  have hcheck := check_eq hs hj hsize
  set checked : Checked := ⟨Reading.ofText text.toList, declared settings j⟩ with hchecked
  have hfaults : checked.findings.filterMap Finding.edit? =
      (declared settings j).filterMap Finding.edit? := by
    have hnil : (checked.reading.faults.map Finding.ofFault).filterMap Finding.edit? = [] := by
      rw [List.filterMap_map]
      exact List.filterMap_eq_nil_iff.mpr fun _ _ => rfl
    rw [Checked.findings, List.filterMap_append, hnil, List.nil_append]
  have hrepairs : ∀ f ∈ checked.findings, ∀ edit, f.edit? = some edit →
      ∃ r, repair? source text j f = .ok (some r) ∧ r.edit = edit ∧ r.IsFrom text := by
    intro f hf edit hedit
    obtain ⟨c, hc, he⟩ := execute_eq_edit settings hj hs rfl
      (mem_of_mem_findings hf hedit) hedit
    exact exists_repair hj hc he
  obtain ⟨r, hr, hhead, htext⟩ := exists_firstRepair hrepairs
  rw [hfaults, head?_filterMap_edit?_declared rfl] at hhead
  have hjournal : checked.journal = some j := hj
  unfold fixRound
  rw [hcheck]
  dsimp only
  rw [hjournal]
  dsimp only
  rw [hr]
  rcases r with _ | x
  · exact ⟨_, _, rfl, hhead, htext⟩
  · exact ⟨_, _, rfl, hhead, htext⟩

/-! ### All rounds -/

/-- Behind the first correction the others are left, at their new places. -/
theorem Rereads.rest {s : List Char} {y : Setting} {e : TextEdit} {es : List TextEdit}
    (hreads : Rereads s j y e) (hj : (Reading.ofText s).journal = some j)
    (h : j.corrections fileDate = e :: es) (hrest : (j.set y).corrections fileDate = es) :
    (((j.set y).move e.move).corrections fileDate).length = es.length ∧
      ∀ k, TextEdit.applyAll 0 ((((j.set y).move e.move).corrections fileDate).take k)
          (TextEdit.splice e.span e.newText.toList s) =
        TextEdit.applyAll 0 ((j.corrections fileDate).take (k + 1)) s := by
  have hmoved : ((j.set y).move e.move).corrections fileDate = es.map (TextEdit.shift e.move) := by
    rw [Journal.corrections_move, hrest]
  have horder := Journal.pairwise_corrections (isLaidOut_of_ofText hj) fileDate
  rw [h] at horder
  refine ⟨by rw [hmoved, List.length_map], fun k => ?_⟩
  have hafter : ∀ z ∈ es.take k, e.span.stop ≤ z.span.start := fun z hz =>
    (List.pairwise_cons.mp horder).1 z (List.mem_of_mem_take hz)
  rw [hmoved, h, ← List.map_take, List.take_succ_cons,
    TextEdit.applyAll_cons hreads.stop_le_length hafter]

/-- **What a round leaves to the others**: a text with one correction less, and making some of them
there comes to making them, after the first one, in the old text. -/
theorem exists_rest {s s' : List Char} (hj : (Reading.ofText s).journal = some j) {e : TextEdit}
    {es : List TextEdit} (h : j.corrections fileDate = e :: es)
    (hs' : s' = TextEdit.splice e.span e.newText.toList s) :
    ∃ j', (Reading.ofText s').journal = some j' ∧ (j'.corrections fileDate).length = es.length ∧
      ∀ k, TextEdit.applyAll 0 ((j'.corrections fileDate).take k) s' =
        TextEdit.applyAll 0 ((j.corrections fileDate).take (k + 1)) s := by
  obtain ⟨y, hreads, hrest⟩ := Journal.exists_step hj h
  obtain ⟨hlength, hpass⟩ := hreads.rest hj h hrest
  rw [hs']
  exact ⟨_, hreads.journal, hlength, hpass⟩

/-- **The rounds make the corrections one by one.** -/
theorem exists_fixLoop (hs : Location.date? source = .ok fileDate) (allowed : ℕ) {rounds : ℕ}
    {f : Fixing} (hj : (Reading.ofText f.text.toList).journal = some j)
    (hsize : ∀ n < rounds,
      (TextEdit.applyAll 0 ((j.corrections fileDate).take n) f.text.toList).length ≤
        Journal.defaultLimit) :
    ∃ notes, fixLoop source allowed rounds f =
      (⟨String.ofList (TextEdit.applyAll 0 ((j.corrections fileDate).take rounds) f.text.toList),
        f.applied + min rounds (j.corrections fileDate).length, notes⟩, none) := by
  induction rounds generalizing f j with
  | zero =>
    refine ⟨.stopped allowed :: f.notes, ?_⟩
    rw [List.take_zero, TextEdit.applyAll_nil, String.ofList_toList, Nat.zero_min]
    rfl
  | succ n ih =>
    have hfirst := hsize 0 n.succ_pos
    rw [List.take_zero, TextEdit.applyAll_nil, String.length_toList] at hfirst
    obtain ⟨notes, r, hround, hhead, htext⟩ := exists_fixRound hs hj hfirst
    unfold fixLoop
    rw [hround]
    dsimp only
    rcases hcorrections : j.corrections fileDate with _ | ⟨e, es⟩
    · rw [hcorrections] at hhead
      obtain rfl := Option.map_eq_none_iff.mp hhead
      refine ⟨notes.reverse ++ f.notes, ?_⟩
      rw [List.take_nil, TextEdit.applyAll_nil, String.ofList_toList, List.length_nil,
        Nat.min_zero]
      rfl
    · rw [hcorrections] at hhead
      obtain ⟨x, rfl, rfl⟩ := Option.map_eq_some_iff.mp hhead
      obtain ⟨j', hj', hlength, hpass⟩ := exists_rest hj hcorrections (htext x rfl)
      have hsize' : ∀ k < n, (TextEdit.applyAll 0 ((j'.corrections fileDate).take k)
          x.text.toList).length ≤ Journal.defaultLimit := by
        intro k hk
        rw [hpass]
        exact hsize (k + 1) (by omega)
      obtain ⟨notes', hloop⟩ :=
        ih (f := ⟨x.text, f.applied + 1, notes.reverse ++ f.notes⟩) hj' hsize'
      have hcount : f.applied + 1 + min n es.length = f.applied + min (n + 1) (es.length + 1) := by
        omega
      refine ⟨notes', ?_⟩
      dsimp only at hloop ⊢
      rw [hloop, hpass, hlength, hcount, hcorrections, List.length_cons]

/-- **Fixing is one pass from left to right.** With `rounds` rounds it makes the first `rounds`
corrections of the journal, or all if there are fewer, as long as no text on the way is too long to be
read. -/
theorem fix_eq_applyAll (rounds : ℕ) (hs : Location.date? source = .ok fileDate)
    (hj : (Reading.ofText text.toList).journal = some j)
    (hsize : ∀ n < rounds,
      (TextEdit.applyAll 0 ((j.corrections fileDate).take n) text.toList).length ≤
        Journal.defaultLimit) :
    (fix text source rounds).2 =
      .ok (String.ofList (TextEdit.applyAll 0 ((j.corrections fileDate).take rounds) text.toList),
        min rounds (j.corrections fileDate).length) := by
  obtain ⟨notes, hloop⟩ := exists_fixLoop hs rounds (f := ⟨text, 0, []⟩) hj hsize
  unfold fix
  rw [hloop, Nat.zero_add]

/-- A day under the date of another one, with a gap between its two entries. -/
def cascadeText : String :=
  "---\ndate: 2024-01-02\n---\n- 09:00-10:00 AB 1.00 read\n- 10:30-11:00 0.50 write\n"

/-- Two rounds correct the date and the start time; a third one would correct the duration, which is
right until then. -/
theorem fix_eq_applyAll_cascadeText :
    ∃ j date, Location.date? (some "/notes/2024-01-03.md") = .ok (some date) ∧
      (Reading.ofText cascadeText.toList).journal = some j ∧
      j.corrections (some date) = [⟨⟨10, 20, by decide⟩, "2024-01-03"⟩,
        ⟨⟨54, 59, by decide⟩, "10:00"⟩, ⟨⟨66, 70, by decide⟩, "1.00"⟩] ∧
      (fix cascadeText (some "/notes/2024-01-03.md") 2).2 = .ok ("---\ndate: 2024-01-03\n---\n" ++
        "- 09:00-10:00 AB 1.00 read\n- 10:00-11:00 0.50 write\n", 2) := by
  have hs : Location.date? (some "/notes/2024-01-03.md") =
      .ok (some ⟨2024, 1, 3, by decide, by decide, by decide⟩) := by decide +kernel
  have hmap : (Reading.ofText cascadeText.toList).journal.map
      (Journal.corrections (some ⟨2024, 1, 3, by decide, by decide, by decide⟩)) =
        some [⟨⟨10, 20, by decide⟩, "2024-01-03"⟩, ⟨⟨54, 59, by decide⟩, "10:00"⟩,
          ⟨⟨66, 70, by decide⟩, "1.00"⟩] := by decide +kernel
  obtain ⟨j, hj, hcorrections⟩ := Option.map_eq_some_iff.mp hmap
  have hfix := fix_eq_applyAll 2 hs hj (by rw [hcorrections]; decide +kernel)
  rw [hcorrections] at hfix
  refine ⟨j, _, hs, hj, hcorrections, hfix.trans ?_⟩
  decide +kernel

end TimeJournal
