import TimeJournal.Proofs.CommandLine.InPlace
import TimeJournal.Proofs.Lint.Backwards

/-! # Time ranges after fixing

A start time is corrected in view of the end time before it only, so a correction can put it behind
the end time of its own entry. That happens to entries which lie wholly before the end of the entry
before them, and to no others, as long as the date stays what it is: every other entry that stops
before it starts once a text is fixed did so before.

* `Link.IsKept`: what corrections keep of an entry; `Journal.isKept_of_isSet`: one correction keeps
  it, `Journal.exists_isKept_after`: so do all of them, by induction on their number.
* `reports_iff`: which entries a check reports as stopping before they start.
* `fix_reports`: the entries that are reported once a text is fixed.
* `fix_backwards_overlapText`: an entry that is reported only then. -/

namespace TimeJournal

open Lint

/-! ### What corrections keep -/

/-- An entry and the end time before it. -/
abbrev Link := Option (Located TimeToken) × Entry

/-- What corrections keep of an entry: both end times, and whether it has a duration. Its start time
is kept, or it is now the end time before. -/
structure Link.IsKept (link link' : Link) : Prop where
  previous_eq : link'.1.map Located.value = link.1.map Located.value
  stop_eq : link'.2.stop.value = link.2.stop.value
  isSome_eq : link'.2.duration.part?.isSome = link.2.duration.part?.isSome
  start_eq : link'.2.start.value = link.2.start.value ∨
    link.1.map Located.value = some link'.2.start.value

namespace Link.IsKept

variable {link link' link'' : Link}

theorem refl (link : Link) : link.IsKept link := ⟨rfl, rfl, rfl, Or.inl rfl⟩

theorem trans (h : link.IsKept link') (h' : link'.IsKept link'') : link.IsKept link'' where
  previous_eq := h'.previous_eq.trans h.previous_eq
  stop_eq := h'.stop_eq.trans h.stop_eq
  isSome_eq := h'.isSome_eq.trans h.isSome_eq
  start_eq := by
    rcases h'.start_eq with heq | heq
    · rw [heq]
      exact h.start_eq
    · exact Or.inr (h.previous_eq ▸ heq)

theorem move (m : ℕ →o ℕ) (link : Link) :
    link.IsKept (link.1.map (Located.move m), link.2.move m) where
  previous_eq := by
    rw [Option.map_map]
    rfl
  stop_eq := rfl
  isSome_eq := by rw [Entry.part?_move, Option.isSome_map]
  start_eq := Or.inl rfl

theorem of_isSet {previous : Option (Located TimeToken)} {e e' : Entry} (h : e.IsSet previous e') :
    Link.IsKept (previous, e) (previous, e') := by
  rcases h with ⟨p, rfl, rfl⟩ | ⟨seconds, raw, rfl⟩
  · exact ⟨rfl, rfl, rfl, Or.inr rfl⟩
  · exact ⟨rfl, rfl, by rw [Entry.part?_withDuration, Option.isSome_map], Or.inl rfl⟩

theorem forall₂_trans {links links' links'' : List Link}
    (h : List.Forall₂ Link.IsKept links links') (h' : List.Forall₂ Link.IsKept links' links'') :
    List.Forall₂ Link.IsKept links links'' := by
  induction h generalizing links'' with
  | nil => exact h'
  | cons hlink _ ih =>
    obtain ⟨link'', rest, hlink', hrest, rfl⟩ := List.forall₂_cons_left_iff.mp h'
    exact List.Forall₂.cons (hlink.trans hlink') (ih hrest)

end Link.IsKept

theorem Entry.IsSet.stop_eq {previous : Option (Located TimeToken)} {e e' : Entry}
    (h : e.IsSet previous e') : e'.stop = e.stop := by
  rcases h with ⟨p, -, rfl⟩ | ⟨seconds, raw, rfl⟩
  · rfl
  · rfl

namespace Journal

variable {j : Journal} {fileDate : Option Date}

/-- The date in a file name is that of the front matter, if there are both. -/
def Agrees (fileDate : Option Date) (j : Journal) : Prop :=
  ∀ d expected, j.frontMatter.date? = some d → fileDate = some expected → d.value = expected

theorem Agrees.dateEdits_eq (h : j.Agrees fileDate) : dateEdits fileDate j.frontMatter = [] := by
  refine List.eq_nil_iff_forall_not_mem.mpr fun x hx => ?_
  obtain ⟨d, expected, hd, hfile, hne, -⟩ := mem_dateEdits hx
  exact hne (h d expected hd hfile)

/-- A journal with some corrections made: its dates agree as before, and its entries are kept. -/
structure IsKept (fileDate : Option Date) (j j' : Journal) : Prop where
  agrees : j'.Agrees fileDate
  reference_eq : reference j' = reference j
  links : List.Forall₂ Link.IsKept j.chain j'.chain

/-- **One correction keeps the entries.** -/
theorem isKept_of_isSet {j' : Journal} {before after : List Entry} {e e' : Entry}
    (hagrees : j.Agrees fileDate) (hfront : j'.frontMatter = j.frontMatter)
    (hentries : j.entries = before ++ e :: after) (hentries' : j'.entries = before ++ e' :: after)
    (hset : e.IsSet (lastStop none before) e') (m : ℕ →o ℕ) : j.IsKept fileDate (j'.move m) where
  agrees d expected hd hfile := by
    rw [show (j'.move m).frontMatter = j'.frontMatter.move m from rfl, FrontMatter.date?_move,
      hfront] at hd
    obtain ⟨d', hd', rfl⟩ := Option.map_eq_some_iff.mp hd
    exact hagrees d' expected hd' hfile
  reference_eq := by
    rw [reference_move, reference, hfront]
    rfl
  links := by
    have hsame : ∀ links : List Link, List.Forall₂ Link.IsKept links links := fun links =>
      List.forall₂_same.mpr fun link _ => .refl link
    have hstep : List.Forall₂ Link.IsKept j.chain j'.chain := by
      rw [chain, chain, hentries, hentries', chain_append, chain_append, chain_cons, chain_cons,
        hset.stop_eq]
      exact List.rel_append (hsame _) (.cons (.of_isSet hset) (hsame _))
    refine Link.IsKept.forall₂_trans hstep ?_
    rw [chain_move, List.forall₂_map_right_iff]
    exact List.forall₂_same.mpr fun link _ => .move m link

/-- **Any number of corrections keeps the entries.** -/
theorem exists_isKept_after {s : List Char} (hj : (Reading.ofText s).journal = some j)
    (hagrees : j.Agrees fileDate) (k : ℕ) :
    ∃ j', (Reading.ofText (TextEdit.applyAll 0 ((j.corrections fileDate).take k) s)).journal =
        some j' ∧ j.IsKept fileDate j' := by
  have hself : ∀ j : Journal, j.Agrees fileDate → j.IsKept fileDate j := fun j h =>
    ⟨h, rfl, List.forall₂_same.mpr fun link _ => .refl link⟩
  induction k generalizing s j with
  | zero =>
    rw [List.take_zero, TextEdit.applyAll_nil]
    exact ⟨j, hj, hself j hagrees⟩
  | succ k ih =>
    rcases hcorrections : j.corrections fileDate with _ | ⟨x, xs⟩
    · rw [List.take_nil, TextEdit.applyAll_nil]
      exact ⟨j, hj, hself j hagrees⟩
    · obtain ⟨y, before, e, e', after, hreads, hrest, hfront, hentries, hset, hisSet⟩ :=
        exists_entryStep hj hagrees.dateEdits_eq hcorrections
      have hstep := isKept_of_isSet hagrees hfront hentries hset hisSet x.move
      obtain ⟨-, hpass⟩ := hreads.rest hj hcorrections hrest
      obtain ⟨j', hj', hkept⟩ := ih hreads.journal hstep.agrees
      rw [hpass, hcorrections] at hj'
      exact ⟨j', hj', hkept.agrees, hkept.reference_eq.trans hstep.reference_eq,
        Link.IsKept.forall₂_trans hstep.links hkept.links⟩

/-- Entries at the same place, and the end times before them. -/
theorem IsKept.link {j' : Journal} (h : j.IsKept fileDate j') {i : ℕ} {e e' : Entry}
    (he : j.entries[i]? = some e) (he' : j'.entries[i]? = some e') :
    ∃ link link' : Link, j.chain[i]? = some link ∧ link.2 = e ∧ link'.2 = e' ∧
      link.IsKept link' := by
  have hmap : ∀ j : Journal, j.chain.map Prod.snd = j.entries := fun j => map_snd_chain none j.entries
  rw [← hmap, List.getElem?_map, Option.map_eq_some_iff] at he he'
  obtain ⟨link, hlink, rfl⟩ := he
  obtain ⟨link', hlink', rfl⟩ := he'
  have hzip : (j.chain.zip j'.chain)[i]? = some (link, link') :=
    List.getElem?_zip_eq_some.mpr ⟨hlink, hlink'⟩
  exact ⟨link, link', hlink, rfl, rfl, List.forall₂_zip h.links (List.mem_of_getElem? hzip)⟩

/-- The end time before an entry is that of the entry at the place before. -/
theorem exists_of_getElem?_chain {i : ℕ} {link : Link} {p : TimeToken}
    (h : j.chain[i]? = some link) (hp : link.1.map Located.value = some p) :
    ∃ k a, i = k + 1 ∧ j.entries[k]? = some a ∧ a.stop.value = p := by
  obtain ⟨stop, hstop, rfl⟩ := Option.map_eq_some_iff.mp hp
  obtain ⟨hprevious, -⟩ := List.getElem?_zip_eq_some.mp (show (List.zip _ _)[i]? = some (_, _) from h)
  rcases i with _ | k
  · rw [List.getElem?_cons_zero, hstop] at hprevious
    cases hprevious
  · rw [List.getElem?_cons_succ, List.getElem?_map, hstop] at hprevious
    obtain ⟨a, ha, hstop⟩ := Option.map_eq_some_iff.mp hprevious
    exact ⟨k, a, rfl, ha, by rw [Option.some.inj hstop]⟩

end Journal

/-! ### What a check reports -/

/-- A check of the text reports that an entry stops before it starts, on its end time. -/
def Reports (source : Option String) (text : String) (e : Entry) : Prop :=
  ∃ checked, check source text = .ok checked ∧
    ∃ f ∈ checked.findings, f.rule = .negativeRange ∧ f.span = e.stop.span

instance (source : Option String) (text : String) (e : Entry) :
    Decidable (Reports source text e) :=
  match h : check source text with
  | .ok checked => decidable_of_iff
      (∃ f ∈ checked.findings, f.rule = .negativeRange ∧ f.span = e.stop.span)
      ⟨fun hf => ⟨checked, h, hf⟩, fun ⟨_, hc, hf⟩ => Except.ok.inj (h.symm.trans hc) ▸ hf⟩
  | .error _ => isFalse fun ⟨_, hc, _⟩ => nomatch h.symm.trans hc

section Reports

variable {source : Option String} {fileDate : Option Date} {text : String} {j : Journal} {e : Entry}

/-- Without a date no time has an instant. -/
theorem backwards_none (e : Entry) : backwards none e = [] := by
  unfold backwards
  rcases e.duration.part? with _ | d
  · rfl
  · rfl

/-- A finding of the rule comes from the journal: a fault of the text is of another rule. -/
theorem mem_filter_declared_iff {settings : Settings} {f : Finding} :
    (f ∈ (⟨Reading.ofText text.toList, declared settings j⟩ : Checked).findings ∧
      f.rule = .negativeRange) ↔ f ∈ j.entries.flatMap (backwards (reference j)) := by
  rw [← filter_declared settings, List.mem_filter, Checked.findings, List.mem_append]
  unfold isNegativeRange
  rw [decide_eq_true_eq]
  constructor
  · rintro ⟨hfault | hf, hrule⟩
    · obtain ⟨fault, -, rfl⟩ := List.mem_map.mp hfault
      cases hrule
    · exact ⟨hf, hrule⟩
  · exact fun h => ⟨Or.inr h.1, h.2⟩

/-- **An entry is reported if its duration was read and it stops before it starts.** -/
theorem reports_iff (hs : Location.date? source = .ok fileDate)
    (hj : (Reading.ofText text.toList).journal = some j) (he : e ∈ j.entries) :
    Reports source text e ↔ text.length ≤ Journal.defaultLimit ∧ e.duration.part?.isSome = true ∧
      ∃ day, reference j = some day ∧ e.IsBackwards day := by
  set settings : Settings := ⟨source.getD "", fileDate, defaultTolerance⟩
  constructor
  · rintro ⟨checked, hcheck, f, hf, hrule, hspan⟩
    have hsize := length_le_of_check hcheck
    obtain rfl := Except.ok.inj (hcheck.symm.trans (check_eq hs hj hsize))
    have hmem := mem_filter_declared_iff.mp ⟨hf, hrule⟩
    rcases hday : j.frontMatter.date? with _ | day
    · obtain ⟨a, -, ha⟩ := List.mem_flatMap.mp hmem
      rw [reference, hday, Option.map_none, backwards_none] at ha
      cases ha
    · have hself := (isOrdered_of_ofText hj).filter_span_declared settings hday he
      rw [filter_declared] at hself
      have hback : f ∈ backwards (some day.value) e := by
        rw [← hself]
        exact List.mem_filter.mpr ⟨hmem, decide_eq_true hspan⟩
      obtain ⟨⟨d, hd⟩, hback, -⟩ := mem_backwards hback
      refine ⟨hsize, ?_, day.value, by rw [reference, hday]; rfl, hback⟩
      rw [hd]
      rfl
  · rintro ⟨hsize, hduration, day, hday, hback⟩
    obtain ⟨d, hd⟩ := Option.isSome_iff_exists.mp hduration
    have hself := backwards_eq (Recovered.part?_eq_some_iff.mp hd) hback
    have hmem : ⟨e.stop.span, .negativeRange e.start.value⟩ ∈
        j.entries.flatMap (backwards (reference j)) := by
      refine List.mem_flatMap.mpr ⟨e, he, ?_⟩
      rw [hday, hself]
      exact List.mem_cons_self
    obtain ⟨hf, hrule⟩ := mem_filter_declared_iff.mpr hmem
    exact ⟨_, check_eq hs hj hsize, _, hf, hrule, rfl⟩

end Reports

/-- **Which entries are reported once a text is fixed.** If the date in the file name is that of the
front matter, they are entries that were reported before, and entries whose start time is now the end
time of the entry before them, which lies behind their own. -/
theorem fix_reports {source : Option String} {fileDate : Option Date} {text after : String}
    {j : Journal} {rounds applied : ℕ} (hs : Location.date? source = .ok fileDate)
    (hj : (Reading.ofText text.toList).journal = some j) (hagrees : j.Agrees fileDate)
    (hfix : (fix text source rounds).2 = .ok (after, applied)) :
    ∃ j', (Reading.ofText after.toList).journal = some j' ∧
      j'.entries.length = j.entries.length ∧
      ∀ i e e', j.entries[i]? = some e → j'.entries[i]? = some e' → Reports source after e' →
        Reports source text e ∨
          ∃ k p day a b, i = k + 1 ∧ j.entries[k]? = some p ∧ e'.start.value = p.stop.value ∧
            reference j = some day ∧ p.stop.value.resolve day = .ok a ∧
            e.stop.value.resolve day = .ok b ∧ b.minutes < a.minutes := by
  -- without a round nothing is known of the length of the text, but then it is what fixing gives
  have hsize : after.length ≤ Journal.defaultLimit → text.length ≤ Journal.defaultLimit := by
    rcases rounds with _ | n
    · obtain ⟨rfl, -⟩ := Prod.mk.inj (Except.ok.inj (fix_zero.symm.trans hfix))
      exact id
    · exact fun _ => length_le_of_fix hfix
  obtain ⟨-, rfl, -⟩ := fitsIn_of_fix hs hj hfix
  obtain ⟨j', hj', hkept⟩ := Journal.exists_isKept_after hj hagrees rounds
  have hread : (Reading.ofText (String.ofList (TextEdit.applyAll 0
      ((j.corrections fileDate).take rounds) text.toList)).toList).journal = some j' := by
    rw [String.toList_ofList]
    exact hj'
  refine ⟨j', hread, ?_, fun i e e' he he' hreports => ?_⟩
  · rw [← map_snd_chain none j.entries, ← map_snd_chain none j'.entries, List.length_map,
      List.length_map]
    exact hkept.links.length_eq.symm
  · obtain ⟨hlimit, hduration, day, hday, a, b, ha, hb, hlt⟩ :=
      (reports_iff hs hread (List.mem_of_getElem? he')).mp hreports
    obtain ⟨link, link', hlink, rfl, rfl, hsame⟩ := hkept.link he he'
    rw [hkept.reference_eq] at hday
    rw [hsame.isSome_eq] at hduration
    rw [hsame.stop_eq] at hb
    rcases hsame.start_eq with hstart | hprevious
    · rw [hstart] at ha
      exact Or.inl ((reports_iff hs hj (List.mem_of_getElem? he)).mpr
        ⟨hsize hlimit, hduration, day, hday, a, b, ha, hb, hlt⟩)
    · obtain ⟨k, p, hi, hp, hstop⟩ := Journal.exists_of_getElem?_chain hlink hprevious
      exact Or.inr ⟨k, p, day, a, b, hi, hp, hstop.symm, hday, by rw [hstop]; exact ha, hb, hlt⟩

/-- A day whose first entry stops before it starts, and whose second one starts too late. -/
def lateText : String :=
  "---\ndate: 2006-01-02\n---\n- 10:00-09:00 1.00 a\n- 09:30-10:00 0.50 b\n"

/-- The first entry is reported before and after, since there is none before it. -/
theorem fix_reports_lateText : ∃ after j j' e e',
    (fix lateText none 4).2 = .ok (after, 2) ∧
    after = "---\ndate: 2006-01-02\n---\n- 10:00-09:00 1.00 a\n- 09:00-10:00 1.00 b\n" ∧
    Location.date? none = .ok none ∧ (Reading.ofText lateText.toList).journal = some j ∧
    j.Agrees none ∧ (Reading.ofText after.toList).journal = some j' ∧
    j.entries[0]? = some e ∧ j'.entries[0]? = some e' ∧ Reports none after e' ∧
    Reports none lateText e := by
  set after : String :=
    "---\ndate: 2006-01-02\n---\n- 10:00-09:00 1.00 a\n- 09:00-10:00 1.00 b\n" with hafter
  have hfix : (fix lateText none 4).2 = .ok (after, 2) := by rw [hafter]; decide +kernel
  have hentry : ((Reading.ofText lateText.toList).journal.bind fun j => j.entries[0]?).isSome =
      true := by decide +kernel
  have hentry' : (Reading.ofText after.toList).journal.bind (fun j =>
      j.entries[0]?.map fun e => decide (Reports none after e)) = some true := by
    rw [hafter]; decide +kernel
  obtain ⟨e, hentry⟩ := Option.isSome_iff_exists.mp hentry
  obtain ⟨j, hj, he⟩ := Option.bind_eq_some_iff.mp hentry
  obtain ⟨j₁, hj₁, hentry'⟩ := Option.bind_eq_some_iff.mp hentry'
  obtain ⟨e', he', hreports⟩ := Option.map_eq_some_iff.mp hentry'
  have hagrees : j.Agrees none := fun _ _ _ hfile => nomatch hfile
  obtain ⟨j', hj', -, hkept⟩ := fix_reports rfl hj hagrees hfix
  obtain rfl := Option.some.inj (hj₁.symm.trans hj')
  refine ⟨after, j, j₁, e, e', hfix, rfl, rfl, hj, hagrees, hj₁, he, he',
    of_decide_eq_true hreports, ?_⟩
  rcases hkept 0 e e' he he' (of_decide_eq_true hreports) with hbefore | ⟨k, -, -, -, -, hk, -⟩
  · exact hbefore
  · exact absurd hk k.succ_ne_zero.symm

/-- A day whose second entry lies wholly inside the first one. -/
def overlapText : String :=
  "---\ndate: 2006-01-02\n---\n- 10:00-12:00 2.00 a\n- 11:00-11:30 0.50 b\n"

/-- Once the text is fixed, the second entry starts where the first one stops, and is reported: it
stops before it starts only then. -/
theorem fix_backwards_overlapText : ∃ after j j' e e',
    (fix overlapText none defaultRounds).2 = .ok (after, 1) ∧
    after = "---\ndate: 2006-01-02\n---\n- 10:00-12:00 2.00 a\n- 12:00-11:30 0.50 b\n" ∧
    Location.date? none = .ok none ∧ (Reading.ofText overlapText.toList).journal = some j ∧
    j.Agrees none ∧ (Reading.ofText after.toList).journal = some j' ∧
    j.entries[1]? = some e ∧ j'.entries[1]? = some e' ∧ Reports none after e' ∧
    ¬ Reports none overlapText e := by
  set after : String :=
    "---\ndate: 2006-01-02\n---\n- 10:00-12:00 2.00 a\n- 12:00-11:30 0.50 b\n" with hafter
  have hentry : (Reading.ofText overlapText.toList).journal.map (fun j =>
      (j.corrections none, j.entries[1]?.map fun e => decide (Reports none overlapText e))) =
      some ([⟨⟨48, 53, by decide⟩, "12:00"⟩], some false) := by decide +kernel
  have hentry' : (Reading.ofText after.toList).journal.bind (fun j =>
      j.entries[1]?.map fun e => decide (Reports none after e)) = some true := by
    rw [hafter]; decide +kernel
  obtain ⟨j, hj, hentry⟩ := Option.map_eq_some_iff.mp hentry
  obtain ⟨hcorrections, hentry⟩ := Prod.mk.inj hentry
  obtain ⟨e, he, hsilent⟩ := Option.map_eq_some_iff.mp hentry
  obtain ⟨j', hj', hentry'⟩ := Option.bind_eq_some_iff.mp hentry'
  obtain ⟨e', he', hreports⟩ := Option.map_eq_some_iff.mp hentry'
  -- more rounds than there are corrections come to the same
  have hfits : FitsIn Journal.defaultLimit defaultRounds (j.corrections none) overlapText.toList :=
    fitsIn_of_length (by rw [hcorrections]; decide +kernel)
  have hs : Location.date? none = .ok none := rfl
  have hfix := fix_of_fitsIn hs hj hfits
  rw [hcorrections, List.take_of_length_le (by decide)] at hfix
  have htext : String.ofList (TextEdit.applyAll 0 [⟨⟨48, 53, by decide⟩, "12:00"⟩]
      overlapText.toList) = after := by rw [hafter]; decide +kernel
  rw [htext] at hfix
  have hagrees : j.Agrees none := fun _ _ _ hfile => nomatch hfile
  exact ⟨after, j, j', e, e', hfix, rfl, rfl, hj, hagrees, hj', he, he',
    of_decide_eq_true hreports, of_decide_eq_false hsilent⟩

end TimeJournal
