import TimeJournal.Proofs.Edit.Suggestion

/-! # One correction

After the first correction of a journal was made, the others are left: setting the date, a start time
or a duration to what it should be takes that correction away, and none of the others changes.

* `Journal.exists_entryStep`: the first correction of a journal with the right date is a setting in
  one of its entries, of the start time or of the duration.
* `Journal.exists_step`: the first correction of a journal that was read from a text is a setting of
  one of its parts, after which the other corrections are left. -/

namespace TimeJournal

open Lint

/-! ### Runs of entries -/

/-- The corrections of a run of entries behind an end time. -/
def runEdits (date : Option Date) (previous : Option (Located TimeToken)) (es : List Entry) :
    List TextEdit :=
  (chain previous es).flatMap fun link => entryEdits date link.1 link.2

theorem Journal.corrections_eq (fileDate : Option Date) (j : Journal) : j.corrections fileDate =
    dateEdits fileDate j.frontMatter ++ runEdits (rightDate fileDate j) none j.entries := rfl

section Run

variable {date : Option Date} {previous : Option (Located TimeToken)}

theorem runEdits_cons (e : Entry) (es : List Entry) : runEdits date previous (e :: es) =
    entryEdits date previous e ++ runEdits date (some e.stop) es := by
  rw [runEdits, chain_cons, List.flatMap_cons]
  rfl

theorem runEdits_append (es : List Entry) (e : Entry) (es' : List Entry) :
    runEdits date previous (es ++ e :: es') = runEdits date previous es ++
      (entryEdits date (lastStop previous es) e ++ runEdits date (some e.stop) es') := by
  unfold runEdits
  rw [chain_append, chain_cons, List.flatMap_append, List.flatMap_cons]

/-- The first correction of a run is the first one of an entry, and there is none before. -/
theorem exists_of_runEdits {es : List Entry} {x : TextEdit} {xs : List TextEdit}
    (h : runEdits date previous es = x :: xs) : ∃ before e after rest, es = before ++ e :: after ∧
      runEdits date previous before = [] ∧ entryEdits date (lastStop previous before) e = x :: rest ∧
      xs = rest ++ runEdits date (some e.stop) after := by
  induction es generalizing previous with
  | nil => cases h
  | cons e es ih =>
    rw [runEdits_cons] at h
    rcases hedits : entryEdits date previous e with _ | ⟨y, rest⟩
    · rw [hedits, List.nil_append] at h
      obtain ⟨before, a, after, rest, rfl, hnil, ha, hxs⟩ := ih h
      refine ⟨e :: before, a, after, rest, rfl, ?_, ha, hxs⟩
      rw [runEdits_cons, hedits, hnil, List.append_nil]
    · rw [hedits, List.cons_append] at h
      obtain ⟨rfl, rfl⟩ := List.cons.inj h
      exact ⟨[], e, es, rest, rfl, rfl, hedits, rfl⟩

/-! ### One entry -/

variable {e : Entry}

theorem rightStart_of_nil (h : startEdits date previous e = []) :
    rightStart date previous e = e.start.value := by
  rcases previous with _ | p
  · rfl
  · unfold startEdits at h
    unfold rightStart
    dsimp only at h ⊢
    split_ifs at h ⊢ with hd
    rfl

theorem rightDate_of_nil {fileDate : Option Date} {j : Journal}
    (h : dateEdits fileDate j.frontMatter = []) : rightDate fileDate j = reference j := by
  unfold dateEdits at h
  unfold rightDate reference
  rcases hd : j.frontMatter.date? with _ | d
  · rfl
  rcases fileDate with _ | expected
  · rfl
  rw [hd] at h
  dsimp only at h
  split_ifs at h with heq
  exact congrArg some heq.symm

/-- With the right start time only the correction of the duration is left. -/
theorem entryEdits_withStart (p : Located TimeToken) :
    entryEdits date (some p) (e.withStart p.value) = durationEdits date p.value e := by
  have hself : differ date p.value p.value = false := differ_self date p.value
  have hstart : startEdits date (some p) (e.withStart p.value) = [] := by
    show (if differ date p.value p.value = true then _ else _) = _
    rw [if_neg (by rw [hself]; decide)]
  rw [entryEdits, hstart, rightStart_of_nil hstart]
  rfl

/-- With a duration close to what the times give no correction of the duration is left. -/
theorem entryEdits_withDuration (hnil : startEdits date previous e = []) {a b : Instant}
    (ha : instant? date e.start.value = some a) (hb : instant? date e.stop.value = some b)
    {seconds : ℕ} (hnear : ((seconds : ℤ) - (60 * (b.minutes - a.minutes) : ℕ)).natAbs ≤ 12)
    (raw : String) : entryEdits date previous (e.withDuration seconds raw) = [] := by
  have hstart : startEdits date previous (e.withDuration seconds raw) = [] := hnil
  have hduration : durationEdits date e.start.value (e.withDuration seconds raw) = [] := by
    refine List.eq_nil_iff_forall_not_mem.mpr fun x hx => ?_
    obtain ⟨d, a', b', hd, ha', hb', -, hoff, -⟩ := mem_durationEdits hx
    rw [ha] at ha'
    obtain rfl := Option.some.inj ha'
    rw [show (e.withDuration seconds raw).stop = e.stop from rfl, hb] at hb'
    obtain rfl := Option.some.inj hb'
    rw [Entry.part?_withDuration] at hd
    obtain ⟨d₀, -, rfl⟩ := Option.map_eq_some_iff.mp hd
    unfold defaultTolerance at hoff
    dsimp only at hoff
    omega
  rw [entryEdits, hstart, rightStart_of_nil hstart, List.nil_append]
  exact hduration

end Run

/-! ### The first correction -/

/-- An entry with its start time set to the end time before it, or with its duration set. -/
def Entry.IsSet (previous : Option (Located TimeToken)) (e e' : Entry) : Prop :=
  (∃ p, previous = some p ∧ e' = e.withStart p.value) ∨
    ∃ seconds raw, e' = e.withDuration seconds raw

namespace Journal

variable {s : List Char} {j : Journal} {fileDate : Option Date} {x : TextEdit} {xs : List TextEdit}

theorem step_date (hj : (Reading.ofText s).journal = some j) {d : Located Date}
    (hd : j.frontMatter.date? = some d) (expected : Date) :
    Rereads s j (.date expected) ⟨d.span, expected.toString⟩ ∧
      (j.set (.date expected)).corrections (some expected) =
        runEdits (some expected) none j.entries := by
  refine ⟨rereads hj (partSpan?_date hd expected) trivial, ?_⟩
  have hdate : (j.set (.date expected)).frontMatter.date? = some { d with value := expected } := by
    show (j.frontMatter.withDate expected).date? = _
    rw [FrontMatter.date?_withDate, hd]
    rfl
  have hnil : dateEdits (some expected) (j.set (.date expected)).frontMatter = [] := by
    unfold dateEdits
    rw [hdate]
    exact if_pos rfl
  have hright : rightDate (some expected) (j.set (.date expected)) = some expected := by
    unfold rightDate reference
    rw [hdate]
    rfl
  rw [corrections_eq, hnil, hright, List.nil_append]
  rfl

/-- A change of one entry that keeps its end time and leaves the corrections `rest` in it. -/
theorem corrections_mapLine {f : Entry → Entry} {i : ℕ} {es es' : List Entry} {e : Entry}
    {rest : List TextEdit} (hmap : (j.mapLine i f).entries = es ++ f e :: es')
    (hstop : (f e).stop = e.stop) (hdate : dateEdits fileDate j.frontMatter = [])
    (hbefore : runEdits (rightDate fileDate j) none es = [])
    (hrest : entryEdits (rightDate fileDate j) (lastStop none es) (f e) = rest) :
    (j.mapLine i f).corrections fileDate =
      rest ++ runEdits (rightDate fileDate j) (some e.stop) es' := by
  have hright : rightDate fileDate (j.mapLine i f) = rightDate fileDate j := rfl
  rw [corrections_eq, hmap, hright, runEdits_append, hbefore, hrest, hstop]
  show dateEdits fileDate j.frontMatter ++ _ = _
  rw [hdate]
  rfl

theorem step_start (hj : (Reading.ofText s).journal = some j) {before after : List Entry} {e : Entry}
    (hentries : j.entries = before ++ e :: after) (hdate : dateEdits fileDate j.frontMatter = [])
    (hbefore : runEdits (rightDate fileDate j) none before = []) {p : Located TimeToken}
    (hp : lastStop none before = some p) :
    ∃ i, Rereads s j (.start i p.value) ⟨e.start.span, p.value.raw⟩ ∧
      (j.set (.start i p.value)).entries = before ++ e.withStart p.value :: after ∧
      (j.set (.start i p.value)).corrections fileDate =
        durationEdits (rightDate fileDate j) p.value e ++
          runEdits (rightDate fileDate j) (some e.stop) after := by
  obtain ⟨i, hi, hmap⟩ := exists_line hentries
  have htime := isTime_lastStop_of_ofText hj hentries hp
  refine ⟨i, rereads hj (partSpan?_start hi p.value) htime, hmap _, ?_⟩
  refine corrections_mapLine (hmap (Entry.withStart p.value)) rfl hdate hbefore ?_
  rw [hp]
  exact entryEdits_withStart p

theorem step_duration (hj : (Reading.ofText s).journal = some j) {before after : List Entry}
    {e : Entry} (hentries : j.entries = before ++ e :: after)
    (hdate : dateEdits fileDate j.frontMatter = [])
    (hbefore : runEdits (rightDate fileDate j) none before = [])
    (hstart : startEdits (rightDate fileDate j) (lastStop none before) e = [])
    (hx : x ∈ durationEdits (rightDate fileDate j) e.start.value e) :
    ∃ i seconds raw, Rereads s j (.duration i seconds raw) x ∧
      (j.set (.duration i seconds raw)).entries = before ++ e.withDuration seconds raw :: after ∧
      (j.set (.duration i seconds raw)).corrections fileDate =
        runEdits (rightDate fileDate j) (some e.stop) after := by
  obtain ⟨d, a, b, hd, ha, hb, -, -, rfl⟩ := mem_durationEdits hx
  obtain ⟨i, hi, hmap⟩ := exists_line hentries
  obtain ⟨seconds, hs, hnear⟩ := Hours.exists_seconds?_render (Command.minutes_sub_lt (a := a) hb)
  set raw := Hours.render (60 * (b.minutes - a.minutes))
  have hspan := partSpan?_duration hi hd seconds raw
  refine ⟨i, seconds, raw, rereads hj hspan ⟨Hours.isDecimal_render _, hs⟩, hmap _, ?_⟩
  exact corrections_mapLine (hmap (Entry.withDuration seconds raw)) rfl hdate hbefore
    (entryEdits_withDuration hstart ha hb hnear raw)

/-- **With the right date the first correction sets one entry**, and the others are left. -/
theorem exists_entryStep (hj : (Reading.ofText s).journal = some j)
    (hdate : dateEdits fileDate j.frontMatter = []) (h : j.corrections fileDate = x :: xs) :
    ∃ y before e e' after, Rereads s j y x ∧ (j.set y).corrections fileDate = xs ∧
      (j.set y).frontMatter = j.frontMatter ∧ j.entries = before ++ e :: after ∧
      (j.set y).entries = before ++ e' :: after ∧ e.IsSet (lastStop none before) e' := by
  rw [corrections_eq, hdate, List.nil_append] at h
  obtain ⟨before, e, after, rest, hentries, hbefore, hedits, rfl⟩ := exists_of_runEdits h
  rw [entryEdits] at hedits
  rcases hstart : startEdits (rightDate fileDate j) (lastStop none before) e with _ | ⟨z, zs⟩
  · have hone := length_le_one_durationEdits (rightDate fileDate j) e.start.value e
    rw [hstart, List.nil_append, rightStart_of_nil hstart] at hedits
    rw [hedits, List.length_cons] at hone
    obtain rfl := List.eq_nil_of_length_eq_zero (show rest.length = 0 by omega)
    obtain ⟨i, seconds, raw, hreads, hset, hcorrections⟩ :=
      step_duration hj hentries hdate hbefore hstart (by
        rw [hedits]; exact List.mem_cons_self)
    exact ⟨_, before, e, _, after, hreads, hcorrections, rfl, hentries, hset,
      Or.inr ⟨seconds, raw, rfl⟩⟩
  · obtain ⟨p, hp, hne, hz⟩ := mem_startEdits (x := z) (by
      rw [hstart]; exact List.mem_cons_self)
    have hone := length_le_one_startEdits (rightDate fileDate j) (lastStop none before) e
    rw [hstart, List.length_cons] at hone
    obtain rfl := List.eq_nil_of_length_eq_zero (show zs.length = 0 by omega)
    rw [hstart, List.cons_append, List.nil_append] at hedits
    obtain ⟨rfl, rfl⟩ := List.cons.inj hedits
    obtain ⟨i, hreads, hset, hcorrections⟩ := step_start hj hentries hdate hbefore hp
    have hright : rightStart (rightDate fileDate j) (lastStop none before) e = p.value := by
      rw [hp]
      exact if_pos hne
    exact ⟨_, before, e, _, after, hz ▸ hreads, by rw [hcorrections, hright], rfl, hentries, hset,
      Or.inl ⟨p, hp, rfl⟩⟩

/-- **The first correction sets one part, and the others are left.** -/
theorem exists_step (hj : (Reading.ofText s).journal = some j)
    (h : j.corrections fileDate = x :: xs) :
    ∃ y, Rereads s j y x ∧ (j.set y).corrections fileDate = xs := by
  rcases hdate : dateEdits fileDate j.frontMatter with _ | ⟨z, zs⟩
  · obtain ⟨y, -, -, -, -, hreads, hcorrections, -⟩ := exists_entryStep hj hdate h
    exact ⟨y, hreads, hcorrections⟩
  · obtain ⟨d, expected, hd, rfl, -, hz⟩ := mem_dateEdits (x := z) (by
      rw [hdate]; exact List.mem_cons_self)
    obtain ⟨hreads, hcorrections⟩ := step_date hj hd expected
    have hone := length_le_one_dateEdits (some expected) j.frontMatter
    obtain rfl : zs = [] := by
      rw [hdate, List.length_cons] at hone
      exact List.eq_nil_of_length_eq_zero (by omega)
    rw [corrections_eq, hdate, List.cons_append, List.nil_append] at h
    obtain ⟨rfl, rfl⟩ := List.cons.inj h
    refine ⟨.date expected, hz ▸ hreads, ?_⟩
    rw [hcorrections]
    unfold rightDate reference
    rw [hd]
    rfl

end Journal

end TimeJournal
