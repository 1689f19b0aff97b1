import TimeJournal.Edit.Command
import TimeJournal.Proofs.Journal.Layout
import TimeJournal.Proofs.Lint.Rules

/-! # What a command works on

A command looks for its target in one traversal. Said without a traversal: `durationAt?` is the first
duration that a selection meets, with its entry, and `startAt?` the first such start time, with the
end time in front of its entry.

* `DurationTarget.found_ofJournal`, `StartTarget.found_ofJournal`: what the traversals find.
* `Journal.IsLaidOut.durationAt?_span`, `Journal.IsLaidOut.startAt?_span`: in a journal that was read
  from a text, the span of a part selects that part. -/

namespace TimeJournal

/-- The first duration that a selection meets, with its entry. -/
def Journal.durationAt? (j : Journal) (selection : Span) : Option (Duration × Entry) :=
  j.entries.findSome? fun e =>
    (e.duration.part?.filter fun d => d.span.Meets selection).map fun d => (d, e)

/-- The first start time that a selection meets, as its entry, with the end time before. -/
def Journal.startAt? (j : Journal) (selection : Span) :
    Option (Option (Located TimeToken) × Entry) :=
  j.chain.find? fun link => link.2.start.span.Meets selection

/-! ### Durations -/

namespace DurationTarget

variable {selection : Span}

theorem foldl_frontMatter (f : FrontMatter) :
    f.events.foldl (step selection) init = { init with reference := f.date?.map Located.value } := by
  rcases hd : f.date? with _ | d <;> rcases hs : f.start with _ | a <;>
    rcases ht : f.stop with _ | b <;> simp [FrontMatter.events, hd, hs, ht, step, init]

/-- An entry is the target if nothing was found before and the selection meets its duration. -/
def ofEntry (selection : Span) (e : Entry) :
    Option (Duration × Option TimeToken × Option TimeToken) :=
  (e.duration.part?.filter fun d => d.span.Meets selection).map fun d =>
    (d, some e.start.value, some e.stop.value)

theorem foldl_entry (e : Entry) (t : DurationTarget) : e.events.foldl (step selection) t =
    ⟨t.reference, some e.start.value, some e.stop.value, t.found.or (ofEntry selection e)⟩ := by
  have hduration : ∀ found,
      (e.duration.part?.map Event.duration).toList.foldl (step selection)
        ⟨t.reference, some e.start.value, some e.stop.value, found⟩ =
      ⟨t.reference, some e.start.value, some e.stop.value, found.or (ofEntry selection e)⟩ := by
    intro found
    unfold ofEntry
    rcases e.duration.part? with _ | d
    · simp
    · by_cases hm : d.span.Meets selection
      · rcases found with _ | f <;> simp [step, hm, Option.filter]
      · rcases found with _ | f <;> simp [step, hm, Option.filter]
  show ((e.codes.map Event.code ++ (e.duration.part?.map Event.duration).toList) ++
    [Event.activity e.activity, .entryDone e]).foldl (step selection)
      ⟨t.reference, some e.start.value, some e.stop.value, t.found⟩ = _
  rw [List.foldl_append, List.foldl_append, foldl_codes fun _ _ => rfl, hduration]
  rfl

theorem foldl_entries (selection : Span) (es : List Entry) (t : DurationTarget) :
    ((es.flatMap Entry.events).foldl (step selection) t).reference = t.reference ∧
      ((es.flatMap Entry.events).foldl (step selection) t).found =
        t.found.or (es.findSome? (ofEntry selection)) := by
  induction es generalizing t with
  | nil => simp
  | cons e es ih =>
    rw [List.flatMap_cons, List.foldl_append, foldl_entry]
    obtain ⟨href, hfound⟩ := ih ⟨t.reference, some e.start.value, some e.stop.value,
      t.found.or (ofEntry selection e)⟩
    refine ⟨href, hfound.trans ?_⟩
    rw [List.findSome?_cons]
    rcases t.found with _ | f
    · rcases ofEntry selection e with _ | g <;> rfl
    · rfl

theorem reference_ofJournal (j : Journal) : (ofJournal j selection).reference = Lint.reference j := by
  unfold ofJournal Journal.events
  rw [List.foldl_append, List.foldl_append, foldl_frontMatter]
  exact (foldl_entries selection j.entries _).1

/-- **The traversal finds the first duration that the selection meets.** -/
theorem found_ofJournal (j : Journal) : (ofJournal j selection).found =
    (j.durationAt? selection).map fun a => (a.1, some a.2.start.value, some a.2.stop.value) := by
  have hfound := (foldl_entries selection j.entries
    { init with reference := j.frontMatter.date?.map Located.value }).2
  have hentry : ofEntry selection = Option.map (fun a : Duration × Entry =>
      (a.1, some a.2.start.value, some a.2.stop.value)) ∘ fun e : Entry =>
        (e.duration.part?.filter fun d => d.span.Meets selection).map fun d => (d, e) := by
    funext e
    rw [Function.comp_apply, Option.map_map]
    rfl
  unfold ofJournal Journal.events Journal.durationAt?
  rw [List.foldl_append, List.foldl_append, foldl_frontMatter, List.map_findSome?, ← hentry]
  exact hfound

end DurationTarget

/-! ### Start times -/

namespace StartTarget

variable {selection : Span}

theorem foldl_frontMatter (f : FrontMatter) : f.events.foldl (step selection) init = init := by
  rcases hd : f.date? with _ | d <;> rcases hs : f.start with _ | a <;>
    rcases ht : f.stop with _ | b <;> simp [FrontMatter.events, hd, hs, ht, step]

/-- The start time of an entry, with the end time in front of it, if the selection meets it. -/
def ofEntry (selection : Span) (link : Option (Located TimeToken) × Entry) :
    Option (Located TimeToken × Option (Located TimeToken)) :=
  if link.2.start.span.Meets selection then some (link.2.start, link.1) else none

theorem foldl_entry (e : Entry) (previous current : Option (Located TimeToken))
    (found : Option (Located TimeToken × Option (Located TimeToken))) :
    e.events.foldl (step selection) ⟨previous, current, found⟩ =
      ⟨some e.stop, none, found.or (ofEntry selection (previous, e))⟩ := by
  have hstart : step selection ⟨previous, current, found⟩ (.start e.start) =
      ⟨previous, current, found.or (ofEntry selection (previous, e))⟩ := by
    unfold step ofEntry
    by_cases hm : e.start.span.Meets selection
    · rcases found with _ | f <;> simp [hm]
    · rcases found with _ | f <;> simp [hm]
  have hduration : ∀ t,
      (e.duration.part?.map Event.duration).toList.foldl (step selection) t = t := by
    intro t
    cases e.duration.part? <;> rfl
  show ((e.codes.map Event.code ++ (e.duration.part?.map Event.duration).toList) ++
    [Event.activity e.activity, .entryDone e]).foldl (step selection)
      (step selection (step selection ⟨previous, current, found⟩ (.start e.start)) (.stop e.stop)) = _
  rw [List.foldl_append, List.foldl_append, hstart, foldl_codes fun _ _ => rfl, hduration]
  rfl

theorem foldl_entries (selection : Span) (es : List Entry) (previous : Option (Located TimeToken))
    (found : Option (Located TimeToken × Option (Located TimeToken))) :
    ((es.flatMap Entry.events).foldl (step selection) ⟨previous, none, found⟩).found =
      found.or ((chain previous es).findSome? (ofEntry selection)) := by
  induction es generalizing previous found with
  | nil => simp
  | cons e es ih =>
    rw [List.flatMap_cons, List.foldl_append, foldl_entry, ih, chain_cons, List.findSome?_cons]
    rcases found with _ | f
    · rcases ofEntry selection (previous, e) with _ | g <;> rfl
    · rfl

/-- **The traversal finds the first start time that the selection meets.** -/
theorem found_ofJournal (j : Journal) : (ofJournal j selection).found =
    (j.startAt? selection).map fun link => (link.2.start, link.1) := by
  have hfound := foldl_entries selection j.entries none none
  have hlink : ∀ links : List (Option (Located TimeToken) × Entry),
      links.findSome? (ofEntry selection) =
        (links.find? fun link => link.2.start.span.Meets selection).map fun link =>
          (link.2.start, link.1) := by
    intro links
    induction links with
    | nil => rfl
    | cons link links ih =>
      rw [List.findSome?_cons, List.find?_cons, ofEntry]
      by_cases hm : link.2.start.span.Meets selection
      · simp [hm]
      · simp [hm, ih]
  unfold ofJournal Journal.events Journal.startAt?
  rw [List.foldl_append, List.foldl_append, foldl_frontMatter, ← hlink]
  exact hfound

end StartTarget

/-! ### Selections -/

namespace Journal

variable {j : Journal} {selection : Span}

theorem exists_of_durationAt? {d : Duration} {e : Entry}
    (h : j.durationAt? selection = some (d, e)) :
    e ∈ j.entries ∧ e.duration.part? = some d := by
  obtain ⟨a, ha, hfound⟩ := List.exists_of_findSome?_eq_some h
  obtain ⟨d', hd', heq⟩ := Option.map_eq_some_iff.mp hfound
  obtain ⟨rfl, rfl⟩ := Prod.mk.inj heq
  exact ⟨ha, (Option.filter_eq_some_iff.mp hd').1⟩

theorem exists_of_startAt? {p : Option (Located TimeToken)} {e : Entry}
    (h : j.startAt? selection = some (p, e)) :
    ∃ es es', j.entries = es ++ e :: es' ∧ p = lastStop none es :=
  mem_chain_iff.mp (List.mem_of_find?_eq_some h)

namespace IsLaidOut

variable {es es' : List Entry} {e : Entry}

theorem before (h : j.IsLaidOut) (hj : j.entries = es ++ e :: es') {a : Entry} (ha : a ∈ es) :
    a.span.stop ≤ e.span.start := by
  have hp := h.pairwise
  rw [hj] at hp
  exact (List.pairwise_append.mp hp).2.2 a ha e List.mem_cons_self

/-- **The span of a duration selects that duration.** -/
theorem durationAt?_span (h : j.IsLaidOut) (hj : j.entries = es ++ e :: es') {d : Duration}
    (hd : e.duration.part? = some d) : j.durationAt? d.span = some (d, e) := by
  have he := h.entry e (by rw [hj]; exact List.mem_append_right _ List.mem_cons_self)
  have hself : d.span.Meets d.span := by
    have := d.span.start_le_stop
    unfold Span.Meets; omega
  unfold Journal.durationAt?
  rw [hj, List.findSome?_append, List.findSome?_eq_none_iff.mpr, Option.none_or,
    List.findSome?_cons, hd]
  · simp [Option.filter, hself]
  · intro a ha
    have hbefore := h.before hj ha
    have hlaid := h.entry a (by rw [hj]; exact List.mem_append_left _ ha)
    rw [Option.map_eq_none_iff, Option.filter_eq_none_iff]
    intro d' hd' hmeets
    have hle := hlaid.duration_le d' hd'
    have hlt := he.lt_duration d hd
    have hstart := he.lt_start
    have hspan := e.start.span.start_le_stop
    rw [decide_eq_true_eq] at hmeets
    unfold Span.Meets at hmeets
    omega

/-- **The span of a start time selects that start time.** -/
theorem startAt?_span (h : j.IsLaidOut) (hj : j.entries = es ++ e :: es') :
    j.startAt? e.start.span = some (lastStop none es, e) := by
  have he := h.entry e (by rw [hj]; exact List.mem_append_right _ List.mem_cons_self)
  have hself : e.start.span.Meets e.start.span := by
    have := e.start.span.start_le_stop
    unfold Span.Meets; omega
  unfold Journal.startAt? Journal.chain
  rw [hj, chain_append, chain_cons, List.find?_append, List.find?_eq_none.mpr, Option.none_or,
    List.find?_cons_of_pos (by simpa using hself)]
  rintro ⟨p, a⟩ ha hmeets
  have hmem := mem_of_mem_chain ha
  have hbefore := h.before hj hmem
  have hle := (h.entry a (by rw [hj]; exact List.mem_append_left _ hmem)).start_le
  have hstart := he.lt_start
  rw [decide_eq_true_eq] at hmeets
  unfold Span.Meets at hmeets
  dsimp only at hmeets
  omega

end IsLaidOut

end Journal

end TimeJournal
