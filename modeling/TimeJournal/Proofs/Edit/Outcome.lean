import TimeJournal.Proofs.Edit.Execution
import TimeJournal.Proofs.Journal.Setting

/-! # The outcome of a command

What a command gives for a selection, as a table: every row says which line of the journal the
command works on, what else it looks at there, and the edit or the failure that follows. The rows of
a command exclude each other, the first that applies decides, and one of them always applies.

* `Journal.IsFirst`: a line is the first one with a property; `Journal.durationAt?_eq_some_iff` and
  `Journal.startAt?_eq_some_iff`: the targets of the commands are such lines.
* `lastStop_eq_some_iff`: the end time in front of an entry is that of the nearest entry before it,
  whatever other lines stand between.
* `Command.Yields`: the table; `Command.outcome_eq_of_yields`: its rows are right;
  `Command.exists_yields`: a row applies; `Command.outcome_eq_iff_yields`: both together. -/

namespace TimeJournal

/-! ### The lines of a target -/

namespace BodyLine

/-- A selection meets the duration of an entry, which was read. -/
def HasDuration (selection : Span) (l : BodyLine) : Prop :=
  ∃ e d, l = .entry e ∧ e.duration = .read d ∧ d.span.Meets selection

/-- A selection meets the start time of an entry. -/
def HasStart (selection : Span) (l : BodyLine) : Prop :=
  ∃ e, l = .entry e ∧ e.start.span.Meets selection

theorem hasStart_entry {selection : Span} {e : Entry} :
    (BodyLine.entry e).HasStart selection ↔ e.start.span.Meets selection :=
  ⟨fun ⟨_, he, hm⟩ => BodyLine.entry.inj he ▸ hm, fun hm => ⟨e, rfl, hm⟩⟩

/-- Lines around the line of an entry. -/
theorem exists_of_filterMap {ls : List BodyLine} {es es' : List Entry} {e : Entry}
    (h : ls.filterMap entry? = es ++ e :: es') : ∃ before after,
      ls = before ++ .entry e :: after ∧ before.filterMap entry? = es ∧
        after.filterMap entry? = es' := by
  obtain ⟨front, back, rfl, hfront, hback⟩ := List.filterMap_eq_append_iff.mp h
  obtain ⟨between, l, after, rfl, hnone, hl, hafter⟩ := List.filterMap_eq_cons_iff.mp hback
  obtain rfl := entry?_eq_some_iff.mp hl
  refine ⟨front ++ between, after, (List.append_assoc _ _ _).symm, ?_, hafter⟩
  rw [List.filterMap_append, hfront, List.filterMap_eq_nil_iff.mpr hnone, List.append_nil]

theorem mem_filterMap_entry? {ls : List BodyLine} {e : Entry} :
    e ∈ ls.filterMap entry? ↔ .entry e ∈ ls := by
  rw [List.mem_filterMap]
  exact ⟨fun ⟨l, hl, he⟩ => entry?_eq_some_iff.mp he ▸ hl, fun he => ⟨_, he, rfl⟩⟩

end BodyLine

/-- The end time of the last entry of some lines; the lines behind that entry are no entries. -/
def IsLastStop (ls : List BodyLine) (stop : Located TimeToken) : Prop :=
  ∃ front e between, ls = front ++ .entry e :: between ∧ (∀ l ∈ between, l.entry? = none) ∧
    e.stop = stop

theorem lastStop_eq_none_iff {ls : List BodyLine} :
    lastStop none (ls.filterMap BodyLine.entry?) = none ↔ ∀ l ∈ ls, l.entry? = none := by
  rw [lastStop_eq, Option.or_none, Option.map_eq_none_iff, List.getLast?_eq_none_iff,
    List.filterMap_eq_nil_iff]

/-- **The end time in front of an entry is that of the nearest entry before it.** -/
theorem lastStop_eq_some_iff {ls : List BodyLine} {stop : Located TimeToken} :
    lastStop none (ls.filterMap BodyLine.entry?) = some stop ↔ IsLastStop ls stop := by
  rw [lastStop_eq, Option.or_none, Option.map_eq_some_iff]
  constructor
  · rintro ⟨e, he, hstop⟩
    obtain ⟨es, hes⟩ := List.getLast?_eq_some_iff.mp he
    obtain ⟨front, between, rfl, -, hbetween⟩ := BodyLine.exists_of_filterMap hes
    exact ⟨front, e, between, rfl, List.filterMap_eq_nil_iff.mp hbetween, hstop⟩
  · rintro ⟨front, e, between, rfl, hbetween, hstop⟩
    have hentry : BodyLine.entry? (.entry e) = some e := rfl
    refine ⟨e, ?_, hstop⟩
    rw [List.filterMap_append, List.filterMap_cons_some hentry,
      List.filterMap_eq_nil_iff.mpr hbetween, List.getLast?_append, List.getLast?_singleton,
      Option.some_or]

namespace Journal

/-- A line of a journal, behind some others, is the first one with a property. -/
def IsFirst (j : Journal) (P : BodyLine → Prop) (before : List BodyLine) (l : BodyLine) : Prop :=
  (∃ after, j.lines = before ++ l :: after) ∧ P l ∧ ∀ a ∈ before, ¬ P a

variable {j : Journal} {selection : Span} {e : Entry}

/-! ### Durations -/

theorem found_eq_some_iff {d : Duration} {a : Entry} :
    ((a.duration.part?.filter fun d => d.span.Meets selection).map fun d => (d, a)) = some (d, e) ↔
      a = e ∧ e.duration = .read d ∧ d.span.Meets selection := by
  rw [Option.map_eq_some_iff]
  constructor
  · rintro ⟨d', hd', heq⟩
    obtain ⟨rfl, rfl⟩ := Prod.mk.inj heq
    obtain ⟨hpart, hmeets⟩ := Option.filter_eq_some_iff.mp hd'
    exact ⟨rfl, Recovered.part?_eq_some_iff.mp hpart, of_decide_eq_true hmeets⟩
  · rintro ⟨rfl, hd, hmeets⟩
    exact ⟨d, Option.filter_eq_some_iff.mpr
      ⟨Recovered.part?_eq_some_iff.mpr hd, decide_eq_true hmeets⟩, rfl⟩

theorem found_eq_none_iff {a : Entry} :
    ((a.duration.part?.filter fun d => d.span.Meets selection).map fun d => (d, a)) = none ↔
      ¬ (BodyLine.entry a).HasDuration selection := by
  rw [Option.eq_none_iff_forall_ne_some]
  constructor
  · rintro h ⟨e, d, heq, hd, hmeets⟩
    exact h _ (found_eq_some_iff.mpr ⟨BodyLine.entry.inj heq, hd, hmeets⟩)
  · rintro h ⟨d, e⟩ hfound
    obtain ⟨rfl, hd, hmeets⟩ := found_eq_some_iff.mp hfound
    exact h ⟨_, d, rfl, hd, hmeets⟩

theorem durationAt?_eq_none_iff :
    j.durationAt? selection = none ↔ ∀ l ∈ j.lines, ¬ l.HasDuration selection := by
  unfold durationAt? entries
  rw [List.findSome?_eq_none_iff]
  constructor
  · rintro h _ hl ⟨e, d, rfl, hd⟩
    exact found_eq_none_iff.mp (h e (BodyLine.mem_filterMap_entry?.mpr hl)) ⟨e, d, rfl, hd⟩
  · intro h a ha
    exact found_eq_none_iff.mpr (h _ (BodyLine.mem_filterMap_entry?.mp ha))

/-- **The target is the duration of the first line that has one where the selection is.** -/
theorem durationAt?_eq_some_iff {d : Duration} : j.durationAt? selection = some (d, e) ↔
    ∃ before, j.IsFirst (·.HasDuration selection) before (.entry e) ∧ e.duration = .read d := by
  constructor
  · intro h
    obtain ⟨es, a, es', hentries, ha, hes⟩ := List.findSome?_eq_some_iff.mp h
    obtain ⟨rfl, hd, hmeets⟩ := found_eq_some_iff.mp ha
    obtain ⟨before, after, hlines, rfl, -⟩ := BodyLine.exists_of_filterMap hentries
    refine ⟨before, ⟨⟨after, hlines⟩, ⟨a, d, rfl, hd, hmeets⟩, ?_⟩, hd⟩
    rintro _ hl ⟨b, d', rfl, hd'⟩
    exact found_eq_none_iff.mp (hes b (BodyLine.mem_filterMap_entry?.mpr hl)) ⟨b, d', rfl, hd'⟩
  · rintro ⟨before, ⟨⟨after, hlines⟩, ⟨a, d', heq, hd', hmeets⟩, hbefore⟩, hd⟩
    obtain rfl := BodyLine.entry.inj heq
    obtain rfl := Recovered.read.inj (hd.symm.trans hd')
    refine List.findSome?_eq_some_iff.mpr
      ⟨_, e, _, entries_append hlines, found_eq_some_iff.mpr ⟨rfl, hd, hmeets⟩, ?_⟩
    exact fun b hb => found_eq_none_iff.mpr (hbefore _ (BodyLine.mem_filterMap_entry?.mp hb))

/-! ### Start times -/

theorem find?_chain_eq_some_iff {P : Entry → Bool} {es : List Entry}
    {previous p : Option (Located TimeToken)} :
    (TimeJournal.chain previous es).find? (fun link => P link.2) = some (p, e) ↔
      ∃ front back, es = front ++ e :: back ∧ p = lastStop previous front ∧ P e = true ∧
        ∀ a ∈ front, P a = false := by
  induction es generalizing previous with
  | nil => simp
  | cons a es ih =>
    rw [chain_cons, List.find?_cons]
    rcases ha : P a with _ | _
    · dsimp only
      rw [ih]
      constructor
      · rintro ⟨front, back, rfl, rfl, he, hfront⟩
        exact ⟨a :: front, back, rfl, rfl, he, List.forall_mem_cons.mpr ⟨ha, hfront⟩⟩
      · rintro ⟨front, back, hes, rfl, he, hfront⟩
        rcases front with _ | ⟨b, front⟩
        · obtain ⟨rfl, -⟩ := List.cons.inj hes
          exact absurd he (by rw [ha]; exact Bool.false_ne_true)
        · obtain ⟨rfl, rfl⟩ := List.cons.inj hes
          exact ⟨front, back, rfl, rfl, he, (List.forall_mem_cons.mp hfront).2⟩
    · dsimp only
      rw [Option.some.injEq, Prod.mk.injEq]
      constructor
      · rintro ⟨rfl, rfl⟩
        exact ⟨[], es, rfl, rfl, ha, nofun⟩
      · rintro ⟨front, back, hes, rfl, -, hfront⟩
        rcases front with _ | ⟨b, front⟩
        · exact ⟨rfl, (List.cons.inj hes).1⟩
        · obtain ⟨rfl, -⟩ := List.cons.inj hes
          exact absurd ha (by rw [(List.forall_mem_cons.mp hfront).1]; exact Bool.false_ne_true)

theorem startAt?_eq_none_iff :
    j.startAt? selection = none ↔ ∀ l ∈ j.lines, ¬ l.HasStart selection := by
  unfold startAt?
  rw [List.find?_eq_none]
  constructor
  · rintro h _ hl ⟨e, rfl, hmeets⟩
    obtain ⟨es, es', hentries⟩ := List.append_of_mem (BodyLine.mem_filterMap_entry?.mpr hl)
    exact h (lastStop none es, e) (mem_chain_iff.mpr ⟨es, es', hentries, rfl⟩)
      (decide_eq_true hmeets)
  · rintro h ⟨p, e⟩ hmem hmeets
    exact h _ (BodyLine.mem_filterMap_entry?.mp (mem_of_mem_chain hmem))
      ⟨e, rfl, of_decide_eq_true hmeets⟩

/-- **The target is the start time of the first line that has one where the selection is.** -/
theorem startAt?_eq_some_iff {p : Option (Located TimeToken)} :
    j.startAt? selection = some (p, e) ↔ ∃ before,
      j.IsFirst (·.HasStart selection) before (.entry e) ∧
        p = lastStop none (before.filterMap BodyLine.entry?) := by
  unfold startAt? Journal.chain
  rw [find?_chain_eq_some_iff (P := fun e => decide (e.start.span.Meets selection))]
  constructor
  · rintro ⟨es, es', hentries, rfl, hmeets, hes⟩
    obtain ⟨before, after, hlines, rfl, -⟩ := BodyLine.exists_of_filterMap hentries
    refine ⟨before, ⟨⟨after, hlines⟩, ⟨e, rfl, of_decide_eq_true hmeets⟩, ?_⟩, rfl⟩
    rintro _ hl ⟨b, rfl, hb⟩
    exact of_decide_eq_false (hes b (BodyLine.mem_filterMap_entry?.mpr hl)) hb
  · rintro ⟨before, ⟨⟨after, hlines⟩, hfirst, hbefore⟩, rfl⟩
    refine ⟨_, _, entries_append hlines, rfl,
      decide_eq_true (BodyLine.hasStart_entry.mp hfirst), fun b hb => decide_eq_false fun hmeets => ?_⟩
    exact hbefore _ (BodyLine.mem_filterMap_entry?.mp hb) ⟨b, rfl, hmeets⟩

end Journal

/-! ### Outcomes -/

/-- The kinds of failure of a command. -/
inductive CommandFault.Kind where
  | targetNotFound
  | missingValue
  | invalidTime
  | notComputable
  | invalidUri
  deriving DecidableEq, Repr

/-- The kind of a failure. -/
def CommandFault.kind : CommandFault → CommandFault.Kind
  | .noDuration _ | .noStartTime _ | .noDateField => .targetNotFound
  | .noReferenceDate | .noEntryTimes | .noPreviousEntry | .noFileDate _ => .missingValue
  | .time _ => .invalidTime
  | .backwards _ _ => .notComputable
  | .uri _ => .invalidUri

namespace Command

/-- An edit, nothing to do, or a failure and its kind. -/
abbrev Outcome := Except (CommandFault.Kind × CommandFault) (Option TextEdit)

/-- The outcome of a command at a selection of a journal. -/
def outcome (c : Command) (j : Journal) (selection : Span) (source : Option String) : Outcome :=
  (c.execute j selection source).mapError fun fault => (fault.kind, fault)

/-- What the commands yield in a journal, for a selection and a source with or without a date in its
file name. In the rows of a duration, `d` is the first one that the selection meets and `e` its
entry; in those of a start time, `e` is the entry of the first one and `before` the lines in front
of it. -/
inductive Yields (j : Journal) (selection : Span) (source : Option String) (file : Option Date) :
    Command → Outcome → Prop
  | noDuration (h : ∀ l ∈ j.lines, ¬ l.HasDuration selection) :
    Yields j selection source file .recalculateDuration
      (.error (.targetNotFound, .noDuration selection))
  | noReference {before : List BodyLine} {e : Entry}
    (h : j.IsFirst (·.HasDuration selection) before (.entry e))
    (hdate : j.frontMatter.date? = none) :
    Yields j selection source file .recalculateDuration (.error (.missingValue, .noReferenceDate))
  | invalidStart {before : List BodyLine} {e : Entry} {date : Located Date} {fault : TimeFault}
    (h : j.IsFirst (·.HasDuration selection) before (.entry e))
    (hdate : j.frontMatter.date? = some date)
    (hstart : e.start.value.resolve date.value = .error fault) :
    Yields j selection source file .recalculateDuration (.error (.invalidTime, .time fault))
  | invalidStop {before : List BodyLine} {e : Entry} {date : Located Date} {a : Instant}
    {fault : TimeFault} (h : j.IsFirst (·.HasDuration selection) before (.entry e))
    (hdate : j.frontMatter.date? = some date) (hstart : e.start.value.resolve date.value = .ok a)
    (hstop : e.stop.value.resolve date.value = .error fault) :
    Yields j selection source file .recalculateDuration (.error (.invalidTime, .time fault))
  | backwards {before : List BodyLine} {e : Entry} {date : Located Date} {a b : Instant}
    (h : j.IsFirst (·.HasDuration selection) before (.entry e))
    (hdate : j.frontMatter.date? = some date) (hstart : e.start.value.resolve date.value = .ok a)
    (hstop : e.stop.value.resolve date.value = .ok b) (hlt : b.minutes < a.minutes) :
    Yields j selection source file .recalculateDuration
      (.error (.notComputable, .backwards e.stop.value e.start.value))
  | duration {before : List BodyLine} {e : Entry} {d : Duration} {date : Located Date}
    {a b : Instant} (h : j.IsFirst (·.HasDuration selection) before (.entry e))
    (hd : e.duration = .read d) (hdate : j.frontMatter.date? = some date)
    (hstart : e.start.value.resolve date.value = .ok a)
    (hstop : e.stop.value.resolve date.value = .ok b) (hle : a.minutes ≤ b.minutes) :
    Yields j selection source file .recalculateDuration
      (.ok (if Hours.render (60 * (b.minutes - a.minutes)) = d.raw then none
        else some ⟨d.span, Hours.render (60 * (b.minutes - a.minutes))⟩))
  | noStart (h : ∀ l ∈ j.lines, ¬ l.HasStart selection) :
    Yields j selection source file .replaceWithPreviousStop
      (.error (.targetNotFound, .noStartTime selection))
  | noPrevious {before : List BodyLine} {e : Entry}
    (h : j.IsFirst (·.HasStart selection) before (.entry e))
    (hbefore : ∀ l ∈ before, l.entry? = none) :
    Yields j selection source file .replaceWithPreviousStop
      (.error (.missingValue, .noPreviousEntry))
  | start {before : List BodyLine} {e : Entry} {stop : Located TimeToken}
    (h : j.IsFirst (·.HasStart selection) before (.entry e)) (hstop : IsLastStop before stop) :
    Yields j selection source file .replaceWithPreviousStop
      (.ok (if stop.value.raw = e.start.value.raw then none
        else some ⟨e.start.span, stop.value.raw⟩))
  | noFileDate (h : file = none) :
    Yields j selection source file .useFileDate (.error (.missingValue, .noFileDate source))
  | noDateField {expected : Date} (h : file = some expected) (hdate : j.frontMatter.date? = none) :
    Yields j selection source file .useFileDate (.error (.targetNotFound, .noDateField))
  | date {expected : Date} {date : Located Date} (h : file = some expected)
    (hdate : j.frontMatter.date? = some date) :
    Yields j selection source file .useFileDate
      (.ok (if date.value = expected then none else some ⟨date.span, expected.toString⟩))

variable {j : Journal} {selection : Span} {source : Option String} {file : Option Date}
  {c : Command} {o : Outcome}

theorem editUnless_decide {P : Prop} [Decidable P] (span : Span) (newText : String) :
    editUnless (decide P) span newText = if P then none else some ⟨span, newText⟩ := by
  unfold editUnless
  by_cases h : P
  · rw [if_pos (decide_eq_true h), if_pos h]
  · rw [if_neg (by rwa [decide_eq_true_eq]), if_neg h]

/-- The entry of a first duration. -/
theorem exists_durationAt? {before : List BodyLine} {e : Entry}
    (h : j.IsFirst (·.HasDuration selection) before (.entry e)) :
    ∃ d, e.duration = .read d ∧ j.durationAt? selection = some (d, e) := by
  obtain ⟨a, d, heq, hd, -⟩ := h.2.1
  obtain rfl := BodyLine.entry.inj heq
  exact ⟨d, hd, Journal.durationAt?_eq_some_iff.mpr ⟨before, h, hd⟩⟩

/-- What is computed for a duration, once it is found. -/
theorem recalculate_eq_of_durationAt? {d : Duration} {e : Entry}
    (h : j.durationAt? selection = some (d, e)) : recalculate j selection =
      match j.frontMatter.date? with
      | none => .error .noReferenceDate
      | some date =>
        match e.start.value.resolve date.value, e.stop.value.resolve date.value with
        | .error fault, _ => .error (.time fault)
        | .ok _, .error fault => .error (.time fault)
        | .ok a, .ok b =>
          if b.minutes < a.minutes then .error (.backwards e.stop.value e.start.value)
          else .ok (editUnless (Hours.render (60 * (b.minutes - a.minutes)) == d.raw) d.span
            (Hours.render (60 * (b.minutes - a.minutes)))) := by
  unfold recalculate
  simp only [DurationTarget.found_ofJournal, DurationTarget.reference_ofJournal, h, Option.map_some]
  unfold Lint.reference
  rcases j.frontMatter.date? with _ | date
  · rfl
  · rfl

/-- **Every row of the table is right.** -/
theorem outcome_eq_of_yields (hs : Location.date? source = .ok file)
    (h : Yields j selection source file c o) : c.outcome j selection source = o := by
  cases h with
  | noDuration h =>
    have hrecalculate : recalculate j selection = .error (.noDuration selection) := by
      unfold recalculate
      simp only [DurationTarget.found_ofJournal, Journal.durationAt?_eq_none_iff.mpr h,
        Option.map_none]
    rw [outcome, execute, hrecalculate]
    rfl
  | noReference h hdate =>
    obtain ⟨d, -, ht⟩ := exists_durationAt? h
    rw [outcome, execute, recalculate_eq_of_durationAt? ht, hdate]
    rfl
  | invalidStart h hdate hstart =>
    obtain ⟨d, -, ht⟩ := exists_durationAt? h
    rw [outcome, execute, recalculate_eq_of_durationAt? ht, hdate]
    simp only [hstart]
    rfl
  | invalidStop h hdate hstart hstop =>
    obtain ⟨d, -, ht⟩ := exists_durationAt? h
    rw [outcome, execute, recalculate_eq_of_durationAt? ht, hdate]
    simp only [hstart, hstop]
    rfl
  | backwards h hdate hstart hstop hlt =>
    obtain ⟨d, -, ht⟩ := exists_durationAt? h
    rw [outcome, execute, recalculate_eq_of_durationAt? ht, hdate]
    simp only [hstart, hstop, if_pos hlt]
    rfl
  | duration h hd hdate hstart hstop hle =>
    obtain ⟨d', hd', ht⟩ := exists_durationAt? h
    obtain rfl := Recovered.read.inj (hd.symm.trans hd')
    rw [outcome, execute, recalculate_eq_of_durationAt? ht, hdate]
    simp only [hstart, hstop, if_neg (not_lt.mpr hle)]
    exact congrArg Except.ok (editUnless_decide _ _)
  | noStart h =>
    have hreplace : replaceStart j selection = .error (.noStartTime selection) := by
      unfold replaceStart
      simp only [StartTarget.found_ofJournal, Journal.startAt?_eq_none_iff.mpr h, Option.map_none]
    rw [outcome, execute, hreplace]
    rfl
  | noPrevious h hbefore =>
    have ht := Journal.startAt?_eq_some_iff.mpr ⟨_, h, rfl⟩
    rw [lastStop_eq_none_iff.mpr hbefore] at ht
    have hreplace : replaceStart j selection = .error .noPreviousEntry := by
      unfold replaceStart
      simp only [StartTarget.found_ofJournal, ht, Option.map_some]
    rw [outcome, execute, hreplace]
    rfl
  | start h hstop =>
    have ht := Journal.startAt?_eq_some_iff.mpr ⟨_, h, rfl⟩
    rw [lastStop_eq_some_iff.mpr hstop] at ht
    rw [outcome, execute, replaceStart_eq ht, editUnless_decide]
    simp only [TimeToken.ext_iff]
    rfl
  | noFileDate h =>
    obtain rfl := h
    rw [outcome, execute, replaceDate, hs]
    rfl
  | noDateField h hdate =>
    obtain rfl := h
    rw [outcome, execute, replaceDate, hs]
    simp only [hdate]
    rfl
  | date h hdate =>
    obtain rfl := h
    rw [outcome, execute, replaceDate_eq hs hdate, editUnless_decide]
    rfl

/-- **A row of the table applies**, whatever the journal and the selection. -/
theorem exists_yields (c : Command) (j : Journal) (selection : Span) (source : Option String)
    (file : Option Date) : ∃ o, Yields j selection source file c o := by
  cases c with
  | recalculateDuration =>
    rcases ht : j.durationAt? selection with _ | ⟨d, e⟩
    · exact ⟨_, .noDuration (Journal.durationAt?_eq_none_iff.mp ht)⟩
    obtain ⟨before, h, hd⟩ := Journal.durationAt?_eq_some_iff.mp ht
    rcases hdate : j.frontMatter.date? with _ | date
    · exact ⟨_, .noReference h hdate⟩
    rcases hstart : e.start.value.resolve date.value with fault | a
    · exact ⟨_, .invalidStart h hdate hstart⟩
    rcases hstop : e.stop.value.resolve date.value with fault | b
    · exact ⟨_, .invalidStop h hdate hstart hstop⟩
    rcases lt_or_ge b.minutes a.minutes with hlt | hle
    · exact ⟨_, .backwards h hdate hstart hstop hlt⟩
    · exact ⟨_, .duration h hd hdate hstart hstop hle⟩
  | replaceWithPreviousStop =>
    rcases ht : j.startAt? selection with _ | ⟨p, e⟩
    · exact ⟨_, .noStart (Journal.startAt?_eq_none_iff.mp ht)⟩
    obtain ⟨before, h, hp⟩ := Journal.startAt?_eq_some_iff.mp ht
    rcases p with _ | stop
    · exact ⟨_, .noPrevious h (lastStop_eq_none_iff.mp hp.symm)⟩
    · exact ⟨_, .start h (lastStop_eq_some_iff.mp hp.symm)⟩
  | useFileDate =>
    rcases file with _ | expected
    · exact ⟨_, .noFileDate rfl⟩
    rcases hdate : j.frontMatter.date? with _ | date
    · exact ⟨_, .noDateField rfl hdate⟩
    · exact ⟨_, .date rfl hdate⟩

/-- **What a command yields is what the table says**, for every journal, every selection and every
source whose file name can be looked at. -/
theorem outcome_eq_iff_yields (c : Command) (j : Journal) (selection : Span)
    {source : Option String} {file : Option Date} (hs : Location.date? source = .ok file)
    (o : Outcome) : c.outcome j selection source = o ↔ Yields j selection source file c o := by
  constructor
  · rintro rfl
    obtain ⟨o, ho⟩ := exists_yields c j selection source file
    rwa [outcome_eq_of_yields hs ho]
  · exact outcome_eq_of_yields hs

/-- A day whose first entry stops at no time of day, and a break before the second one. -/
def lunchText : String :=
  "---\ndate: 2024-01-03\n---\n- 09:00-10:99 1.00 read\nlunch\n- 11:00-12:00 1.00 write\n"

/-- A selection that touches the first duration and the second start time: there is no duration to
compute, and the time that is none is written where the second entry starts. -/
theorem outcome_eq_iff_yields_lunchText : ∃ j,
    (Reading.ofText lunchText.toList).journal = some j ∧
    Location.date? (some "2024-01-04.md") =
      .ok (some ⟨2024, 1, 4, by decide, by decide, by decide⟩) ∧
    Yields j ⟨43, 57, by decide⟩ (some "2024-01-04.md")
      (some ⟨2024, 1, 4, by decide, by decide, by decide⟩) .recalculateDuration
      (.error (.invalidTime, .time ⟨⟨"10:99"⟩, .minuteOutOfRange⟩)) ∧
    Yields j ⟨43, 57, by decide⟩ (some "2024-01-04.md")
      (some ⟨2024, 1, 4, by decide, by decide, by decide⟩) .replaceWithPreviousStop
      (.ok (some ⟨⟨57, 62, by decide⟩, "10:99"⟩)) := by
  have hs : Location.date? (some "2024-01-04.md") =
      .ok (some ⟨2024, 1, 4, by decide, by decide, by decide⟩) := by decide +kernel
  have houtcomes : (Reading.ofText lunchText.toList).journal.map (fun j =>
      (outcome .recalculateDuration j ⟨43, 57, by decide⟩ (some "2024-01-04.md"),
        outcome .replaceWithPreviousStop j ⟨43, 57, by decide⟩ (some "2024-01-04.md"))) =
      some (.error (.invalidTime, .time ⟨⟨"10:99"⟩, .minuteOutOfRange⟩),
        .ok (some ⟨⟨57, 62, by decide⟩, "10:99"⟩)) := by decide +kernel
  obtain ⟨j, hj, houtcomes⟩ := Option.map_eq_some_iff.mp houtcomes
  obtain ⟨hduration, hstart⟩ := Prod.mk.inj houtcomes
  exact ⟨j, hj, hs, (outcome_eq_iff_yields _ _ _ hs _).mp hduration,
    (outcome_eq_iff_yields _ _ _ hs _).mp hstart⟩

end Command

end TimeJournal
