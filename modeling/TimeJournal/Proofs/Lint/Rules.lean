import Mathlib.Tactic.Set
import TimeJournal.Lint.Linter
import TimeJournal.Proofs.Journal.Traversal

/-! # The rules of a check

What a check finds, said without a traversal: for every rule the condition under which it is broken,
in terms of the parts of the journal that it is about. `declared` puts the rules in the order in
which they are reported: those of the front matter, those of each entry beside the end time of the
entry before it, and the one of the last entry. `instant?` stands for "the time resolves": without
a date in the front matter no time does, and none fails to.

* `runs_entry`: the events of an entry take the state between two entries to the next such state
  and add what `ofEntry` lists.
* `findings_eq_declared`: a traversal of a journal finds exactly what the rules declare. -/

namespace TimeJournal.Lint

/-! ### Rules -/

/-- The instant of a time against the date of the front matter, if there is one. -/
def instant? (date : Option Date) (t : TimeToken) : Option Instant :=
  date.bind fun d => (t.resolve d).toOption

/-- A time does not resolve against the date of the front matter. -/
def unresolved (date : Option Date) (issue : TimeFault → Issue) (t : Located TimeToken) :
    List Finding :=
  match date.map t.value.resolve with
  | some (.error fault) => [⟨t.span, issue fault⟩]
  | _ => []

/-- The date of the front matter is not the one in the file name. -/
def dateMismatch (settings : Settings) (f : FrontMatter) : List Finding :=
  match f.date?, settings.fileDate with
  | some d, some expected => if d.value = expected then [] else [⟨d.span, .dateMismatch expected⟩]
  | _, _ => []

/-- Slots of the front matter that hold nothing; junk in the slot of the date is something. -/
def missing (f : FrontMatter) : List Finding :=
  let slots := [(FieldKey.date, f.date.isNone), (.start, f.start.isNone), (.stop, f.stop.isNone)]
  (slots.filter Prod.snd).map fun slot => ⟨f.span, .missing slot.1⟩

/-- The first entry does not start as the front matter says; the words are compared, so this needs
no date. -/
def startMismatch (f : FrontMatter) (previous : Option (Located TimeToken)) (e : Entry) :
    List Finding :=
  match previous, f.start with
  | none, some expected =>
    if expected.value = e.start.value then []
    else [⟨expected.span, .startMismatch e.start.value⟩]
  | _, _ => []

/-- An entry does not start at the instant at which the entry before it stopped. -/
def jumped (settings : Settings) (date : Option Date) (previous : Option (Located TimeToken))
    (e : Entry) : List Finding :=
  match previous with
  | none => []
  | some p =>
    match instant? date p.value, instant? date e.start.value with
    | some a, some b =>
      if a = b then [] else [⟨e.start.span, .timeJumped p.value settings.uri p.span⟩]
    | _, _ => []

/-- An entry with a duration stops before it starts, or its duration is off by more than the
tolerance. -/
def rangeMismatch (settings : Settings) (date : Option Date) (e : Entry) : List Finding :=
  match e.duration.part?, instant? date e.start.value, instant? date e.stop.value with
  | some d, some a, some b =>
    if b.minutes < a.minutes then [⟨e.stop.span, .negativeRange e.start.value⟩]
    else
      let actual := 60 * (b.minutes - a.minutes)
      if settings.tolerance < ((d.seconds : Int) - actual).natAbs then
        [⟨d.span, .incorrectDuration actual⟩]
      else []
  | _, _, _ => []

/-- The last entry does not stop at the instant that the front matter says. -/
def stopMismatch (settings : Settings) (date : Option Date) (f : FrontMatter)
    (last : Option (Located TimeToken)) : List Finding :=
  match f.stop, last with
  | some expected, some p =>
    match instant? date expected.value, instant? date p.value with
    | some a, some b =>
      if a = b then [] else [⟨expected.span, .stopMismatch p.value settings.uri p.span⟩]
    | _, _ => []
  | _, _ => []

/-- The findings in the front matter. -/
def ofFrontMatter (settings : Settings) (date : Option Date) (f : FrontMatter) : List Finding :=
  dateMismatch settings f ++ f.start.toList.flatMap (unresolved date .invalidStart) ++
    f.stop.toList.flatMap (unresolved date .invalidStop) ++ missing f

/-- The findings in an entry that follows an end time. -/
def ofEntry (settings : Settings) (date : Option Date) (f : FrontMatter)
    (previous : Option (Located TimeToken)) (e : Entry) : List Finding :=
  unresolved date .invalidStart e.start ++ startMismatch f previous e ++
    jumped settings date previous e ++ unresolved date .invalidStop e.stop ++
    rangeMismatch settings date e

/-- The date that the times of a journal are resolved against. -/
def reference (j : Journal) : Option Date := j.frontMatter.date?.map Located.value

/-- What the rules say about a journal. -/
def declared (settings : Settings) (j : Journal) : List Finding :=
  ofFrontMatter settings (reference j) j.frontMatter ++
    (j.chain.flatMap fun link =>
      ofEntry settings (reference j) j.frontMatter link.1 link.2) ++
    stopMismatch settings (reference j) j.frontMatter (j.entries.getLast?.map Entry.stop)

/-! ### Runs of a traversal -/

/-- The events take one state to another, and none is refused. -/
def Runs (settings : Settings) (events : List Event) (s s' : State) : Prop :=
  events.forM (visitor settings) s = .ok () s'

theorem runs_nil (settings : Settings) (s : State) : Runs settings [] s s := rfl

theorem runs_cons {settings : Settings} {event : Event} {events : List Event} {s s₁ s₂ : State}
    (h : s.visit settings event = .ok s₁) (hr : Runs settings events s₁ s₂) :
    Runs settings (event :: events) s s₂ := by
  have hv : visitor settings event s = .ok () s₁ := by simp only [visitor, h]
  exact (Visitor.forM_cons_ok hv).trans hr

theorem Runs.append {settings : Settings} {xs ys : List Event} {s s₁ s₂ : State}
    (h : Runs settings xs s s₁) (h' : Runs settings ys s₁ s₂) : Runs settings (xs ++ ys) s s₂ := by
  have happ : (xs ++ ys).forM (visitor settings) =
      EStateM.bind (xs.forM (visitor settings)) fun _ => ys.forM (visitor settings) :=
    List.forM_append
  unfold Runs at h h' ⊢
  rw [happ]
  simp only [EStateM.bind, h, h']

/-- Only the beginning of an entry can be refused. -/
theorem runs_foldl {settings : Settings} (events : List Event)
    (hb : ∀ e, Event.entryBegun e ∉ events) (s : State) :
    Runs settings events s (events.foldl (State.apply settings) s) := by
  induction events generalizing s with
  | nil => exact runs_nil settings s
  | cons event events ih =>
    have hv : s.visit settings event = .ok (s.apply settings event) := by
      cases event with
      | entryBegun e => exact absurd List.mem_cons_self (hb e)
      | _ => rfl
    exact runs_cons hv (ih (fun e he => hb e (List.mem_cons_of_mem _ he)) _)

/-! ### Resolution -/

/-- A time with its instant, if it resolves. -/
def resolved (date : Option Date) (t : Located TimeToken) : Option Resolved :=
  (instant? date t.value).map fun i => ⟨i, t.value, t.span⟩

theorem resolve_eq (date : Option Date) (t : Located TimeToken) (issue : TimeFault → Issue) :
    resolve date t issue = (resolved date t, unresolved date issue t) := by
  cases date with
  | none => rfl
  | some d =>
    cases h : t.value.resolve d with
    | ok i => simp [resolve, resolved, unresolved, instant?, h, Except.toOption]
    | error fault => simp [resolve, resolved, unresolved, instant?, h, Except.toOption]

theorem checkMissing_eq (f : FrontMatter) : State.checkMissing f = missing f := by
  unfold State.checkMissing missing
  cases f.date <;> cases f.start <;> cases f.stop <;> rfl

theorem checkDate_eq (settings : Settings) {f : FrontMatter} {d : Located Date}
    (h : f.date? = some d) :
    State.checkDate settings d = dateMismatch settings f := by
  unfold State.checkDate dateMismatch
  rw [h]
  cases settings.fileDate with
  | none => rfl
  | some expected => simp only [eq_comm]

theorem dateMismatch_eq_nil (settings : Settings) {f : FrontMatter} (h : f.date? = none) :
    dateMismatch settings f = [] := by
  unfold dateMismatch; rw [h]

/-! ### The state between two entries -/

/-- The state in front of an entry that follows an end time, after some findings. -/
def between (date : Option Date) (f : FrontMatter) (previous : Option (Located TimeToken))
    (found : List Finding) : State where
  reference := date
  dayStart := f.start
  dayStop := f.stop
  dayStopInstant := f.stop.bind fun t => instant? date t.value
  seenFirstStart := previous.isSome
  currentStart := none
  currentStop := none
  previousStop := previous.bind (resolved date)
  inEntry := false
  noted := found.reverse

theorem foldl_frontMatter (settings : Settings) (f : FrontMatter) :
    f.events.foldl (State.apply settings) State.init =
      between (f.date?.map Located.value) f none
        (ofFrontMatter settings (f.date?.map Located.value) f) := by
  have hdate : ∀ d, f.date? = some d → State.checkDate settings d = dateMismatch settings f :=
    fun d hd => checkDate_eq settings hd
  have hnone : f.date? = none → dateMismatch settings f = [] := dateMismatch_eq_nil settings
  rcases hd : f.date? with _ | d <;> rcases hs : f.start with _ | a <;>
    rcases ht : f.stop with _ | b <;>
    simp [FrontMatter.events, hd, hs, ht, State.apply, State.leaveFrontMatter, State.init, between,
      State.report_eq, ofFrontMatter, checkMissing_eq, hdate, hnone, resolve_eq, resolved, instant?,
      Function.comp_def]

theorem runs_frontMatter (settings : Settings) (f : FrontMatter) :
    Runs settings f.events State.init
      (between (f.date?.map Located.value) f none
        (ofFrontMatter settings (f.date?.map Located.value) f)) := by
  rw [← foldl_frontMatter]
  exact runs_foldl f.events (by simp [FrontMatter.events]) State.init

/-! ### An entry -/

/-- The state inside an entry that follows an end time: what its times have resolved to, and the
findings so far. -/
def inside (date : Option Date) (f : FrontMatter) (previous : Option (Located TimeToken))
    (start stop : Option Resolved) (found : List Finding) : State :=
  { between date f previous found with
    seenFirstStart := true
    currentStart := start
    currentStop := stop
    inEntry := true }

theorem report_inside (date : Option Date) (f : FrontMatter)
    (previous : Option (Located TimeToken)) (start stop : Option Resolved)
    (found more : List Finding) :
    (inside date f previous start stop found).report more =
      inside date f previous start stop (found ++ more) := by
  simp [State.report_eq, inside, between]

theorem checkFirstStart_eq (date : Option Date) (f : FrontMatter)
    (previous : Option (Located TimeToken)) (found : List Finding) (e : Entry) :
    State.checkFirstStart { between date f previous found with inEntry := true } e.start =
      startMismatch f previous e := by
  unfold State.checkFirstStart startMismatch between
  cases previous <;> cases f.start <;> simp

theorem checkJump_eq (settings : Settings) (date : Option Date)
    (previous : Option (Located TimeToken)) (e : Entry) :
    State.checkJump settings (previous.bind (resolved date)) (resolved date e.start) =
      jumped settings date previous e := by
  unfold State.checkJump jumped resolved
  cases previous with
  | none => rfl
  | some p =>
    cases hp : instant? date p.value <;> cases he : instant? date e.start.value <;> simp [hp]

theorem checkRange_eq (settings : Settings) (date : Option Date) {e : Entry} {d : Duration}
    (h : e.duration.part? = some d) :
    State.checkOrder (resolved date e.start) (resolved date e.stop) ++
      State.checkDuration settings (resolved date e.start) (resolved date e.stop) d =
      rangeMismatch settings date e := by
  unfold State.checkOrder State.checkDuration rangeMismatch resolved
  rw [h]
  cases instant? date e.start.value with
  | none => rfl
  | some a =>
    cases instant? date e.stop.value with
    | none => rfl
    | some b => by_cases hab : b.minutes < a.minutes <;> simp [hab]

theorem rangeMismatch_eq_nil (settings : Settings) (date : Option Date) {e : Entry}
    (h : e.duration.part? = none) : rangeMismatch settings date e = [] := by
  unfold rangeMismatch; rw [h]

theorem visitStart_between (settings : Settings) (date : Option Date) (f : FrontMatter)
    (previous : Option (Located TimeToken)) (found : List Finding) (e : Entry) :
    State.visitStart settings { between date f previous found with inEntry := true } e.start =
      inside date f previous (resolved date e.start) none
        (found ++ (unresolved date .invalidStart e.start ++ startMismatch f previous e ++
          jumped settings date previous e)) := by
  rw [← checkFirstStart_eq date f previous found e, ← checkJump_eq settings date previous e]
  simp only [State.visitStart, resolve_eq, State.report_eq, inside, between, List.reverse_append]

theorem visitStop_inside (date : Option Date) (f : FrontMatter)
    (previous : Option (Located TimeToken)) (start stop : Option Resolved) (found : List Finding)
    (e : Entry) :
    State.visitStop (inside date f previous start stop found) e.stop =
      inside date f previous start (resolved date e.stop)
        (found ++ unresolved date .invalidStop e.stop) := by
  simp only [State.visitStop, resolve_eq, State.report_eq, inside, between, List.reverse_append]

theorem foldl_duration (settings : Settings) (date : Option Date) (f : FrontMatter)
    (previous : Option (Located TimeToken)) (found : List Finding) (e : Entry) :
    (e.duration.part?.map Event.duration).toList.foldl (State.apply settings)
        (inside date f previous (resolved date e.start) (resolved date e.stop) found) =
      inside date f previous (resolved date e.start) (resolved date e.stop)
        (found ++ rangeMismatch settings date e) := by
  cases h : e.duration.part? with
  | none => rw [rangeMismatch_eq_nil settings date h, List.append_nil]; rfl
  | some d => rw [← checkRange_eq settings date h, ← report_inside]; rfl

theorem runs_entry (settings : Settings) (date : Option Date) (f : FrontMatter)
    (previous : Option (Located TimeToken)) (found : List Finding) (e : Entry) :
    Runs settings e.events (between date f previous found)
      (between date f (some e.stop) (found ++ ofEntry settings date f previous e)) := by
  set s₁ : State := { between date f previous found with inEntry := true }
  have hb : ∀ b : Entry, Event.entryBegun b ∉ e.events.tail := by simp [Entry.events]
  have hrun : Runs settings e.events (between date f previous found)
      (e.events.tail.foldl (State.apply settings) s₁) :=
    have hbegun : State.visit settings (between date f previous found) (.entryBegun e) = .ok s₁ := rfl
    runs_cons hbegun (runs_foldl e.events.tail hb s₁)
  have hfold : e.events.tail.foldl (State.apply settings) s₁ =
      between date f (some e.stop) (found ++ ofEntry settings date f previous e) := by
    show ((e.codes.map Event.code ++ (e.duration.part?.map Event.duration).toList) ++
      [Event.activity e.activity, .entryDone e]).foldl (State.apply settings)
        (State.visitStop (State.visitStart settings s₁ e.start) e.stop) = _
    rw [visitStart_between, visitStop_inside, List.foldl_append, List.foldl_append,
      foldl_codes fun _ _ => rfl, foldl_duration]
    simp [State.apply, inside, between, ofEntry]
  rwa [hfold] at hrun

theorem runs_entries (settings : Settings) (date : Option Date) (f : FrontMatter)
    (previous : Option (Located TimeToken)) (found : List Finding) (es : List Entry) :
    Runs settings (es.flatMap Entry.events) (between date f previous found)
      (between date f (lastStop previous es)
        (found ++
          (chain previous es).flatMap fun link => ofEntry settings date f link.1 link.2)) := by
  induction es generalizing previous found with
  | nil => simpa using runs_nil settings _
  | cons e es ih =>
    have h := (runs_entry settings date f previous found e).append (ih (some e.stop) _)
    simpa using h

/-! ### The whole journal -/

theorem checkLastStop_eq (settings : Settings) (date : Option Date) (f : FrontMatter)
    (last : Option (Located TimeToken)) (found : List Finding) :
    State.checkLastStop settings (between date f last found) = stopMismatch settings date f last := by
  unfold State.checkLastStop stopMismatch between resolved
  cases f.stop with
  | none => rfl
  | some expected =>
    cases last with
    | none => cases h : instant? date expected.value <;> simp [h]
    | some p =>
      cases h : instant? date expected.value <;> cases hp : instant? date p.value <;> simp [h, hp]

/-- **A traversal of a journal comes to its end**, and has found what the rules declare. -/
theorem exists_runs (settings : Settings) (j : Journal) :
    ∃ s, Runs settings j.events State.init s ∧ s.findings = declared settings j := by
  have hruns := ((runs_frontMatter settings j.frontMatter).append
    (runs_entries settings _ j.frontMatter none _ j.entries)).append
      (runs_foldl [.journalDone j] (by simp) _)
  refine ⟨_, hruns, ?_⟩
  simp only [List.foldl_cons, List.foldl_nil, State.apply, State.findings_report,
    checkLastStop_eq, lastStop_eq, Option.or_none]
  simp only [State.findings, between, List.reverse_reverse]
  rfl

/-- **A traversal of a journal finds exactly what the rules declare.** -/
theorem findings_eq_declared (settings : Settings) (j : Journal) :
    findings settings j = declared settings j := by
  obtain ⟨s, hruns, hfound⟩ := exists_runs settings j
  unfold findings finalState Journal.walk
  rw [show j.events.forM (visitor settings) State.init = _ from hruns]
  exact hfound

/-- **A check of a journal is the list of its broken rules**, for every source that has a file name
and every tolerance. -/
theorem lint_eq_declared (source : Option String) (tolerance : Int) (j : Journal) :
    lint source tolerance j = (Location.date? source).map fun fileDate =>
      declared ⟨source.getD "", fileDate, tolerance⟩ j := by
  unfold lint Settings.ofSource
  cases Location.date? source with
  | error fault => rfl
  | ok fileDate => exact congrArg Except.ok (findings_eq_declared _ j)

end TimeJournal.Lint
