import Mathlib.Data.List.Induction
import TimeJournal.Proofs.Lint.Rules

/-! # Callbacks in any order

A traversal calls back in the order of the text. Here nothing is asked of the order: a history is any
list of events, with repetitions, each of them a callback on the state that the ones before it left
behind, those that failed among them. `State.after` is the state at the end of a history.

What a callback does to each field of the state is said once, in `State.call_eq`. By induction over
the history a field is then read off it: the last date, whether an entry is open, what the last stop
resolved to, whether there was a start.

* `inEntry_after_iff`: the state is inside an entry if a callback began one and none has ended one
  since.
* `rule_mem_rulesOf`: each callback reports under rules of its own.
* `length_startMismatches_after_le`: the start of the day is reported at most once.
* `isConsistent_after`: what can be relied on after every history. -/

namespace TimeJournal.Lint

variable {settings : Settings} {es : List Event} {event : Event} {s : State}

/-! ### Histories -/

namespace State

/-- The state that a callback leaves behind, whether it returns or fails. -/
def call (settings : Settings) (s : State) (event : Event) : State :=
  match visitor settings event s with
  | .ok _ s' => s'
  | .error _ s' => s'

/-- The state after a history, whose oldest callback comes first. -/
def after (settings : Settings) (es : List Event) : State := es.foldl (call settings) init

/-- The findings that a callback adds. -/
def found (settings : Settings) (s : State) : Event → List Finding
  | .date d => checkDate settings d
  | .frontMatterDone f =>
    s.dayStart.toList.flatMap (unresolved s.reference .invalidStart) ++
      s.dayStop.toList.flatMap (unresolved s.reference .invalidStop) ++ checkMissing f
  | .start t =>
    unresolved s.reference .invalidStart t ++ s.checkFirstStart t ++
      checkJump settings s.previousStop (resolved s.reference t)
  | .stop t => unresolved s.reference .invalidStop t
  | .duration d =>
    checkOrder s.currentStart s.currentStop ++ checkDuration settings s.currentStart s.currentStop d
  | .journalDone _ => s.checkLastStop settings
  | _ => []

@[simp] theorem after_nil (settings : Settings) : after settings [] = init := rfl

theorem after_append (settings : Settings) (before since : List Event) :
    after settings (before ++ since) = since.foldl (call settings) (after settings before) :=
  List.foldl_append

@[simp] theorem after_concat (settings : Settings) (es : List Event) (event : Event) :
    after settings (es ++ [event]) = (after settings es).call settings event :=
  after_append settings es [event]

end State

/-- A callback failed: an entry begins, and the state was inside one. It is left as it was. -/
theorem visitor_eq_error_iff {failure : OpenEntry} {s' : State} :
    visitor settings event s = .error failure s' ↔
      ∃ e, event = .entryBegun e ∧ s.inEntry = true ∧ failure = ⟨e.span.start⟩ ∧ s' = s := by
  cases event with
  | entryBegun e =>
    by_cases hin : s.inEntry = true
    · simp [visitor, State.visit, hin, eq_comm]
    · simp [visitor, State.visit, hin]
  | _ => simp [visitor, State.visit]

/-- A callback that returns leaves what `apply` makes of the state. -/
theorem visitor_eq_ok_iff {s' : State} :
    visitor settings event s = .ok () s' ↔
      (∀ e, event = .entryBegun e → s.inEntry = false) ∧ s' = s.apply settings event := by
  cases event with
  | entryBegun e =>
    by_cases hin : s.inEntry = true
    · simp [visitor, State.visit, hin]
    · simp [visitor, State.visit, hin, eq_comm]
  | _ => simpa [visitor, State.visit] using eq_comm

/-! ### One callback -/

namespace State

theorem call_eq_of_ok {s' : State} (h : visitor settings event s = .ok () s') :
    s.call settings event = s' := by
  rw [call, h]

/-- The end of the front matter resolves the times of the day and keeps the stop. -/
theorem leaveFrontMatter_eq (settings : Settings) (s : State) (f : FrontMatter) :
    s.leaveFrontMatter f =
      { s with
        dayStopInstant := s.dayStop.elim s.dayStopInstant fun t => instant? s.reference t.value
        noted := (s.found settings (.frontMatterDone f)).reverse ++ s.noted } := by
  rcases hstart : s.dayStart with _ | a <;> rcases hstop : s.dayStop with _ | b <;>
    simp [leaveFrontMatter, found, report_eq, resolve_eq, resolved, hstart, hstop,
      Function.comp_def]

/-- **What a callback does**, to each field. The beginning of an entry that is refused is no
exception: it finds the field that it would set as it would set it. -/
theorem call_eq (settings : Settings) (s : State) (event : Event) :
    s.call settings event =
      { reference := match event with
          | .date d => some d.value
          | _ => s.reference
        dayStart := match event with
          | .dayStart t => some t
          | _ => s.dayStart
        dayStop := match event with
          | .dayStop t => some t
          | _ => s.dayStop
        dayStopInstant := match event with
          | .frontMatterDone _ =>
            s.dayStop.elim s.dayStopInstant fun t => instant? s.reference t.value
          | _ => s.dayStopInstant
        seenFirstStart := match event with
          | .start _ => true
          | _ => s.seenFirstStart
        currentStart := match event with
          | .start t => resolved s.reference t
          | .entryDone _ => none
          | _ => s.currentStart
        currentStop := match event with
          | .stop t => resolved s.reference t
          | .entryDone _ => none
          | _ => s.currentStop
        previousStop := match event with
          | .entryDone _ => s.currentStop
          | _ => s.previousStop
        inEntry := match event with
          | .entryBegun _ => true
          | .entryDone _ => false
          | _ => s.inEntry
        noted := (s.found settings event).reverse ++ s.noted } := by
  cases event with
  | entryBegun e =>
    rcases s with ⟨reference, dayStart, dayStop, dayStopInstant, seen, start, stop, previous, _ | _,
      noted⟩
    · rfl
    · rfl
  | frontMatterDone f =>
    show s.leaveFrontMatter f = _
    rw [leaveFrontMatter_eq settings]
  | start t =>
    show s.visitStart settings t = _
    simp [visitStart, resolve_eq, report_eq, found]
  | stop t =>
    show s.visitStop t = _
    simp [visitStop, resolve_eq, report_eq, found]
  | date d =>
    show { s.report (checkDate settings d) with reference := some d.value } = _
    rw [report_eq]
    rfl
  | duration d =>
    show s.report _ = _
    rw [report_eq]
    rfl
  | journalDone j =>
    show s.report _ = _
    rw [report_eq]
    rfl
  | _ => rfl

/-- A callback adds its findings after those that are there. -/
@[simp] theorem findings_call (settings : Settings) (s : State) (event : Event) :
    (s.call settings event).findings = s.findings ++ s.found settings event := by
  simp [call_eq, findings]

end State

open State

/-! ### The front matter -/

/-- The last of the values that some callbacks of a history bring. -/
def last? {α : Type} (brings : Event → Option α) (es : List Event) : Option α :=
  (es.filterMap brings).getLast?

/-- A field that such callbacks set, and no others, holds the last value. -/
theorem field_after {α : Type} {field : State → Option α} {brings : Event → Option α}
    (hinit : field init = none)
    (hcall : ∀ s event, field (s.call settings event) = (brings event).or (field s))
    (es : List Event) : field (after settings es) = last? brings es := by
  induction es using List.reverseRecOn with
  | nil => exact hinit
  | append_singleton es event ih =>
    rw [after_concat, hcall, ih, last?, last?, List.filterMap_append, List.getLast?_append]
    cases hbrings : brings event with
    | none => simp [hbrings]
    | some a => simp [hbrings]

/-- The last date of a history. -/
def lastDate? : List Event → Option Date :=
  last? fun
    | .date d => some d.value
    | _ => none

/-- The last start of the day in a history. -/
def lastDayStart? : List Event → Option (Located TimeToken) :=
  last? fun
    | .dayStart t => some t
    | _ => none

theorem reference_after (settings : Settings) (es : List Event) :
    (after settings es).reference = lastDate? es :=
  field_after rfl (fun s event => by rw [call_eq]; cases event <;> rfl) es

theorem dayStart_after (settings : Settings) (es : List Event) :
    (after settings es).dayStart = lastDayStart? es :=
  field_after rfl (fun s event => by rw [call_eq]; cases event <;> rfl) es

/-! ### Open entries -/

/-- An entry is open at the end of a history: a callback that began one returned, and none has ended
one since. -/
def IsOpen (settings : Settings) (es : List Event) : Prop :=
  ∃ before e since s, es = before ++ .entryBegun e :: since ∧
    visitor settings (.entryBegun e) (after settings before) = .ok () s ∧
    ∀ d, Event.entryDone d ∉ since

theorem inEntry_foldl {since : List Event} (hsince : ∀ d, Event.entryDone d ∉ since)
    (h : s.inEntry = true) : (since.foldl (call settings) s).inEntry = true := by
  induction since generalizing s with
  | nil => exact h
  | cons event since ih =>
    refine ih (fun d hd => hsince d (List.mem_cons_of_mem _ hd)) ?_
    rw [call_eq]
    cases event with
    | entryDone d => exact absurd List.mem_cons_self (hsince d)
    | entryBegun _ => rfl
    | _ => exact h

/-- Only the end of an entry closes an entry. -/
theorem IsOpen.concat (h : IsOpen settings es) (hevent : ∀ d, event ≠ .entryDone d) :
    IsOpen settings (es ++ [event]) := by
  obtain ⟨before, e, since, s, rfl, hok, hsince⟩ := h
  refine ⟨before, e, since ++ [event], s, by simp, hok, fun d hd => ?_⟩
  rcases List.mem_append.mp hd with hd | hd
  · exact hsince d hd
  · exact hevent d (List.mem_singleton.mp hd).symm

/-- **The state is inside an entry** if a callback began one and none has ended one since. -/
theorem inEntry_after_iff : (after settings es).inEntry = true ↔ IsOpen settings es := by
  constructor
  · induction es using List.reverseRecOn with
    | nil => exact nofun
    | append_singleton es event ih =>
      intro h
      rw [after_concat, call_eq] at h
      cases event with
      | entryDone d => cases h
      | entryBegun e =>
        by_cases hin : (after settings es).inEntry = true
        · exact (ih hin).concat (fun _ => nofun)
        · have hin : (after settings es).inEntry = false := by simpa using hin
          exact ⟨es, e, [], _, rfl, visitor_eq_ok_iff.mpr ⟨fun _ _ => hin, rfl⟩, fun _ => by simp⟩
      | _ => exact (ih h).concat (fun _ => nofun)
  · rintro ⟨before, e, since, s, rfl, hok, hsince⟩
    rw [after_append, List.foldl_cons]
    refine inEntry_foldl hsince ?_
    rw [call_eq]

/-! ### The stop of an entry -/

theorem currentStop_foldl {since : List Event} (hstop : ∀ t, Event.stop t ∉ since)
    (hdone : ∀ d, Event.entryDone d ∉ since) (s : State) :
    (since.foldl (call settings) s).currentStop = s.currentStop := by
  induction since generalizing s with
  | nil => rfl
  | cons event since ih =>
    rw [List.foldl_cons, ih (fun t ht => hstop t (List.mem_cons_of_mem _ ht))
      (fun d hd => hdone d (List.mem_cons_of_mem _ hd)), call_eq]
    cases event with
    | stop t => exact absurd List.mem_cons_self (hstop t)
    | entryDone d => exact absurd List.mem_cons_self (hdone d)
    | _ => rfl

/-- The stop of an entry is what the last stop resolves to. -/
theorem currentStop_after {before since : List Event} {t : Located TimeToken}
    (hstop : ∀ u, Event.stop u ∉ since) (hdone : ∀ d, Event.entryDone d ∉ since) :
    (after settings (before ++ .stop t :: since)).currentStop = resolved (lastDate? before) t := by
  rw [after_append, List.foldl_cons, currentStop_foldl hstop hdone, call_eq, reference_after]

/-- A history begins anew with the end of an entry. -/
def IsFresh (es : List Event) : Prop := es = [] ∨ ∃ earlier d, es = earlier ++ [.entryDone d]

/-- Without a stop there is none. -/
theorem currentStop_after_eq_none {before since : List Event} (hbefore : IsFresh before)
    (hstop : ∀ u, Event.stop u ∉ since) (hdone : ∀ d, Event.entryDone d ∉ since) :
    (after settings (before ++ since)).currentStop = none := by
  rw [after_append, currentStop_foldl hstop hdone]
  rcases hbefore with rfl | ⟨earlier, d, rfl⟩
  · rfl
  · rw [after_concat, call_eq]

/-! ### The rules of a callback -/

/-- The rules that a callback looks at. -/
def rulesOf : Event → List Rule
  | .date _ => [.dateMismatch]
  | .frontMatterDone _ => [.invalidStart, .invalidStop, .missingDate, .missingStart, .missingStop]
  | .start _ => [.invalidStart, .startMismatch, .timeJumped]
  | .stop _ => [.invalidStop]
  | .duration _ => [.negativeRange, .incorrectDuration]
  | .journalDone _ => [.stopMismatch]
  | _ => []

theorem rule_of_mem_unresolved {f : Finding} {date : Option Date} {issue : TimeFault → Issue}
    {t : Located TimeToken} (h : f ∈ unresolved date issue t) :
    ∃ fault, f.rule = (issue fault).rule := by
  unfold unresolved at h
  split at h
  · rw [List.mem_singleton.mp h]
    exact ⟨_, rfl⟩
  · cases h

theorem rule_of_mem_checkMissing {f : Finding} {front : FrontMatter} (h : f ∈ checkMissing front) :
    ∃ field, f.rule = (Issue.missing field).rule := by
  rw [checkMissing_eq] at h
  obtain ⟨slot, -, rfl⟩ := List.mem_map.mp h
  exact ⟨slot.1, rfl⟩

theorem rule_of_mem_checkJump {f : Finding} {p c : Option Resolved}
    (h : f ∈ checkJump settings p c) : f.rule = .timeJumped := by
  unfold checkJump at h
  grind [Finding.rule, Issue.rule]

theorem rule_of_mem_checkFirstStart {f : Finding} {t : Located TimeToken}
    (h : f ∈ s.checkFirstStart t) : f.rule = .startMismatch := by
  unfold checkFirstStart at h
  grind [Finding.rule, Issue.rule]

/-- Each finding of a callback is of one of its rules. -/
theorem rule_mem_rulesOf {f : Finding} (h : f ∈ s.found settings event) :
    f.rule ∈ rulesOf event := by
  cases event with
  | date d =>
    unfold found checkDate at h
    grind [Finding.rule, Issue.rule, rulesOf]
  | frontMatterDone front =>
    simp only [found, List.mem_append, List.mem_flatMap] at h
    rcases h with (⟨t, -, h⟩ | ⟨t, -, h⟩) | h
    · obtain ⟨fault, hrule⟩ := rule_of_mem_unresolved h
      simp [rulesOf, hrule, Issue.rule]
    · obtain ⟨fault, hrule⟩ := rule_of_mem_unresolved h
      simp [rulesOf, hrule, Issue.rule]
    · obtain ⟨field, hrule⟩ := rule_of_mem_checkMissing h
      cases field <;> simp [rulesOf, hrule, Issue.rule]
  | start t =>
    simp only [found, List.mem_append] at h
    rcases h with (h | h) | h
    · obtain ⟨fault, hrule⟩ := rule_of_mem_unresolved h
      simp [rulesOf, hrule, Issue.rule]
    · simp [rulesOf, rule_of_mem_checkFirstStart h]
    · simp [rulesOf, rule_of_mem_checkJump h]
  | stop t =>
    obtain ⟨fault, hrule⟩ := rule_of_mem_unresolved h
    simp [rulesOf, hrule, Issue.rule]
  | duration d =>
    unfold found checkOrder checkDuration at h
    grind [Finding.rule, Issue.rule, rulesOf]
  | journalDone j =>
    unfold found checkLastStop at h
    grind [Finding.rule, Issue.rule, rulesOf]
  | _ => cases h

/-! ### The start of the day -/

/-- The findings that the day starts at another time than the first entry. -/
def startMismatches (found : List Finding) : List Finding :=
  found.filter fun f => f.rule = .startMismatch

@[simp] theorem startMismatches_append (found more : List Finding) :
    startMismatches (found ++ more) = startMismatches found ++ startMismatches more :=
  List.filter_append ..

theorem startMismatches_eq_nil {found : List Finding} (h : ∀ f ∈ found, f.rule ≠ .startMismatch) :
    startMismatches found = [] :=
  List.filter_eq_nil_iff.mpr fun f hf => by simpa using h f hf

/-- The start of an entry is compared with the start of the day in one of its checks only. -/
theorem startMismatches_found_start (settings : Settings) (s : State) (t : Located TimeToken) :
    startMismatches (s.found settings (.start t)) = s.checkFirstStart t := by
  have hunresolved : startMismatches (unresolved s.reference .invalidStart t) = [] := by
    refine startMismatches_eq_nil fun f hf => ?_
    obtain ⟨fault, hrule⟩ := rule_of_mem_unresolved hf
    simp [hrule, Issue.rule]
  have hjump : startMismatches (checkJump settings s.previousStop (resolved s.reference t)) = [] :=
    startMismatches_eq_nil fun f hf => by simp [rule_of_mem_checkJump hf]
  have hfirst : startMismatches (s.checkFirstStart t) = s.checkFirstStart t :=
    List.filter_eq_self.mpr fun f hf => by simp [rule_of_mem_checkFirstStart hf]
  rw [found, startMismatches_append, startMismatches_append, hunresolved, hfirst, hjump,
    List.nil_append, List.append_nil]

/-- **Only the start of an entry is compared with the start of the day.** -/
theorem startMismatches_found (settings : Settings) (s : State) (event : Event) :
    startMismatches (s.found settings event) =
      match event with
      | .start t => s.checkFirstStart t
      | _ => [] := by
  cases event with
  | start t => exact startMismatches_found_start settings s t
  | _ =>
    refine startMismatches_eq_nil fun f hf hrule => ?_
    have hmem := rule_mem_rulesOf hf
    rw [hrule] at hmem
    simp [rulesOf] at hmem

theorem checkFirstStart_ne_nil_iff {t : Located TimeToken} :
    s.checkFirstStart t ≠ [] ↔ s.seenFirstStart = false ∧
      ∃ expected, s.dayStart = some expected ∧ expected.value ≠ t.value := by
  unfold checkFirstStart
  rcases s.dayStart with _ | expected
  · simp
  · simp

theorem length_checkFirstStart_le (s : State) (t : Located TimeToken) :
    (s.checkFirstStart t).length ≤ 1 := by
  unfold checkFirstStart
  split
  · split_ifs
    · exact Nat.le_refl _
    · exact Nat.zero_le _
  · exact Nat.zero_le _

theorem seenFirstStart_after_iff :
    (after settings es).seenFirstStart = true ↔ ∃ t, Event.start t ∈ es := by
  induction es using List.reverseRecOn with
  | nil => simp [init]
  | append_singleton es event ih =>
    rw [after_concat, call_eq]
    cases event with
    | start t => simp
    | _ => simpa using ih

theorem seenFirstStart_after_eq_false_iff :
    (after settings es).seenFirstStart = false ↔ ∀ t, Event.start t ∉ es := by
  rw [← Bool.not_eq_true, seenFirstStart_after_iff, not_exists]

/-- **A callback reports the start of the day** if it is the first start and differs from it. -/
theorem startMismatches_call_ne_iff :
    startMismatches ((after settings es).call settings event).findings ≠
        startMismatches (after settings es).findings ↔
      ∃ t expected, event = .start t ∧ (∀ u, Event.start u ∉ es) ∧
        lastDayStart? es = some expected ∧ expected.value ≠ t.value := by
  rw [findings_call, startMismatches_append, Ne, List.append_right_eq_self, startMismatches_found]
  cases event with
  | start t =>
    rw [← Ne, checkFirstStart_ne_nil_iff, seenFirstStart_after_eq_false_iff, dayStart_after]
    simp
  | _ => simp

/-- Before the first start nothing is reported about the start of the day. -/
theorem startMismatches_after_eq_nil (h : ∀ t, Event.start t ∉ es) :
    startMismatches (after settings es).findings = [] := by
  induction es using List.reverseRecOn with
  | nil => rfl
  | append_singleton es event ih =>
    rw [after_concat, findings_call, startMismatches_append, startMismatches_found,
      ih fun t ht => h t (List.mem_append_left _ ht)]
    cases event with
    | start t => exact absurd (List.mem_append_right _ (List.mem_singleton_self _)) (h t)
    | _ => rfl

/-- **The start of the day is reported at most once.** -/
theorem length_startMismatches_after_le (settings : Settings) (es : List Event) :
    (startMismatches (after settings es).findings).length ≤ 1 := by
  induction es using List.reverseRecOn with
  | nil => exact Nat.zero_le _
  | append_singleton es event ih =>
    rw [after_concat]
    by_cases hkept : startMismatches ((after settings es).call settings event).findings =
        startMismatches (after settings es).findings
    · rw [hkept]
      exact ih
    · obtain ⟨t, -, rfl, hfirst, -⟩ := startMismatches_call_ne_iff.mp hkept
      rw [findings_call, startMismatches_append, startMismatches_after_eq_nil hfirst,
        List.nil_append, startMismatches_found]
      exact length_checkFirstStart_le _ t

/-! ### Every history -/

/-- What can be relied on after a history, whatever it is, and in the callback that follows. -/
structure IsConsistent (settings : Settings) (es : List Event) : Prop where
  /-- An entry that begins while one is open fails, nothing else does, and a failure leaves the
  state as it was. -/
  fails : ∀ event failure s,
    visitor settings event (after settings es) = .error failure s ↔
      ∃ e, event = .entryBegun e ∧ IsOpen settings es ∧ failure = ⟨e.span.start⟩ ∧
        s = after settings es
  /-- A callback that returns adds findings after those that are there. -/
  appends : ∀ event s, visitor settings event (after settings es) = .ok () s →
    (after settings es).findings <+: s.findings
  /-- The end of an entry leaves nothing of it but its stop. -/
  closes : ∀ d s, visitor settings (.entryDone d) (after settings es) = .ok () s →
    s.currentStart = none ∧ s.currentStop = none ∧ s.inEntry = false
  /-- The stop that it leaves is what the last stop since the end of an entry resolved to. -/
  carries : ∀ d s before t since, visitor settings (.entryDone d) (after settings es) = .ok () s →
    es = before ++ .stop t :: since →
    (∀ u, Event.stop u ∉ since) → (∀ d, Event.entryDone d ∉ since) →
    s.previousStop = resolved (lastDate? before) t
  /-- Without a stop since then it leaves none. -/
  drops : ∀ d s before since, visitor settings (.entryDone d) (after settings es) = .ok () s →
    es = before ++ since → IsFresh before →
    (∀ u, Event.stop u ∉ since) → (∀ d, Event.entryDone d ∉ since) →
    s.previousStop = none
  /-- The start of the day is reported at most once. -/
  once : (startMismatches (after settings es).findings).length ≤ 1
  /-- The callback that reports it is the first start, if that differs from it. -/
  first : ∀ event s, visitor settings event (after settings es) = .ok () s →
    (startMismatches s.findings ≠ startMismatches (after settings es).findings ↔
      ∃ t expected, event = .start t ∧ (∀ u, Event.start u ∉ es) ∧
        lastDayStart? es = some expected ∧ expected.value ≠ t.value)

/-- **A check is consistent under any order of callbacks.** -/
theorem isConsistent_after (settings : Settings) (es : List Event) : IsConsistent settings es where
  fails event failure s := by rw [visitor_eq_error_iff, inEntry_after_iff]
  appends event s h := by
    rw [← call_eq_of_ok h, findings_call]
    exact List.prefix_append _ _
  closes d s h := by
    rw [← call_eq_of_ok h, call_eq]
    exact ⟨rfl, rfl, rfl⟩
  carries d s before t since h hes hstop hdone := by
    rw [← call_eq_of_ok h, call_eq, hes]
    exact currentStop_after hstop hdone
  drops d s before since h hes hbefore hstop hdone := by
    rw [← call_eq_of_ok h, call_eq, hes]
    exact currentStop_after_eq_none hbefore hstop hdone
  once := length_startMismatches_after_le settings es
  first event s h := by rw [← call_eq_of_ok h, startMismatches_call_ne_iff]

end TimeJournal.Lint
