import Mathlib.Data.List.Basic
import TimeJournal.Proofs.Journal.Chain

/-! # The traversal of a journal

A traversal goes through the front matter and then through the lines, and from an entry into its
parts (`Journal.traverse`). `Journal.events` lays the callbacks of it out in a row, and running over
the row is the same, for every visitor (`Journal.walk_eq_traverse`).

What becomes of a run over a row of callbacks is said apart from the run: either all of them return,
each on the state that the one before it left (`Visitor.Returns`), or those before some number
return and the one of that number raises (`Visitor.RaisesAt`). `Visitor.recorded` keeps a record of
the callbacks that were made, so that it can be said that none was made after the failure.

* `Visitor.forM_eq_ok_iff`, `Visitor.forM_eq_error_iff`: a run is one of the two.
* `Journal.walk_prefix`: an aborted traversal is a prefix of the full one. -/

namespace TimeJournal

variable {ε σ : Type}

/-! ### The order -/

/-- Traverses the front matter: its date if it could be read, its times, then the whole of it. -/
def FrontMatter.traverse (visit : Visitor ε σ) (f : FrontMatter) : EStateM ε σ Unit := do
  match f.date with
  | some (.read d) => visit (.date d)
  | some (.junk _) => pure ()
  | none => pure ()
  match f.start with
  | some t => visit (.dayStart t)
  | none => pure ()
  match f.stop with
  | some t => visit (.dayStop t)
  | none => pure ()
  visit (.frontMatterDone f)

/-- Traverses an entry, from the left to the right. -/
def Entry.traverse (visit : Visitor ε σ) (e : Entry) : EStateM ε σ Unit := do
  visit (.entryBegun e)
  visit (.start e.start)
  visit (.stop e.stop)
  e.codes.forM fun c => visit (.code c)
  match e.duration with
  | .read d => visit (.duration d)
  | .junk _ => pure ()
  visit (.activity e.activity)
  visit (.entryDone e)

/-- Traverses a line: only an entry shows. -/
def BodyLine.traverse (visit : Visitor ε σ) : BodyLine → EStateM ε σ Unit
  | .entry e => e.traverse visit
  | .other _ => pure ()
  | .junk _ => pure ()

/-- Traverses a journal, from the top to the bottom. -/
def Journal.traverse (visit : Visitor ε σ) (j : Journal) : EStateM ε σ Unit := do
  j.frontMatter.traverse visit
  j.lines.forM (BodyLine.traverse visit)
  visit (.journalDone j)

theorem FrontMatter.forM_events (visit : Visitor ε σ) (f : FrontMatter) :
    f.events.forM visit = f.traverse visit := by
  unfold FrontMatter.events FrontMatter.date? FrontMatter.traverse
  rcases f.date with _ | _ | _ <;> rcases f.start with _ | _ <;> rcases f.stop with _ | _ <;>
    simp [Recovered.part?]

theorem Entry.forM_events (visit : Visitor ε σ) (e : Entry) :
    e.events.forM visit = e.traverse visit := by
  unfold Entry.events Entry.traverse
  rcases e.duration with _ | _ <;> simp [Recovered.part?]

theorem forM_events_lines (visit : Visitor ε σ) (lines : List BodyLine) :
    ((lines.filterMap BodyLine.entry?).flatMap Entry.events).forM visit =
      lines.forM (BodyLine.traverse visit) := by
  induction lines with
  | nil => rfl
  | cons line lines ih =>
    simp only [List.forM_eq_forM, List.forM_cons] at ih ⊢
    cases line with
    | entry e =>
      rw [List.filterMap_cons_some (by rfl), List.flatMap_cons, List.forM_append, ih]
      exact congrArg (· >>= _) (e.forM_events visit)
    | other c =>
      rw [List.filterMap_cons_none (by rfl), ih]
      exact (pure_bind _ _).symm
    | junk j =>
      rw [List.filterMap_cons_none (by rfl), ih]
      exact (pure_bind _ _).symm

/-- **A run over the row of callbacks is the traversal**, whatever the visitor does. -/
theorem Journal.walk_eq_traverse (j : Journal) (visit : Visitor ε σ) :
    j.walk visit = j.traverse visit := by
  unfold Journal.walk Journal.events Journal.traverse Journal.entries
  rw [← FrontMatter.forM_events, ← forM_events_lines]
  simp only [List.forM_eq_forM, List.forM_append, List.forM_cons, List.forM_nil, bind_assoc,
    bind_pure_unit]

/-! ### Runs -/

namespace Visitor

/-- The callbacks return, each on the state that the one before it left. -/
inductive Returns (visit : Visitor ε σ) : σ → List Event → σ → Prop
  | nil (s : σ) : Returns visit s [] s
  | cons {s s₁ s₂ : σ} {event : Event} {events : List Event} (first : visit event s = .ok () s₁)
      (rest : Returns visit s₁ events s₂) : Returns visit s (event :: events) s₂

/-- The callbacks before the one of number `k` return, and it raises. -/
def RaisesAt (visit : Visitor ε σ) (s : σ) (events : List Event) (k : ℕ) (failure : ε) (s' : σ) :
    Prop :=
  ∃ event sₖ, events[k]? = some event ∧ visit.Returns s (events.take k) sₖ ∧
    visit event sₖ = .error failure s'

/-- The visitor, keeping a record of the callbacks that were made. -/
def recorded (visit : Visitor ε σ) : Visitor ε (σ × List Event) := fun event s =>
  match visit event s.1 with
  | .ok _ s' => .ok () (s', s.2 ++ [event])
  | .error failure s' => .error failure (s', s.2 ++ [event])

section

variable {visit : Visitor ε σ} {event : Event} {events : List Event} {s s₁ s' : σ} {failure : ε}
  {k : ℕ}

theorem forM_cons_ok (h : visit event s = .ok () s₁) :
    (event :: events).forM visit s = events.forM visit s₁ := by
  show EStateM.bind (visit event) (fun _ => events.forM visit) s = _
  simp only [EStateM.bind, h]

theorem forM_cons_error (h : visit event s = .error failure s') :
    (event :: events).forM visit s = .error failure s' := by
  show EStateM.bind (visit event) (fun _ => events.forM visit) s = _
  simp only [EStateM.bind, h]

/-- **A run returns** if all callbacks do. -/
theorem forM_eq_ok_iff : events.forM visit s = .ok () s' ↔ visit.Returns s events s' := by
  constructor
  · intro h
    induction events generalizing s with
    | nil =>
      cases h
      exact .nil _
    | cons event events ih =>
      rcases hfirst : visit event s with ⟨⟨⟩, s₁⟩ | ⟨failure, s₁⟩
      · rw [forM_cons_ok hfirst] at h
        exact .cons hfirst (ih h)
      · rw [forM_cons_error hfirst] at h
        cases h
  · intro h
    induction h with
    | nil s => rfl
    | cons first rest ih => rw [forM_cons_ok first, ih]

theorem raisesAt_zero_iff :
    visit.RaisesAt s (event :: events) 0 failure s' ↔ visit event s = .error failure s' := by
  constructor
  · rintro ⟨_, sₖ, hevent, hbefore, hraises⟩
    cases hevent
    cases hbefore
    exact hraises
  · intro h
    exact ⟨event, s, rfl, .nil s, h⟩

theorem raisesAt_succ_iff :
    visit.RaisesAt s (event :: events) (k + 1) failure s' ↔
      ∃ s₁, visit event s = .ok () s₁ ∧ visit.RaisesAt s₁ events k failure s' := by
  constructor
  · rintro ⟨raising, sₖ, hevent, hbefore, hraises⟩
    rw [List.take_succ_cons] at hbefore
    cases hbefore with
    | cons first rest => exact ⟨_, first, raising, sₖ, hevent, rest, hraises⟩
  · rintro ⟨s₁, hfirst, raising, sₖ, hevent, hbefore, hraises⟩
    exact ⟨raising, sₖ, hevent, .cons hfirst hbefore, hraises⟩

/-- **A run raises** if the callback of some number does. -/
theorem forM_eq_error_iff :
    events.forM visit s = .error failure s' ↔ ∃ k, visit.RaisesAt s events k failure s' := by
  induction events generalizing s with
  | nil =>
    refine iff_of_false nofun ?_
    rintro ⟨k, _, _, hevent, -⟩
    cases hevent
  | cons event events ih =>
    rcases hfirst : visit event s with ⟨⟨⟩, s₁⟩ | ⟨raised, s₁⟩
    · rw [forM_cons_ok hfirst, ih]
      constructor
      · rintro ⟨k, hraises⟩
        exact ⟨k + 1, raisesAt_succ_iff.mpr ⟨s₁, hfirst, hraises⟩⟩
      · rintro ⟨_ | k, hraises⟩
        · rw [raisesAt_zero_iff, hfirst] at hraises
          cases hraises
        · obtain ⟨s₂, hok, hraises⟩ := raisesAt_succ_iff.mp hraises
          rw [hfirst] at hok
          cases hok
          exact ⟨k, hraises⟩
    · rw [forM_cons_error hfirst]
      constructor
      · intro h
        cases h
        exact ⟨0, raisesAt_zero_iff.mpr hfirst⟩
      · rintro ⟨_ | k, hraises⟩
        · rw [raisesAt_zero_iff, hfirst] at hraises
          exact hraises
        · obtain ⟨s₂, hok, -⟩ := raisesAt_succ_iff.mp hraises
          rw [hfirst] at hok
          cases hok

/-! ### Records -/

theorem Returns.recorded (h : visit.Returns s events s') (made : List Event) :
    visit.recorded.Returns (s, made) events (s', made ++ events) := by
  induction h generalizing made with
  | nil s =>
    rw [List.append_nil]
    exact .nil _
  | @cons s s₁ s₂ event events first rest ih =>
    have hfirst : visit.recorded event (s, made) = .ok () (s₁, made ++ [event]) := by
      simp only [Visitor.recorded, first]
    have hrest := ih (made ++ [event])
    rw [List.append_assoc] at hrest
    exact .cons hfirst hrest

/-- The record of an aborted run ends with the callback that raised. -/
theorem RaisesAt.recorded (h : visit.RaisesAt s events k failure s') (made : List Event) :
    visit.recorded.RaisesAt (s, made) events k failure (s', made ++ events.take (k + 1)) := by
  obtain ⟨event, sₖ, hevent, hbefore, hraises⟩ := h
  refine ⟨event, (sₖ, made ++ events.take k), hevent, hbefore.recorded made, ?_⟩
  rw [List.take_add_one, hevent, Option.toList_some, ← List.append_assoc]
  simp only [Visitor.recorded, hraises]

/-! ### Longer rows -/

theorem RaisesAt.of_append {more : List Event} (h : visit.RaisesAt s (events ++ more) k failure s')
    (hk : k < events.length) : visit.RaisesAt s events k failure s' := by
  obtain ⟨event, sₖ, hevent, hbefore, hraises⟩ := h
  rw [List.getElem?_append_left hk] at hevent
  rw [List.take_append_of_le_length (Nat.le_of_lt hk)] at hbefore
  exact ⟨event, sₖ, hevent, hbefore, hraises⟩

theorem Returns.of_append {more : List Event} (h : visit.Returns s (events ++ more) s') :
    ∃ s₁, visit.Returns s events s₁ := by
  induction events generalizing s with
  | nil => exact ⟨s, .nil s⟩
  | cons event events ih =>
    cases h with
    | cons first rest =>
      obtain ⟨s₂, hrest⟩ := ih rest
      exact ⟨s₂, .cons first hrest⟩

/-- What raises behind the end of a row has returned from all of the row. -/
theorem RaisesAt.returns {more : List Event} (h : visit.RaisesAt s (events ++ more) k failure s')
    (hk : events.length ≤ k) : ∃ s₁, visit.Returns s events s₁ := by
  obtain ⟨-, sₖ, -, hbefore, -⟩ := h
  rw [List.take_append, List.take_of_length_le hk] at hbefore
  exact hbefore.of_append

theorem RaisesAt.lt_length (h : visit.RaisesAt s events k failure s') : k < events.length := by
  obtain ⟨event, -, hevent, -⟩ := h
  exact (List.getElem?_eq_some_iff.mp hevent).1

end

end Visitor

/-! ### Traversals -/

namespace Journal

variable {j : Journal} {visit : Visitor ε σ} {s s' : σ} {failure : ε} {k : ℕ}

/-- The traversal comes to its end, and all callbacks were made, in their order. -/
def Completes (j : Journal) (visit : Visitor ε σ) (s : σ) : Prop :=
  ∃ s', visit.Returns s j.events s' ∧ j.walk visit s = .ok () s' ∧
    j.walk visit.recorded (s, []) = .ok () (s', j.events)

/-- The traversal ends as the callback of number `k` did, after which none was made. -/
def AbortsAt (j : Journal) (visit : Visitor ε σ) (s : σ) (k : ℕ) (failure : ε) (s' : σ) : Prop :=
  j.walk visit s = .error failure s' ∧
    j.walk visit.recorded (s, []) = .error failure (s', j.events.take (k + 1))

theorem completes_of_returns (h : visit.Returns s j.events s') : j.Completes visit s :=
  ⟨s', h, Visitor.forM_eq_ok_iff.mpr h, Visitor.forM_eq_ok_iff.mpr (h.recorded [])⟩

theorem abortsAt_of_raisesAt (h : visit.RaisesAt s j.events k failure s') :
    j.AbortsAt visit s k failure s' :=
  ⟨Visitor.forM_eq_error_iff.mpr ⟨k, h⟩, Visitor.forM_eq_error_iff.mpr ⟨k, h.recorded []⟩⟩

/-- **An aborted traversal is a prefix of the full one.** A visitor may raise at the callback of some
number, in the row of callbacks or in what one likes to append to it. In the row this ends the
traversal; behind its end it is of no effect; and a visitor that does not raise in the row lets the
traversal come to its end. -/
theorem walk_prefix (j : Journal) (visit : Visitor ε σ) (s : σ) :
    j.walk visit = j.traverse visit ∧
    (∀ more k failure s', visit.RaisesAt s (j.events ++ more) k failure s' →
      (k < j.events.length → j.AbortsAt visit s k failure s') ∧
      (j.events.length ≤ k → j.Completes visit s)) ∧
    (j.Completes visit s ∨
      ∃ k < j.events.length, ∃ failure s', visit.RaisesAt s j.events k failure s') := by
  refine ⟨j.walk_eq_traverse visit, fun more k failure s' h => ⟨fun hk => ?_, fun hk => ?_⟩, ?_⟩
  · exact abortsAt_of_raisesAt (h.of_append hk)
  · obtain ⟨s₁, hreturns⟩ := h.returns hk
    exact completes_of_returns hreturns
  · rcases hwalk : j.walk visit s with ⟨⟨⟩, s₁⟩ | ⟨failure, s₁⟩
    · exact Or.inl (completes_of_returns (Visitor.forM_eq_ok_iff.mp hwalk))
    · obtain ⟨k, hraises⟩ := Visitor.forM_eq_error_iff.mp hwalk
      exact Or.inr ⟨k, hraises.lt_length, failure, s₁, hraises⟩

end Journal

end TimeJournal
