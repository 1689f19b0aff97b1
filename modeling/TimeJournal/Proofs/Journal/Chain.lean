import Mathlib.Data.List.Basic
import TimeJournal.Journal.Event

/-! # Entries in succession

An entry is checked and corrected beside the entry before it, of which only the end time matters.
`Journal.chain` lists the entries of a journal, each with that end time; junk and other lines
between two entries do not count. `chain` is the same for a part of the entries, which follow an
entry that stopped at `previous`, so that statements about a run of entries can be proved by
induction (`chain_cons`) and cut at any entry (`chain_append`). -/

namespace TimeJournal

theorem BodyLine.entry?_eq_some_iff {l : BodyLine} {e : Entry} :
    l.entry? = some e ↔ l = .entry e := by
  unfold BodyLine.entry?
  cases l with
  | entry a => simp
  | other c => simp
  | junk j => simp

theorem Recovered.part?_eq_some_iff {α : Type} {r : Recovered α} {a : α} :
    r.part? = some a ↔ r = .read a := by
  cases r with
  | read b => simp [Recovered.part?]
  | junk j => simp [Recovered.part?]

/-- Events of codes change nothing in a traversal that takes no notice of them. -/
theorem foldl_codes {σ : Type} {step : σ → Event → σ} (h : ∀ s c, step s (.code c) = s)
    (codes : List (Located String)) (s : σ) : (codes.map Event.code).foldl step s = s := by
  rw [List.foldl_map]
  exact List.foldl_fixed' (h s) codes

/-- Each of the entries that follow an end time, with the end time in front of it. -/
def chain (previous : Option (Located TimeToken)) (entries : List Entry) :
    List (Option (Located TimeToken) × Entry) :=
  (previous :: entries.map fun e => some e.stop).zip entries

/-- The end time after some entries that follow an end time. -/
def lastStop (previous : Option (Located TimeToken)) (entries : List Entry) :
    Option (Located TimeToken) :=
  entries.foldl (fun _ e => some e.stop) previous

@[simp] theorem chain_nil (previous : Option (Located TimeToken)) : chain previous [] = [] := rfl

@[simp] theorem chain_cons (previous : Option (Located TimeToken)) (e : Entry) (es : List Entry) :
    chain previous (e :: es) = (previous, e) :: chain (some e.stop) es := rfl

@[simp] theorem lastStop_nil (previous : Option (Located TimeToken)) :
    lastStop previous [] = previous := rfl

@[simp] theorem lastStop_cons (previous : Option (Located TimeToken)) (e : Entry)
    (es : List Entry) : lastStop previous (e :: es) = lastStop (some e.stop) es := rfl

theorem chain_append (previous : Option (Located TimeToken)) (es es' : List Entry) :
    chain previous (es ++ es') = chain previous es ++ chain (lastStop previous es) es' := by
  induction es generalizing previous with
  | nil => rfl
  | cons e es ih => simp [ih]

theorem lastStop_eq (previous : Option (Located TimeToken)) (es : List Entry) :
    lastStop previous es = (es.getLast?.map Entry.stop).or previous := by
  induction es generalizing previous with
  | nil => rfl
  | cons e es ih =>
    rw [lastStop_cons, ih, List.getLast?_cons]
    cases es.getLast? <;> rfl

/-- An end time that nothing stood in front of is the one of an entry. -/
theorem exists_of_lastStop {es : List Entry} {p : Located TimeToken}
    (h : lastStop none es = some p) : ∃ e ∈ es, e.stop = p := by
  rw [lastStop_eq, Option.or_none] at h
  obtain ⟨e, he, rfl⟩ := Option.map_eq_some_iff.mp h
  exact ⟨e, List.mem_of_getLast? he, rfl⟩

theorem mem_of_mem_chain {previous p : Option (Located TimeToken)} {es : List Entry} {e : Entry}
    (h : (p, e) ∈ chain previous es) : e ∈ es :=
  (List.of_mem_zip h).2

/-- What stands in front of an entry of a run. -/
theorem mem_chain_iff {previous p : Option (Located TimeToken)} {entries : List Entry} {e : Entry} :
    (p, e) ∈ chain previous entries ↔
      ∃ es es', entries = es ++ e :: es' ∧ p = lastStop previous es := by
  constructor
  · intro h
    induction entries generalizing previous with
    | nil => cases h
    | cons a entries ih =>
      rw [chain_cons] at h
      rcases List.mem_cons.mp h with h | h
      · obtain ⟨rfl, rfl⟩ := Prod.mk.inj h
        exact ⟨[], entries, rfl, rfl⟩
      · obtain ⟨es, es', rfl, rfl⟩ := ih h
        exact ⟨a :: es, es', rfl, rfl⟩
  · rintro ⟨es, es', rfl, rfl⟩
    rw [chain_append, chain_cons]
    exact List.mem_append_right _ List.mem_cons_self

/-- The entries of a journal, each with the end time of the entry before it. -/
def Journal.chain (j : Journal) : List (Option (Located TimeToken) × Entry) :=
  TimeJournal.chain none j.entries

/-- The end time in front of an entry is the one of another entry. -/
theorem Journal.exists_of_mem_chain {j : Journal} {p : Located TimeToken} {e : Entry}
    (h : (some p, e) ∈ j.chain) : ∃ before ∈ j.entries, before.stop = p := by
  obtain ⟨es, es', hentries, hp⟩ := mem_chain_iff.mp h
  obtain ⟨before, hbefore, rfl⟩ := exists_of_lastStop hp.symm
  exact ⟨before, by rw [hentries]; exact List.mem_append_left _ hbefore, rfl⟩

end TimeJournal
