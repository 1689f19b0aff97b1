import Mathlib.Tactic.Set
import TimeJournal.Export.Format
import TimeJournal.Proofs.Lint.Relocation

/-! # The records of a journal

What an export collects, said without a traversal: the entries one after the other, each as its
record, if it has one.

* `Collector.gains_entry`: the events of an entry add its record to those so far, whatever stood
  before; `Collector.gains_entries`: so do the events of a run of entries, by induction on the run.
* `Journal.records_eq`: the records of a journal.
* `Journal.records_move`: the records do not depend on where the parts of the journal stand. -/

namespace TimeJournal

open Lint

/-- The record of an entry whose times have instants against a date and whose duration was read. -/
def Entry.record? (date : Option Date) (split : Bool) (e : Entry) : Option Record :=
  match instant? date e.start.value, instant? date e.stop.value, e.duration.part? with
  | some start, some stop, some d =>
    let (labels, activity) := if split then splitLabels e.activity.value else ([], e.activity.value)
    some ⟨start, stop, d.seconds, e.codes.map Located.value ++ labels, activity⟩
  | _, _, _ => none

namespace Collector

variable (split : Bool)

theorem foldl_frontMatter (f : FrontMatter) :
    f.events.foldl (step split) init = { init with reference := f.date?.map Located.value } := by
  unfold FrontMatter.events
  rcases f.date? with _ | d <;> rcases f.start with _ | a <;> rcases f.stop with _ | b <;> rfl

theorem foldl_codes (codes : List (Located String)) (c : Collector) :
    (codes.map Event.code).foldl (step split) c =
      { c with codes := c.codes ++ codes.map Located.value } := by
  induction codes generalizing c with
  | nil => rw [List.map_nil, List.map_nil, List.append_nil]; rfl
  | cons code codes ih =>
    rw [List.map_cons, List.foldl_cons, ih, List.map_cons]
    show { c with codes := c.codes ++ [code.value] ++ codes.map Located.value } = _
    rw [List.append_assoc]
    rfl

theorem foldl_duration (d : Option Duration) (c : Collector) :
    (d.map Event.duration).toList.foldl (step split) { c with seconds := none } =
      { c with seconds := d.map Duration.seconds } := by
  rcases d with _ | d <;> rfl

/-- The collector at the end of an entry. -/
def filled (c : Collector) (e : Entry) : Collector :=
  { c with
    start := instant? c.reference e.start.value
    stop := instant? c.reference e.stop.value
    seconds := e.duration.part?.map Duration.seconds
    codes := e.codes.map Located.value
    activity := some e.activity.value }

/-- Nothing that the entry before has left behind is seen. -/
theorem foldl_parts (c : Collector) (e : Entry) :
    e.events.foldl (step split) c = step split (c.filled e) (.entryDone e) := by
  unfold Entry.events
  rw [List.foldl_append, List.foldl_append, List.foldl_append, List.foldl_cons, List.foldl_cons,
    List.foldl_cons, List.foldl_nil, foldl_codes]
  have hduration := foldl_duration split e.duration.part? { c with
    start := instant? c.reference e.start.value
    stop := instant? c.reference e.stop.value
    codes := e.codes.map Located.value
    activity := none }
  exact congrArg
    (fun x => step split (step split x (.activity e.activity)) (.entryDone e)) hduration

theorem record?_filled (c : Collector) (e : Entry) :
    (c.filled e).record? split = e.record? c.reference split := by
  unfold record? filled Entry.record?
  dsimp only
  rcases instant? c.reference e.start.value with _ | a
  · rfl
  rcases instant? c.reference e.stop.value with _ | b
  · rfl
  rcases e.duration.part? with _ | d
  · rfl
  · rfl

theorem isUnresolved_filled (c : Collector) (e : Entry) :
    (c.filled e).isUnresolved = (e.record? c.reference split).isNone := by
  unfold isUnresolved filled Entry.record?
  dsimp only
  rcases instant? c.reference e.start.value with _ | a
  · rfl
  rcases instant? c.reference e.stop.value with _ | b
  · rfl
  rcases e.duration.part? with _ | d
  · rfl
  · rfl

/-- What a collector has gained from some entries: their records. -/
structure Gains (es : List Entry) (c c' : Collector) : Prop where
  reference_eq : c'.reference = c.reference
  records_eq : c'.records = c.records ++ es.filterMap (Entry.record? c.reference split)

theorem gains_entry (c : Collector) (e : Entry) :
    Gains split [e] c (e.events.foldl (step split) c) := by
  have hrecord := record?_filled split c e
  have hunresolved := isUnresolved_filled split c e
  rw [foldl_parts, step]
  rcases he : e.record? c.reference split with _ | r
  · have hskip : (c.filled e).isUnresolved = true := by rw [hunresolved, he]; rfl
    rw [if_pos hskip]
    refine ⟨rfl, ?_⟩
    rw [List.filterMap_cons_none he, List.filterMap_nil, List.append_nil]
    rfl
  · have hkeep : ¬ (c.filled e).isUnresolved = true := by rw [hunresolved, he]; exact nofun
    rw [if_neg hkeep, hrecord, he]
    refine ⟨rfl, ?_⟩
    rw [List.filterMap_cons_some he, List.filterMap_nil]
    rfl

/-- **The entries are collected one after the other**, each as if it stood alone. -/
theorem gains_entries (c : Collector) (es : List Entry) :
    Gains split es c ((es.flatMap Entry.events).foldl (step split) c) := by
  induction es generalizing c with
  | nil => exact ⟨rfl, (List.append_nil _).symm⟩
  | cons e es ih =>
    have hentry := gains_entry split c e
    rw [List.flatMap_cons, List.foldl_append]
    set c₁ := e.events.foldl (step split) c
    have hrest := ih c₁
    refine ⟨hrest.reference_eq.trans hentry.reference_eq, ?_⟩
    rw [hrest.records_eq, hentry.records_eq, hentry.reference_eq, List.append_assoc,
      ← List.filterMap_append, List.singleton_append]

theorem gains_ofJournal (j : Journal) :
    Gains split j.entries { init with reference := Lint.reference j } (ofJournal j split) := by
  have hentries := gains_entries split { init with reference := Lint.reference j } j.entries
  unfold ofJournal Journal.events
  rw [List.foldl_append, List.foldl_append, foldl_frontMatter]
  exact hentries

end Collector

namespace Journal

/-- **The records of a journal** are those of its entries, in their order. -/
theorem records_eq (j : Journal) (split : Bool) :
    j.records split = j.entries.filterMap (Entry.record? (reference j) split) :=
  (Collector.gains_ofJournal split j).records_eq

end Journal

/-! ### Journals at other places -/

theorem Entry.record?_move (m : ℕ →o ℕ) (date : Option Date) (split : Bool) (e : Entry) :
    (e.move m).record? date split = e.record? date split := by
  have hcodes : (e.move m).codes.map Located.value = e.codes.map Located.value := by
    show (e.codes.map (Located.move m)).map _ = _
    rw [List.map_map]
    rfl
  have hstart : (e.move m).start.value = e.start.value := rfl
  have hstop : (e.move m).stop.value = e.stop.value := rfl
  have hactivity : (e.move m).activity.value = e.activity.value := rfl
  unfold record?
  rw [hstart, hstop, hactivity, hcodes, part?_move]
  rcases instant? date e.start.value with _ | a
  · rfl
  rcases instant? date e.stop.value with _ | b
  · rfl
  rcases e.duration.part? with _ | d
  · rfl
  · rfl

/-- **No record shows an offset.** -/
theorem Journal.records_move (m : ℕ →o ℕ) (j : Journal) (split : Bool) :
    (j.move m).records split = j.records split := by
  rw [records_eq, records_eq, reference_move, entries_move, List.filterMap_map]
  exact List.filterMap_congr fun e _ => e.record?_move m _ split

end TimeJournal
