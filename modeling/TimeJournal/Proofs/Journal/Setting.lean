import TimeJournal.Proofs.Journal.Chain
import TimeJournal.Proofs.Journal.Grammar
import TimeJournal.Proofs.Journal.Move

/-! # Setting a part of a journal

A `Setting` names one part of a journal, the date or the start time or the duration of a line, and
the value that it is to have. `Journal.set` puts the value there and leaves all else as it is, the
spans included.

* `Journal.exists_line`: an entry of a journal stands in some line, and what is set in that line
  changes that entry only.
* `Journal.partSpan?_set`, `Journal.partSpan?_move`: a part that is set stays where it is, and moves
  with the journal. -/

namespace TimeJournal

/-- A part with its value changed; junk stays. -/
def Recovered.map {α : Type} (f : α → α) : Recovered α → Recovered α
  | .read a => .read (f a)
  | .junk j => .junk j

/-- A front matter with another date. -/
def FrontMatter.withDate (f : FrontMatter) (d : Date) : FrontMatter :=
  { f with date := f.date.map (Recovered.map fun a => { a with value := d }) }

/-- An entry with another start time. -/
def Entry.withStart (token : TimeToken) (e : Entry) : Entry :=
  { e with start := { e.start with value := token } }

/-- An entry with another duration. -/
def Entry.withDuration (seconds : ℕ) (raw : String) (e : Entry) : Entry :=
  { e with duration := e.duration.map fun d => { d with seconds := seconds, raw := raw } }

/-- A line with its entry changed; other lines stay. -/
def BodyLine.mapEntry (f : Entry → Entry) : BodyLine → BodyLine
  | .entry e => .entry (f e)
  | .other c => .other c
  | .junk j => .junk j

/-- A part of a journal, the lines counted from 0, and the value that it is to have. -/
inductive Setting where
  | date (value : Date)
  | start (line : ℕ) (token : TimeToken)
  | duration (line : ℕ) (seconds : ℕ) (raw : String)
  deriving DecidableEq, Repr

namespace Setting

/-- How the value is written. -/
def text : Setting → String
  | .date d => d.toString
  | .start _ token => token.raw
  | .duration _ _ raw => raw

/-- The value is read from its text: a time token from a time, a duration from a literal with a
dot. -/
def IsWritten : Setting → Prop
  | .date _ => True
  | .start _ token => IsTime token.raw.toList
  | .duration _ seconds raw =>
    Hours.isDecimal raw.toList = true ∧ Hours.seconds? raw.toList = some seconds

end Setting

namespace Journal

/-- The entry that a line is. -/
def entryAt? (j : Journal) (line : ℕ) : Option Entry := j.lines[line]?.bind BodyLine.entry?

/-- The span of the part that a setting is about, if the journal has it. -/
def partSpan? (j : Journal) : Setting → Option Span
  | .date _ => j.frontMatter.date?.map Located.span
  | .start line _ => (j.entryAt? line).map fun e => e.start.span
  | .duration line _ _ => (j.entryAt? line).bind fun e => e.duration.part?.map Duration.span

/-- A journal with the entry of a line changed. -/
def mapLine (j : Journal) (line : ℕ) (f : Entry → Entry) : Journal :=
  { j with lines := j.lines.modify line (BodyLine.mapEntry f) }

/-- A journal with a part set. -/
def set (j : Journal) : Setting → Journal
  | .date d => { j with frontMatter := j.frontMatter.withDate d }
  | .start line token => j.mapLine line (Entry.withStart token)
  | .duration line seconds raw => j.mapLine line (Entry.withDuration seconds raw)

end Journal

/-! ### Lines and entries -/

theorem modify_append_cons {α : Type} (f : α → α) (xs : List α) (y : α) (zs : List α) :
    (xs ++ y :: zs).modify xs.length f = xs ++ f y :: zs := by
  induction xs with
  | nil => rfl
  | cons x xs ih => rw [List.cons_append, List.length_cons, List.modify_succ_cons, ih]; rfl

theorem exists_append_of_getElem? {α : Type} {xs : List α} {i : ℕ} {x : α} (h : xs[i]? = some x) :
    ∃ before after, xs = before ++ x :: after ∧ before.length = i := by
  obtain ⟨hi, rfl⟩ := List.getElem?_eq_some_iff.mp h
  refine ⟨xs.take i, xs.drop (i + 1), ?_, by rw [List.length_take]; omega⟩
  rw [← List.drop_eq_getElem_cons hi, List.take_append_drop]

namespace Journal

theorem entries_append {j : Journal} {before after : List BodyLine} {e : Entry}
    (h : j.lines = before ++ .entry e :: after) : j.entries =
      before.filterMap BodyLine.entry? ++ e :: after.filterMap BodyLine.entry? := by
  rw [entries, h, List.filterMap_append]
  rfl

/-- The lines of a journal around the entry in one of them. -/
theorem exists_lines {j : Journal} {line : ℕ} {e : Entry} (h : j.entryAt? line = some e) :
    ∃ before after, j.lines = before ++ .entry e :: after ∧ before.length = line := by
  obtain ⟨l, hl, he⟩ := Option.bind_eq_some_iff.mp h
  obtain rfl := BodyLine.entry?_eq_some_iff.mp he
  exact exists_append_of_getElem? hl

theorem mapLine_eq {j : Journal} {before after : List BodyLine} {e : Entry}
    (h : j.lines = before ++ .entry e :: after) (f : Entry → Entry) :
    j.mapLine before.length f = { j with lines := before ++ .entry (f e) :: after } := by
  rw [mapLine, h, modify_append_cons]
  rfl

/-- **Every entry stands in a line**, and a change of the entry in that line changes that entry
only. -/
theorem exists_line {j : Journal} {es es' : List Entry} {e : Entry}
    (h : j.entries = es ++ e :: es') :
    ∃ line, j.entryAt? line = some e ∧
      ∀ f : Entry → Entry, (j.mapLine line f).entries = es ++ f e :: es' := by
  obtain ⟨before, rest, hlines, hbefore, hrest⟩ := List.filterMap_eq_append_iff.mp h
  obtain ⟨skipped, l, after, rfl, hskipped, hl, hafter⟩ := List.filterMap_eq_cons_iff.mp hrest
  obtain rfl := BodyLine.entry?_eq_some_iff.mp hl
  have hskip : skipped.filterMap BodyLine.entry? = [] := List.filterMap_eq_nil_iff.mpr hskipped
  have hj : j.lines = (before ++ skipped) ++ .entry e :: after := by
    rw [hlines, List.append_assoc]
  refine ⟨(before ++ skipped).length, ?_, fun f => ?_⟩
  · rw [entryAt?, hj, List.getElem?_append_right le_rfl, Nat.sub_self]
    rfl
  · rw [mapLine_eq hj f, entries_append rfl, List.filterMap_append, hbefore, hskip, hafter,
      List.append_nil]

/-! ### Moved and changed journals -/

variable {j : Journal} {m : ℕ →o ℕ}

theorem entries_move (j : Journal) : (j.move m).entries = j.entries.map (Entry.move m) := by
  show (j.lines.map (BodyLine.move m)).filterMap BodyLine.entry? = _
  rw [List.filterMap_map, entries, List.map_filterMap]
  congr 1
  funext l
  cases l <;> rfl

theorem entries_move_of_eq {es es' : List Entry} {e : Entry} (h : j.entries = es ++ e :: es') :
    (j.move m).entries =
      es.map (Entry.move m) ++ e.move m :: es'.map (Entry.move m) := by
  rw [entries_move, h, List.map_append, List.map_cons]

theorem entryAt?_move (j : Journal) (line : ℕ) :
    (j.move m).entryAt? line = (j.entryAt? line).map (Entry.move m) := by
  show ((j.lines.map (BodyLine.move m))[line]?).bind BodyLine.entry? = _
  rw [List.getElem?_map, entryAt?]
  rcases j.lines[line]? with _ | l
  · rfl
  · cases l <;> rfl

theorem entryAt?_mapLine (j : Journal) (line : ℕ) (f : Entry → Entry) :
    (j.mapLine line f).entryAt? line = (j.entryAt? line).map f := by
  show ((j.lines.modify line (BodyLine.mapEntry f))[line]?).bind BodyLine.entry? = _
  rw [List.getElem?_modify_eq, entryAt?]
  rcases j.lines[line]? with _ | l
  · rfl
  · cases l <;> rfl

/-- The entry of a line after it was changed and moved. -/
theorem entryAt?_mapLine_move {i : ℕ} {e : Entry} (h : j.entryAt? i = some e) (f : Entry → Entry)
    (m : ℕ →o ℕ) : ((j.mapLine i f).move m).entryAt? i = some ((f e).move m) := by
  rw [entryAt?_move, entryAt?_mapLine, h]
  rfl

theorem mem_entries_of_entryAt? {i : ℕ} {e : Entry} (h : j.entryAt? i = some e) :
    e ∈ j.entries := by
  obtain ⟨before, after, hlines, -⟩ := exists_lines h
  rw [entries_append hlines]
  exact List.mem_append_right _ List.mem_cons_self

end Journal

theorem FrontMatter.date?_move (f : FrontMatter) (m : ℕ →o ℕ) :
    (f.move m).date? = f.date?.map (Located.move m) := by
  show (f.date.map (Recovered.move Located.move m)).bind Recovered.part? = _
  rw [FrontMatter.date?]
  rcases f.date with _ | r
  · rfl
  · cases r <;> rfl

theorem FrontMatter.date?_withDate (f : FrontMatter) (d : Date) :
    (f.withDate d).date? = f.date?.map fun a => { a with value := d } := by
  show (f.date.map (Recovered.map _)).bind Recovered.part? = _
  rw [FrontMatter.date?]
  rcases f.date with _ | r
  · rfl
  · cases r <;> rfl

theorem Entry.part?_move (e : Entry) (m : ℕ →o ℕ) :
    (e.move m).duration.part? = e.duration.part?.map (Duration.move m) := by
  show (e.duration.move Duration.move m).part? = _
  cases e.duration <;> rfl

theorem Entry.part?_withDuration (e : Entry) (seconds : ℕ) (raw : String) :
    (e.withDuration seconds raw).duration.part? =
      e.duration.part?.map fun d => { d with seconds := seconds, raw := raw } := by
  show (e.duration.map _).part? = _
  cases e.duration <;> rfl

theorem lastStop_map_move (m : ℕ →o ℕ) (previous : Option (Located TimeToken)) (es : List Entry) :
    lastStop (previous.map (Located.move m)) (es.map (Entry.move m)) =
      (lastStop previous es).map (Located.move m) := by
  induction es generalizing previous with
  | nil => rfl
  | cons e es ih => exact ih (some e.stop)

theorem chain_map_move (m : ℕ →o ℕ) (previous : Option (Located TimeToken)) (es : List Entry) :
    chain (previous.map (Located.move m)) (es.map (Entry.move m)) =
      (chain previous es).map fun link => (link.1.map (Located.move m), link.2.move m) := by
  induction es generalizing previous with
  | nil => rfl
  | cons e es ih =>
    rw [List.map_cons, chain_cons, chain_cons, List.map_cons]
    exact congrArg _ (ih (some e.stop))

theorem Journal.chain_move (m : ℕ →o ℕ) (j : Journal) :
    (j.move m).chain = j.chain.map fun link => (link.1.map (Located.move m), link.2.move m) := by
  rw [Journal.chain, Journal.chain, entries_move, ← chain_map_move]
  rfl

/-! ### The spans of parts -/

namespace Journal

variable {j : Journal}

theorem partSpan?_date {d : Located Date} (h : j.frontMatter.date? = some d) (value : Date) :
    j.partSpan? (.date value) = some d.span := by
  show j.frontMatter.date?.map Located.span = _
  rw [h]
  rfl

theorem partSpan?_start {i : ℕ} {e : Entry} (h : j.entryAt? i = some e) (token : TimeToken) :
    j.partSpan? (.start i token) = some e.start.span := by
  show (j.entryAt? i).map _ = _
  rw [h]
  rfl

theorem partSpan?_duration {i : ℕ} {e : Entry} (h : j.entryAt? i = some e) {d : Duration}
    (hd : e.duration.part? = some d) (seconds : ℕ) (raw : String) :
    j.partSpan? (.duration i seconds raw) = some d.span := by
  show (j.entryAt? i).bind _ = _
  rw [h, Option.bind_some, hd]
  rfl

theorem partSpan?_move (m : ℕ →o ℕ) (x : Setting) :
    (j.move m).partSpan? x = (j.partSpan? x).map (Span.move m) := by
  cases x with
  | date d =>
    show (j.frontMatter.move m).date?.map Located.span = (j.frontMatter.date?.map _).map _
    rw [FrontMatter.date?_move, Option.map_map, Option.map_map]
    rfl
  | start i token =>
    show ((j.move m).entryAt? i).map _ = ((j.entryAt? i).map _).map _
    rw [entryAt?_move, Option.map_map, Option.map_map]
    rfl
  | duration i seconds raw =>
    show ((j.move m).entryAt? i).bind _ = ((j.entryAt? i).bind _).map _
    rw [entryAt?_move]
    rcases j.entryAt? i with _ | e
    · rfl
    · show (e.move m).duration.part?.map _ = (e.duration.part?.map _).map _
      rw [Entry.part?_move, Option.map_map, Option.map_map]
      rfl

theorem partSpan?_set (x : Setting) : (j.set x).partSpan? x = j.partSpan? x := by
  cases x with
  | date d =>
    show (j.frontMatter.withDate d).date?.map Located.span = j.frontMatter.date?.map _
    rw [FrontMatter.date?_withDate, Option.map_map]
    rfl
  | start i token =>
    show ((j.mapLine i _).entryAt? i).map _ = (j.entryAt? i).map _
    rw [entryAt?_mapLine, Option.map_map]
    rfl
  | duration i seconds raw =>
    show ((j.mapLine i _).entryAt? i).bind _ = (j.entryAt? i).bind _
    rw [entryAt?_mapLine]
    rcases j.entryAt? i with _ | e
    · rfl
    · show (e.withDuration seconds raw).duration.part?.map _ = e.duration.part?.map _
      rw [Entry.part?_withDuration, Option.map_map]
      rfl

end Journal

end TimeJournal
