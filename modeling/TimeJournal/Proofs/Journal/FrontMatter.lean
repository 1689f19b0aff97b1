import TimeJournal.Proofs.Journal.Quotation

/-! # What the front matter is

The front matter, said line by line without reading it. The first line delimits it, and so does the
first later line that can; what stands between is looked at for each line alone, but for the rule
that the last field with a key counts.

* `IsDelimiterLine`, `Text.Line.HoldsField`: what a delimiter is, and what a field.
* `IsLastValue`: the value that counts under a key; `isLastValue_lastField`: it is the one read.
* `Text.Line.Reports`: what is wrong with one line of the block; `BlockLine.reports_iff`: it is what
  is reported on it.
* `Reading.Recognizes`: what a reading makes of the lines of its text, closed, unterminated or
  without a front matter; `Reading.recognizes_ofLines`: every reading does so.
* `read_recognizes`: the same for every text that is short enough to be read. -/

namespace TimeJournal

open Text

/-! ### Delimiters -/

/-- Three or more dashes, then only blanks. -/
def IsDelimiterLine (content : List Char) : Prop :=
  ∃ count blanks, 3 ≤ count ∧ content = List.replicate count '-' ++ blanks ∧
    ∀ c ∈ blanks, isBlank c = true

theorem isDelimiter_iff {content : List Char} :
    isDelimiter content = true ↔ IsDelimiterLine content := by
  unfold isDelimiter
  constructor
  · intro h
    rw [Bool.and_eq_true, decide_eq_true_eq, List.all_eq_true] at h
    have hdashes : content.takeWhile (· == '-') =
        List.replicate (content.takeWhile (· == '-')).length '-' :=
      List.eq_replicate_iff.mpr ⟨rfl, fun c hc => by simpa using List.mem_takeWhile_imp hc⟩
    refine ⟨_, content.dropWhile (· == '-'), h.1, ?_, h.2⟩
    rw [← hdashes, List.takeWhile_append_dropWhile]
  · rintro ⟨count, blanks, hcount, rfl, hblank⟩
    have hdash : ∀ c ∈ List.replicate count '-', (c == '-') = true := fun c hc => by
      simpa using List.eq_of_mem_replicate hc
    have hstop : ∀ c ∈ blanks.head?, (c == '-') = false := by
      intro c hc
      have hb := hblank c (List.mem_of_head? hc)
      rw [beq_eq_false_iff_ne]
      rintro rfl
      exact absurd hb (by decide)
    rw [takeWhile_append_stop hdash hstop, dropWhile_append_stop hdash hstop,
      List.length_replicate, Bool.and_eq_true, decide_eq_true_eq, List.all_eq_true]
    exact ⟨hcount, hblank⟩

theorem not_isDelimiter_iff {content : List Char} :
    isDelimiter content = false ↔ ¬ IsDelimiterLine content := by
  rw [← isDelimiter_iff, Bool.not_eq_true]

/-! ### Fields -/

/-- The line is a field with the key, and its value is the part. -/
def Text.Line.HoldsField (l : Line) (key : FieldKey) (p : Located String) : Prop :=
  ∃ f : FieldText, f.IsWritten ∧ f.key = key ∧ f.chars = l.content ∧
    p = EntryText.locate (l.start + f.valueOffset) f.value

/-- A line is blank. -/
def Text.Line.IsBlank (l : Line) : Prop := ∀ c ∈ l.content, Text.isBlank c = true

/-- **A line is read as a field exactly if it is one.** -/
theorem BlockLine.exists_read_iff {l : Line} {key : FieldKey} {p : Located String} :
    (∃ f, read l = .field f ∧ f.key = key ∧ f.found = p) ↔ l.HoldsField key p := by
  constructor
  · rintro ⟨f, hread, rfl, rfl⟩
    obtain ⟨t, ht, rfl⟩ := exists_fieldText hread
    obtain ⟨hchars, hwritten⟩ := FieldText.read_eq_some_iff.mp ht
    exact ⟨t, hwritten, rfl, hchars, rfl⟩
  · rintro ⟨t, hwritten, rfl, hchars, rfl⟩
    have hblank := t.chars_head.2
    rw [hchars] at hblank
    refine ⟨⟨t.key, String.ofList t.value,
      Span.ofLength (l.start + t.valueOffset) t.value.length, l.start⟩, ?_, rfl, rfl⟩
    unfold read
    rw [if_neg (by rw [hblank]; decide), FieldText.read_eq_some_iff.mpr ⟨hchars, hwritten⟩]

theorem BlockLine.read_eq_blank_iff {l : Line} : read l = .blank ↔ l.IsBlank := by
  unfold read Text.Line.IsBlank
  rw [← List.all_eq_true]
  by_cases hblank : l.content.all Text.isBlank = true
  · rw [if_pos hblank]
    exact iff_of_true rfl hblank
  · rw [if_neg hblank]
    refine iff_of_false (fun h => ?_) hblank
    cases hf : FieldText.read l.content <;> rw [hf] at h <;> cases h

theorem BlockLine.eq_of_read_unexpected {l : Line} {span : Span} (h : read l = .unexpected span) :
    span = Span.ofLength l.start l.content.length := by
  unfold read at h
  split at h
  · cases h
  · split at h
    · cases h
    · exact (BlockLine.unexpected.inj h).symm

/-! ### The value that counts -/

/-- The part that lines hold under a key: the value of the last one that is a field with the key,
and nothing if none of them is. -/
def IsLastValue (key : FieldKey) (ls : List Line) : Option (Located String) → Prop
  | none => ∀ l ∈ ls, ∀ p, ¬ l.HoldsField key p
  | some p => ∃ before l after, ls = before ++ l :: after ∧ l.HoldsField key p ∧
      ∀ x ∈ after, ∀ q, ¬ x.HoldsField key q

theorem lastField_append_of_ne {fields : List Field} {more : List Field} {key : FieldKey}
    (h : ∀ f ∈ more, f.key ≠ key) : lastField (fields ++ more) key = lastField fields key := by
  have hnil : more.filter (fun f => decide (f.key = key)) = [] :=
    List.filter_eq_nil_iff.mpr (by simpa using h)
  rw [lastField, lastField, List.filter_append, hnil, List.append_nil]

theorem IsLastValue.append {key : FieldKey} {ls : List Line} {p : Option (Located String)}
    (h : IsLastValue key ls p) {l : Line} (hl : ∀ q, ¬ l.HoldsField key q) :
    IsLastValue key (ls ++ [l]) p := by
  rcases p with _ | p
  · intro x hx
    rcases List.mem_append.mp hx with hx | hx
    · exact h x hx
    · rwa [List.mem_singleton.mp hx]
  · obtain ⟨before, x, after, rfl, hx, hafter⟩ := h
    refine ⟨before, x, after ++ [l], by simp, hx, fun y hy => ?_⟩
    rcases List.mem_append.mp hy with hy | hy
    · exact hafter y hy
    · rwa [List.mem_singleton.mp hy]

/-- **The last field that is read holds the value that counts.** -/
theorem isLastValue_lastField (key : FieldKey) (ls : List Line) : IsLastValue key ls
    ((lastField ((ls.map BlockLine.read).filterMap BlockLine.field?) key).map Field.found) := by
  induction ls using List.reverseRecOn with
  | nil => simp [IsLastValue, lastField]
  | append_singleton ls l ih =>
    rw [List.map_append, List.filterMap_append]
    by_cases hl : ∃ p, l.HoldsField key p
    · obtain ⟨p, hp⟩ := hl
      obtain ⟨f, hread, hkey, rfl⟩ := BlockLine.exists_read_iff.mpr hp
      have hfield : [l].map BlockLine.read = [.field f] := by rw [List.map_singleton, hread]
      rw [hfield]
      show IsLastValue key _ ((lastField (_ ++ f :: []) key).map _)
      rw [lastField_append hkey (by simp)]
      exact ⟨ls, l, [], rfl, hp, by simp⟩
    · rw [not_exists] at hl
      have hne : ∀ f ∈ ([l].map BlockLine.read).filterMap BlockLine.field?, f.key ≠ key := by
        intro f hf hkey
        obtain ⟨b, hb, hfield⟩ := List.mem_filterMap.mp hf
        rw [List.map_singleton, List.mem_singleton] at hb
        rw [hb] at hfield
        exact hl f.found (BlockLine.exists_read_iff.mp
          ⟨f, BlockLine.field?_eq_some_iff.mp hfield, hkey, rfl⟩)
      rw [lastField_append_of_ne hne]
      exact ih.append hl

/-- The front matter holds the values that count in the lines of its block. The date is junk if its
value is no date as it would be written. -/
structure FrontMatter.Holds (f : FrontMatter) (inner : List Line) : Prop where
  date : IsLastValue .date inner (f.date.map (Recovered.found Located.written))
  start : IsLastValue .start inner (f.start.map Located.literal)
  stop : IsLastValue .stop inner (f.stop.map Located.literal)
  junk_iff : ∀ part, f.date = some part →
    ((∃ k, part = .junk k) ↔ ¬ ∃ d : Date, d.toString = (part.found Located.written).value)

theorem Date.exists_toString_iff {text : String} :
    (∃ d : Date, d.toString = text) ↔ ∃ d, Date.parse text = .ok d := by
  constructor
  · rintro ⟨d, rfl⟩
    exact ⟨d, d.parse_toString⟩
  · rintro ⟨d, hd⟩
    exact ⟨d, Date.toString_of_parse hd⟩

theorem Field.toDate_junk_iff (f : Field) :
    (∃ k, f.toDate = .junk k) ↔ ¬ ∃ d : Date, d.toString = f.value := by
  rw [Date.exists_toString_iff]
  unfold toDate
  rcases hparse : Date.parse f.value with fault | d
  · exact iff_of_true ⟨_, rfl⟩ (by rintro ⟨d, hd⟩; cases hd)
  · exact iff_of_false (by rintro ⟨k, hk⟩; cases hk) (fun h => h ⟨d, rfl⟩)

theorem Block.frontMatter_holds (ls : List Line) (span : Span) :
    (frontMatter ((ls.map BlockLine.read).filterMap BlockLine.field?) span).Holds ls where
  date := by
    have hfound : Recovered.found Located.written ∘ Field.toDate = Field.found :=
      funext Field.found_toDate
    have h := isLastValue_lastField .date ls
    rw [← hfound, ← Option.map_map] at h
    exact h
  start := by
    have h := isLastValue_lastField .start ls
    rw [show Field.found = Located.literal ∘ Field.toTime from rfl, ← Option.map_map] at h
    exact h
  stop := by
    have h := isLastValue_lastField .stop ls
    rw [show Field.found = Located.literal ∘ Field.toTime from rfl, ← Option.map_map] at h
    exact h
  junk_iff := by
    intro part hpart
    obtain ⟨f, -, rfl⟩ := Option.map_eq_some_iff.mp hpart
    rw [f.found_toDate]
    exact f.toDate_junk_iff

/-! ### What is wrong with a line -/

/-- What is wrong with a line of the block, if anything is. -/
inductive Text.Line.Reports (l : Line) : Option ParseFault → Prop
  | blank : l.IsBlank → l.Reports none
  | time {key : FieldKey} {p : Located String} : key ≠ .date → l.HoldsField key p → l.Reports none
  | date {p : Located String} {d : Date} : l.HoldsField .date p → d.toString = p.value →
      l.Reports none
  | badDate {p : Located String} {fault : Date.Fault} : l.HoldsField .date p →
      Date.parse p.value = .error fault → l.Reports (some ⟨.badDate fault, p.span⟩)
  | unexpected : ¬ l.IsBlank → (∀ key p, ¬ l.HoldsField key p) →
      l.Reports (some ⟨.unexpectedFrontMatterLine, Span.ofLength l.start l.content.length⟩)

/-- **What is wrong with a line is reported on it, and nothing else.** -/
theorem BlockLine.reports_iff {l : Line} {fault? : Option ParseFault} :
    l.Reports fault? ↔ (read l).fault? = fault? := by
  constructor
  · rintro (hblank | ⟨hkey, hfield⟩ | ⟨hfield, hdate⟩ | ⟨hfield, hdate⟩ | ⟨hblank, hfield⟩)
    · rw [read_eq_blank_iff.mpr hblank]
      rfl
    · obtain ⟨f, hread, rfl, -⟩ := exists_read_iff.mpr hfield
      rw [hread, BlockLine.fault?, if_neg hkey]
    · obtain ⟨f, hread, hkey, rfl⟩ := exists_read_iff.mpr hfield
      have hvalue : f.value = Date.toString _ := hdate.symm
      rw [hread, BlockLine.fault?, if_pos hkey, hvalue, Date.parse_toString]
    · obtain ⟨f, hread, hkey, rfl⟩ := exists_read_iff.mpr hfield
      rw [hread, BlockLine.fault?, if_pos hkey, show Date.parse f.value = _ from hdate]
      rfl
    · rcases hread : read l with _ | f | span
      · exact absurd (read_eq_blank_iff.mp hread) hblank
      · exact absurd (exists_read_iff.mp ⟨f, hread, rfl, rfl⟩) (hfield _ _)
      · rw [eq_of_read_unexpected hread]
        rfl
  · rintro rfl
    rcases hread : read l with _ | f | span
    · exact .blank (read_eq_blank_iff.mp hread)
    · have hfield : l.HoldsField f.key f.found := exists_read_iff.mp ⟨f, hread, rfl, rfl⟩
      by_cases hkey : f.key = .date
      · rw [BlockLine.fault?, if_pos hkey]
        rw [hkey] at hfield
        rcases hparse : Date.parse f.value with fault | d
        · exact .badDate hfield hparse
        · exact .date hfield (Date.toString_of_parse hparse)
      · rw [BlockLine.fault?, if_neg hkey]
        exact .time hkey hfield
    · rw [eq_of_read_unexpected hread]
      refine .unexpected (fun hblank => ?_) (fun key p hfield => ?_)
      · rw [read_eq_blank_iff.mpr hblank] at hread
        cases hread
      · obtain ⟨f, hf, -⟩ := exists_read_iff.mpr hfield
        rw [hf] at hread
        cases hread

/-- The faults are what is wrong with the lines, one line after the other. -/
def ReportsAll (inner : List Line) (faults : List ParseFault) : Prop :=
  ∃ marks, List.Forall₂ Text.Line.Reports inner marks ∧ faults = marks.filterMap id

theorem reportsAll_read (inner : List Line) :
    ReportsAll inner ((inner.map BlockLine.read).filterMap BlockLine.fault?) := by
  refine ⟨inner.map fun l => (BlockLine.read l).fault?, ?_, ?_⟩
  · rw [List.forall₂_map_right_iff]
    exact List.forall₂_same.mpr fun l _ => BlockLine.reports_iff.mpr rfl
  · rw [List.filterMap_map, List.filterMap_map]
    rfl

/-! ### What a reading recognizes -/

/-- What a reading makes of the lines of a text of some size, the first of which begins at `start`.
The block is closed by the first line behind the opening one that can close it. -/
structure Reading.Recognizes (r : Reading) (start size : ℕ) (ls : List Line) : Prop where
  isSome_iff : r.journal.isSome = true ↔ ∃ opening rest, ls = opening :: rest ∧
    IsDelimiterLine opening.content ∧ ∃ l ∈ rest, IsDelimiterLine l.content
  closed : ∀ opening inner closing body, ls = opening :: (inner ++ closing :: body) →
    IsDelimiterLine opening.content → (∀ l ∈ inner, ¬ IsDelimiterLine l.content) →
    IsDelimiterLine closing.content →
    ∃ j blockFaults, r.journal = some j ∧ j.frontMatter.Holds inner ∧
      j.frontMatter.span.start = start ∧ j.frontMatter.span.stop = closing.stop ∧
      j.lines = body.map (fun l => (BodyLine.read l.start l.content).1) ∧
      ReportsAll inner blockFaults ∧
      r.faults = blockFaults ++ body.filterMap fun l => (BodyLine.read l.start l.content).2
  unterminated : ∀ opening rest, ls = opening :: rest → IsDelimiterLine opening.content →
    (∀ l ∈ rest, ¬ IsDelimiterLine l.content) → ∃ blockFaults, ReportsAll rest blockFaults ∧
      r.faults = ⟨.unterminatedFrontMatter, Span.ofLength start (size - start)⟩ :: blockFaults
  missing : ∀ opening rest, ls = opening :: rest → ¬ IsDelimiterLine opening.content →
    r.faults = [⟨.noOpeningDelimiter, Span.ofLength start opening.content.length⟩]
  empty : ls = [] → r.faults = [⟨.noOpeningDelimiter, Span.ofLength start 0⟩]

namespace Block

theorem ofLines_unterminated (start stop : ℕ) {opening : Line} {rest : List Line}
    (hopen : isDelimiter opening.content = true)
    (hrest : ∀ l ∈ rest, isDelimiter l.content = false) : ofLines start stop (opening :: rest) =
      ⟨.error ⟨.unterminatedFrontMatter, Span.ofLength start (stop - start)⟩,
        (rest.map BlockLine.read).filterMap BlockLine.field?,
        (rest.map BlockLine.read).filterMap BlockLine.fault?⟩ := by
  have htake : rest.takeWhile (fun l => !isDelimiter l.content) = rest :=
    List.takeWhile_eq_self_iff.mpr (by simpa using hrest)
  have hdrop : rest.dropWhile (fun l => !isDelimiter l.content) = [] :=
    List.dropWhile_eq_nil_iff.mpr (by simpa using hrest)
  simp only [ofLines, hopen, if_true, htake, hdrop]

theorem ofLines_missing (start stop : ℕ) {opening : Line} (rest : List Line)
    (hopen : isDelimiter opening.content = false) : ofLines start stop (opening :: rest) =
      ⟨.error ⟨.noOpeningDelimiter, Span.ofLength start opening.content.length⟩, [], []⟩ := by
  simp only [ofLines, hopen, Bool.false_eq_true, if_false]

end Block

namespace Reading

/-- Without a block there is no journal, and the reason is the first fault. -/
theorem ofLines_of_error {start size : ℕ} {ls : List Line} {fault : ParseFault}
    (h : (Block.ofLines start size ls).outcome = .error fault) :
    (ofLines start size ls).journal = none ∧
      (ofLines start size ls).faults = fault :: (Block.ofLines start size ls).faults := by
  simp only [ofLines, h, and_self]

/-- With a block there is a journal: its front matter holds the fields of the block, and the faults
are those of the block and then those of the body. -/
theorem ofLines_closed {marked : Bool} {opening closing : Line} {inner body : List Line} (size : ℕ)
    (hcut : IsCut marked.toNat (opening :: (inner ++ closing :: body)))
    (hopen : IsDelimiterLine opening.content) (hinner : ∀ l ∈ inner, ¬ IsDelimiterLine l.content)
    (hclose : IsDelimiterLine closing.content) :
    ∃ j blockFaults,
      (ofLines marked.toNat size (opening :: (inner ++ closing :: body))).journal = some j ∧
      j.frontMatter.Holds inner ∧ j.frontMatter.span.start = marked.toNat ∧
      j.frontMatter.span.stop = closing.stop ∧
      j.lines = body.map (fun l => (BodyLine.read l.start l.content).1) ∧
      ReportsAll inner blockFaults ∧
      (ofLines marked.toNat size (opening :: (inner ++ closing :: body))).faults =
        blockFaults ++ body.filterMap fun l => (BodyLine.read l.start l.content).2 := by
  let D : Document := ⟨marked, opening, inner, closing, body, hcut, isDelimiter_iff.mpr hopen,
    fun l hl => not_isDelimiter_iff.mpr (hinner l hl), isDelimiter_iff.mpr hclose⟩
  obtain ⟨hjournal, hfaults⟩ := D.ofLines_reading size
  refine ⟨_, _, hjournal, Block.frontMatter_holds inner _, rfl, D.blockSpan_stop, D.journal_lines,
    reportsAll_read inner, hfaults.trans ?_⟩
  rw [Document.faults, Document.bodyLines, List.filterMap_map]
  rfl

/-- The first line that can close the block. -/
theorem exists_closing {rest : List Line} (h : ∃ l ∈ rest, IsDelimiterLine l.content) :
    ∃ inner closing body, rest = inner ++ closing :: body ∧
      (∀ l ∈ inner, ¬ IsDelimiterLine l.content) ∧ IsDelimiterLine closing.content := by
  obtain ⟨l, hl, hclose⟩ := h
  have hfound : (rest.find? fun l => isDelimiter l.content).isSome = true :=
    List.find?_isSome.mpr ⟨l, hl, isDelimiter_iff.mpr hclose⟩
  obtain ⟨closing, hclosing⟩ := Option.isSome_iff_exists.mp hfound
  obtain ⟨hdelimits, inner, body, rfl, hinner⟩ := List.find?_eq_some_iff_append.mp hclosing
  refine ⟨inner, closing, body, rfl, fun x hx => ?_, isDelimiter_iff.mp hdelimits⟩
  rw [← not_isDelimiter_iff]
  simpa using hinner x hx

/-- **Every reading recognizes the front matter.** -/
theorem recognizes_ofLines {marked : Bool} {ls : List Line} (size : ℕ)
    (hcut : IsCut marked.toNat ls) :
    (ofLines marked.toNat size ls).Recognizes marked.toNat size ls where
  isSome_iff := by
    constructor
    · intro hsome
      rcases hblock : (Block.ofLines marked.toNat size ls).outcome with
        fault | ⟨part, closing, body⟩
      · rw [(ofLines_of_error hblock).1] at hsome
        cases hsome
      · obtain ⟨opening, inner, rfl, hopen, -, hclose⟩ := exists_sections hblock
        exact ⟨opening, _, rfl, isDelimiter_iff.mp hopen, closing, by simp,
          isDelimiter_iff.mp hclose⟩
    · rintro ⟨opening, rest, rfl, hopen, hrest⟩
      obtain ⟨inner, closing, body, rfl, hinner, hclose⟩ := exists_closing hrest
      obtain ⟨j, -, hj, -⟩ := ofLines_closed size hcut hopen hinner hclose
      rw [hj, Option.isSome_some]
  closed := by
    rintro opening inner closing body rfl hopen hinner hclose
    exact ofLines_closed size hcut hopen hinner hclose
  unterminated := by
    rintro opening rest rfl hopen hrest
    have hblock := Block.ofLines_unterminated marked.toNat size (isDelimiter_iff.mpr hopen)
      fun l hl => not_isDelimiter_iff.mpr (hrest l hl)
    refine ⟨_, reportsAll_read rest, ?_⟩
    rw [(ofLines_of_error (congrArg Block.outcome hblock)).2, hblock]
  missing := by
    rintro opening rest rfl hopen
    have hblock := Block.ofLines_missing marked.toNat size rest (not_isDelimiter_iff.mpr hopen)
    rw [(ofLines_of_error (congrArg Block.outcome hblock)).2, hblock]
  empty := by
    rintro rfl
    rfl

end Reading

/-- **The front matter is recognized exactly**, in every text that is short enough to be read. The
lines are those of the text behind its byte order mark, if it has one. -/
theorem read_recognizes (text : String) (limit : ℕ) (h : limit = 0 ∨ text.length ≤ limit) :
    ∃ reading marked ls, Journal.read text limit = .ok reading ∧
      text.toList = (if marked then [Reading.byteOrderMark] else []) ++ ls.flatMap Line.chars ∧
      (marked = false → (ls.flatMap Line.chars).head? ≠ some Reading.byteOrderMark) ∧
      IsCut marked.toNat ls ∧ reading.Recognizes marked.toNat text.length ls := by
  obtain ⟨marked, rest, htext, hmark⟩ := exists_mark text.toList
  have hsize : text.length = marked.toNat + rest.length := by
    rw [← String.length_toList, htext, List.length_append, Reading.length_mark]
  have hlines : (Text.lines marked.toNat rest).flatMap Line.chars = rest := by
    rw [List.flatMap_def, lines_flatten]
  have hcut := isCut_lines marked.toNat rest
  refine ⟨_, marked, Text.lines marked.toNat rest, Journal.read_of_le h, ?_, ?_, hcut, ?_⟩
  · rw [hlines, htext]
  · rwa [hlines]
  · rw [htext, ofText_mark marked rest hmark, hsize]
    exact Reading.recognizes_ofLines _ hcut

/-- A text with a byte order mark, in which a valid date takes the place of an invalid one, between
a line that is no field and a blank one. -/
def overriddenText : String :=
  "\uFEFF---\ndate: 2024-13-01\nDate: today\n \t\r\ndate : 2024-01-03 \n----\t\nend: 10:00\n"

theorem read_recognizes_overriddenText : ∃ (reading : Reading) (marked : Bool) (ls : List Line),
    Journal.read overriddenText Journal.defaultLimit = .ok reading ∧
    reading.journal.map (fun j => j.frontMatter.date) =
      some (some (.read ⟨⟨2024, 1, 3, by decide, by decide, by decide⟩, ⟨45, 55, by decide⟩⟩)) ∧
    reading.faults.map ParseFault.message =
      ["Unrecognizable date: Invalid calendar date '2024-13-01': month must be in 1..12",
        "Unexpected line in front matter"] ∧
    overriddenText.toList =
      (if marked then [Reading.byteOrderMark] else []) ++ ls.flatMap Line.chars ∧
    IsCut marked.toNat ls ∧ reading.Recognizes marked.toNat overriddenText.length ls := by
  have hlimit : Journal.defaultLimit = 0 ∨ overriddenText.length ≤ Journal.defaultLimit := by
    decide +kernel
  obtain ⟨reading, marked, ls, hread, htext, -, hcut, hrecognizes⟩ :=
    read_recognizes overriddenText Journal.defaultLimit hlimit
  have hreading : Reading.ofText overriddenText.toList = reading :=
    Except.ok.inj ((Journal.read_of_le hlimit).symm.trans hread)
  refine ⟨reading, marked, ls, hread, ?_, ?_, htext, hcut, hrecognizes⟩
  · rw [← hreading]
    decide +kernel
  · rw [← hreading]
    decide +kernel

end TimeJournal
