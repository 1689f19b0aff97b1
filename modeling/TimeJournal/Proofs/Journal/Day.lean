import TimeJournal.Proofs.Calendar.Clock
import TimeJournal.Proofs.Hours.Rendering
import TimeJournal.Proofs.Journal.Classification
import TimeJournal.Proofs.Journal.Plain

/-! # A day written down

A `Day` is a date and work that follows without a gap from some minute on, cut into `Stint`s. It is
written down as a journal: the front matter with the date and the times between which the work lies,
then one plain line for each stint, its time counted on past midnight and its length in hours with
two decimals.

* `Stint.exists_entry`: the line of a stint is read as an entry with its times, its codes, its
  length and its activity.
* `Day.exists_journal`: the text of a day is read without a fault, as a journal that says what the
  day says (`Day.IsReadAs`). -/

namespace TimeJournal

open Text

/-! ### Days -/

/-- A piece of work: how long it took, its codes and what was done. -/
structure Stint where
  minutes : ℕ
  codes : List String
  activity : String
  length_le : codes.length ≤ maxCodes
  isCode : ∀ code ∈ codes, IsCode code.toList
  isInline : IsInline activity.toList
  head_not_blank : ∀ c ∈ activity.toList.head?, isBlank c = false

/-- The minutes that some stints take. -/
def total (stints : List Stint) : ℕ := (stints.map Stint.minutes).sum

/-- The stints of a day, one behind the other from a minute past midnight on. They are over before
the year 10000. -/
structure Day where
  date : Date
  start : ℕ
  stints : List Stint
  inCalendar : date.dayNumber + (start + total stints) / 1440 ≤ lastDayNumber

/-- The minute past midnight at which a day stops. -/
def Day.stop (day : Day) : ℕ := day.start + total day.stints

/-- Stints that follow one another, each with the minute at which it starts. -/
def timed : ℕ → List Stint → List (ℕ × Stint)
  | _, [] => []
  | start, s :: stints => (start, s) :: timed (start + s.minutes) stints

namespace Stint

/-- The length of a stint in hours with two decimals. -/
def duration (s : Stint) : String := Hours.twoDecimals ((s.minutes : ℚ) / 60)

/-- The line of a stint that starts at a minute past midnight. -/
def line (s : Stint) (start : ℕ) : String :=
  "- " ++ clock start ++ "-" ++ clock (start + s.minutes) ++ " " ++
    String.join (s.codes.map (· ++ " ")) ++ s.duration ++ " " ++ s.activity

/-- The entry says what the stint says that starts at a minute past midnight. Its duration is 36
seconds for each hundredth of an hour. -/
structure IsReadAs (s : Stint) (at_ : ℕ) (e : Entry) : Prop where
  start : e.start.value = ⟨clock at_⟩
  stop : e.stop.value = ⟨clock (at_ + s.minutes)⟩
  codes : e.codes.map Located.value = s.codes
  duration : ∃ span, e.duration = .read ⟨36 * Hours.hundredths s.minutes, s.duration, span⟩
  activity : e.activity.value = s.activity

end Stint

namespace Day

/-- The text of a day. -/
def text (day : Day) : String :=
  "---\ndate: " ++ day.date.toString ++ "\nstart: " ++ clock day.start ++ "\nend: " ++
    clock day.stop ++ "\n---\n" ++
    String.join ((timed day.start day.stints).map fun p => p.2.line p.1 ++ "\n")

/-- The journal says what the day says, and has no other lines. -/
structure IsReadAs (day : Day) (j : Journal) : Prop where
  date : ∃ span, j.frontMatter.date = some (.read ⟨day.date, span⟩)
  start : ∃ span, j.frontMatter.start = some ⟨⟨clock day.start⟩, span⟩
  stop : ∃ span, j.frontMatter.stop = some ⟨⟨clock day.stop⟩, span⟩
  entries : ∃ es, j.lines = es.map .entry ∧
    List.Forall₂ (fun p e => p.2.IsReadAs p.1 e) (timed day.start day.stints) es

end Day

/-! ### Stints -/

namespace Stint

variable (s : Stint)

/-- The parts of the line of a stint. -/
def entryText (start : ℕ) : EntryText :=
  .plain (clock start).toList (clock (start + s.minutes)).toList (s.codes.map String.toList)
    s.duration.toList s.activity.toList

theorem toList_line (start : ℕ) : (s.line start).toList = (s.entryText start).chars := by
  have hcodes : (String.join (s.codes.map (· ++ " "))).toList =
      ((s.codes.map String.toList).map Word.plain).flatMap Word.chars := by
    rw [String.toList_join, List.flatMap_map, List.flatMap_map, List.flatMap_map]
    exact List.flatMap_congr fun code _ => String.toList_append
  have hdash : "- ".toList = ['-', ' '] := rfl
  have hhyphen : "-".toList = ['-'] := rfl
  have hblank : " ".toList = [' '] := rfl
  delta line
  simp only [String.toList_append, hcodes, hdash, hhyphen, hblank, entryText, EntryText.chars,
    EntryText.plain, Word.plain, Word.chars, List.append_assoc, List.cons_append, List.nil_append]

theorem toList_duration : s.duration.toList = Hours.literal (Hours.hundredths s.minutes) :=
  Hours.toList_twoDecimals_minutes s.minutes

theorem isDecimal_duration : Hours.isDecimal s.duration.toList = true := by
  rw [toList_duration]
  exact Hours.isDecimal_literal _

theorem isCode_of_mem {code : List Char} (h : code ∈ s.codes.map String.toList) : IsCode code := by
  obtain ⟨c, hc, rfl⟩ := List.mem_map.mp h
  exact s.isCode c hc

theorem isEntry_entryText (start : ℕ) : (s.entryText start).IsEntry :=
  EntryText.isEntry_plain (isTime_clock _) (isTime_clock _)
    (by rw [List.length_map]; exact s.length_le) (fun _ => s.isCode_of_mem) s.isDecimal_duration
    s.head_not_blank

theorem isInline_line (start : ℕ) : IsInline (s.line start).toList := by
  have hduration : ∀ c ∈ s.duration.toList, isSpace c = false := by
    have hshaped := Hours.isShaped_of_isDecimal s.isDecimal_duration
    exact fun c hc => isSpace_of_isLiteralChar ((Hours.isShaped_iff.mp hshaped).2 c hc)
  rw [toList_line]
  exact EntryText.isInline_plain (isInline_of_isSpace fun c => isSpace_clock)
    (isInline_of_isSpace fun c => isSpace_clock)
    (fun code hcode => isInline_of_isSpace (s.isCode_of_mem hcode).noSpace)
    (isInline_of_isSpace hduration) s.isInline

/-- **The line of a stint is read as what it says.** -/
theorem exists_entry (h : s.minutes < 2 ^ 38) (at_ place : ℕ) :
    ∃ e, BodyLine.read place (s.line at_).toList = (.entry e, none) ∧ s.IsReadAs at_ e := by
  have hseconds : Hours.seconds? s.duration.toList = some (36 * Hours.hundredths s.minutes) := by
    rw [toList_duration, Hours.seconds?_hundredths h]
  obtain ⟨e, span, hread, hstart, hstop, hcodes, hduration, hactivity⟩ :=
    EntryText.exists_read_plain (s.isEntry_entryText at_) hseconds place
  exact ⟨e, s.toList_line at_ ▸ hread, hstart, hstop, hcodes, ⟨span, hduration⟩, hactivity⟩

end Stint

/-! ### The body -/

theorem le_total {s : Stint} {stints : List Stint} (h : s ∈ stints) : s.minutes ≤ total stints :=
  List.le_sum_of_mem (List.mem_map_of_mem h)

/-- The lines of stints that follow one another are read as entries, without a fault. -/
theorem exists_entries {stints : List Stint} (h : ∀ s ∈ stints, s.minutes < 2 ^ 38)
    (at_ place : ℕ) : ∃ es,
      (feedLines place ((timed at_ stints).map fun p => (p.2.line p.1).toList)).map
        (fun l => BodyLine.read l.start l.content) = es.map (fun e => (.entry e, none)) ∧
      List.Forall₂ (fun p e => p.2.IsReadAs p.1 e) (timed at_ stints) es := by
  induction stints generalizing at_ place with
  | nil => exact ⟨[], rfl, .nil⟩
  | cons s stints ih =>
    obtain ⟨e, hread, hentry⟩ := s.exists_entry (h s List.mem_cons_self) at_ place
    obtain ⟨es, hrest, hall⟩ := ih (fun x hx => h x (List.mem_cons_of_mem s hx)) (at_ + s.minutes)
      (place + (s.line at_).toList.length + 1)
    refine ⟨e :: es, ?_, .cons hentry hall⟩
    rw [timed, List.map_cons, feedLines, List.map_cons, hread, hrest, List.map_cons]

/-! ### Days -/

theorem Block.frontMatter_of_keys {a b c : Field} (ha : a.key = .date) (hb : b.key = .start)
    (hc : c.key = .stop) (span : Span) :
    frontMatter [a, b, c] span = ⟨some a.toDate, some b.toTime, some c.toTime, span⟩ := by
  simp [frontMatter, lastField, ha, hb, hc]

namespace Day

variable (day : Day)

/-- The fields of the front matter of a day. -/
def fieldTexts : List FieldText :=
  [.plain .date day.date.toString.toList, .plain .start (clock day.start).toList,
    .plain .stop (clock day.stop).toList]

/-- A field of a day has a value without white space. -/
theorem exists_value {f : FieldText} (h : f ∈ day.fieldTexts) : ∃ key value,
    f = .plain key value ∧ value ≠ [] ∧ ∀ c ∈ value, isSpace c = false := by
  simp only [fieldTexts, List.mem_cons, List.not_mem_nil, or_false] at h
  rcases h with rfl | rfl | rfl
  · exact ⟨_, _, rfl, day.date.toList_toString_ne_nil, fun _ => Date.isSpace_toString⟩
  · exact ⟨_, _, rfl, (isTime_clock _).ne_nil, fun _ => isSpace_clock⟩
  · exact ⟨_, _, rfl, (isTime_clock _).ne_nil, fun _ => isSpace_clock⟩

theorem isWritten_of_mem {f : FieldText} (h : f ∈ day.fieldTexts) : f.IsWritten := by
  obtain ⟨key, value, rfl, hne, hspace⟩ := day.exists_value h
  exact FieldText.isWritten_plain hne hspace

/-- The contents of the lines of a day inside its front matter. -/
def inner : List (List Char) := day.fieldTexts.map FieldText.chars

/-- The contents of the lines of a day behind its front matter. -/
def body : List (List Char) :=
  (timed day.start day.stints).map fun p => (p.2.line p.1).toList

theorem isInline_inner : ∀ c ∈ day.inner, IsInline c := by
  intro c hc
  obtain ⟨f, hf, rfl⟩ := List.mem_map.mp hc
  obtain ⟨key, value, rfl, -, hspace⟩ := day.exists_value hf
  exact FieldText.isInline_plain hspace

theorem isDelimiter_inner : ∀ c ∈ day.inner, isDelimiter c = false := by
  intro c hc
  obtain ⟨f, -, rfl⟩ := List.mem_map.mp hc
  exact f.chars_head.1

theorem isInline_body : ∀ c ∈ day.body, IsInline c := by
  intro c hc
  obtain ⟨p, -, rfl⟩ := List.mem_map.mp hc
  exact p.2.isInline_line p.1

/-- The document of a day. -/
def document : Document :=
  .plain day.inner day.body day.isInline_inner day.isDelimiter_inner day.isInline_body

theorem text_document : day.document.text = day.text.toList := by
  have hbody : (String.join
      ((timed day.start day.stints).map fun p => p.2.line p.1 ++ "\n")).toList =
      day.body.flatMap fed := by
    rw [String.toList_join, body, List.flatMap_map, List.flatMap_map]
    exact List.flatMap_congr fun p _ => String.toList_append
  have hopen : "---\ndate: ".toList =
      fed Document.bar ++ (FieldKey.date.name.toList ++ [':', ' ']) := rfl
  have hstart : "\nstart: ".toList = '\n' :: (FieldKey.start.name.toList ++ [':', ' ']) := rfl
  have hstop : "\nend: ".toList = '\n' :: (FieldKey.stop.name.toList ++ [':', ' ']) := rfl
  have hclose : "\n---\n".toList = '\n' :: fed Document.bar := rfl
  rw [document, Document.text_plain]
  -- the equation of a definition with long string literals is slow to make, so it is not used
  delta text
  simp only [String.toList_append, hbody, hopen, hstart, hstop, hclose, inner, fieldTexts, fed,
    FieldText.chars, FieldText.plain, List.map_cons, List.map_nil, List.flatMap_cons,
    List.flatMap_nil, List.append_assoc, List.cons_append, List.nil_append, List.append_nil]

theorem minutes_lt {s : Stint} (h : s ∈ day.stints) : s.minutes < 2 ^ 38 := by
  have hle := le_total h
  have hcalendar := day.inCalendar
  unfold lastDayNumber at hcalendar
  omega

/-- The fields of a day are its date, its start and its end, and none of them has a fault. -/
theorem exists_frontMatter : day.document.blockLines.filterMap BlockLine.fault? = [] ∧
    ∃ s₁ s₂ s₃, day.document.journal.frontMatter =
      ⟨some (.read ⟨day.date, s₁⟩), some ⟨⟨clock day.start⟩, s₂⟩, some ⟨⟨clock day.stop⟩, s₃⟩,
        day.document.blockSpan⟩ := by
  obtain ⟨fields, hread, hall⟩ :=
    exists_fields (fun f (hf : f ∈ day.fieldTexts) => day.isWritten_of_mem hf) 4
  have hblock : day.document.blockLines = fields.map BlockLine.field := by
    rw [Document.blockLines, document, Document.plain]
    exact hread
  rw [fieldTexts] at hall
  obtain ⟨a, _, ⟨ha, hdate⟩, hrest, rfl⟩ := List.forall₂_cons_left_iff.mp hall
  obtain ⟨b, _, ⟨hb, hstart⟩, hlast, rfl⟩ := List.forall₂_cons_left_iff.mp hrest
  obtain ⟨c, _, ⟨hc, hstop⟩, hnil, rfl⟩ := List.forall₂_cons_left_iff.mp hlast
  obtain rfl := List.forall₂_nil_left_iff.mp hnil
  simp only [FieldText.plain, String.ofList_toList] at ha hdate hb hstart hc hstop
  have hparse : Date.parse a.value = .ok day.date := by rw [hdate, Date.parse_toString]
  have hfields : day.document.fields = [a, b, c] := by
    rw [Document.fields, hblock]
    rfl
  constructor
  · rw [hblock]
    simp [BlockLine.fault?, ha, hb, hc, hparse]
  · refine ⟨a.span, b.span, c.span, ?_⟩
    rw [Document.journal, hfields, Block.frontMatter_of_keys ha hb hc, Field.toDate_of_parse hparse,
      Field.toTime, hstart, Field.toTime, hstop]

/-- **The text of a day is read without a fault, as what the day says.** -/
theorem exists_journal : (Reading.ofText day.text.toList).faults = [] ∧
    ∃ j, (Reading.ofText day.text.toList).journal = some j ∧ day.IsReadAs j := by
  obtain ⟨hfaults, s₁, s₂, s₃, hfront⟩ := day.exists_frontMatter
  obtain ⟨es, hread, hentries⟩ := exists_entries (fun s => day.minutes_lt) day.start
    (4 + (day.inner.flatMap fed).length + 3 + 1)
  have hbody : day.document.bodyLines = es.map fun e => (.entry e, none) := hread
  rw [← day.text_document, Document.journal_ofText, Document.faults_ofText]
  constructor
  · rw [Document.faults, hfaults, hbody, List.nil_append, List.filterMap_map]
    exact List.filterMap_eq_nil_iff.mpr fun e _ => rfl
  · refine ⟨_, rfl, ⟨s₁, by rw [hfront]⟩, ⟨s₂, by rw [hfront]⟩, ⟨s₃, by rw [hfront]⟩, es, ?_,
      hentries⟩
    rw [Document.journal, hbody, List.map_map]
    rfl

end Day

end TimeJournal
