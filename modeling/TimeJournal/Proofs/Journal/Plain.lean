import TimeJournal.Proofs.Journal.Classification
import TimeJournal.Proofs.Journal.Document
import TimeJournal.Proofs.Journal.FieldValue

/-! # Plain lines

Lines as a program would write them: one blank behind each word, one behind the colon of a field,
and a line feed behind each line. What they are read as is settled by the parts that they are put
together from.

* `takeCodes_plain`: plain codes and a plain duration are told apart if no code has the form of a
  duration with a dot.
* `EntryText.isEntry_plain`, `FieldText.isWritten_plain`: when plain parts are those of an entry or
  of a field.
* `Document.plain`: the document with given contents of its lines, and `Document.text_plain` its
  text. -/

namespace TimeJournal

open Text

/-! ### Words -/

/-- A word with one blank behind it. -/
def Word.plain (text : List Char) : Word := ⟨text, [' ']⟩

theorem Word.fits_plain {text rest : List Char} (hne : text ≠ [])
    (hword : ∀ c ∈ text, isWordChar c = true) (hrest : ∀ c ∈ rest.head?, isBlank c = false) :
    (plain text).Fits rest where
  text_ne_nil := hne
  text_word := hword
  gap_blank c hc := by rw [List.mem_singleton.mp hc]; decide
  rest_nil h := absurd h (List.cons_ne_nil _ _)
  rest_word := hrest

theorem Word.map_text_plain (texts : List (List Char)) :
    (texts.map plain).map text = texts := by
  rw [List.map_map]
  exact List.map_id texts

/-- The characters are those of a code that is not taken for a duration, wherever it stands. -/
structure IsCode (code : List Char) : Prop where
  ne_nil : code ≠ []
  noSpace : ∀ c ∈ code, isSpace c = false
  notDecimal : Hours.isDecimal code = false

theorem isCode_iff {code : List Char} : IsCode code ↔
    code ≠ [] ∧ code.any isSpace = false ∧ Hours.isDecimal code = false := by
  simp only [List.any_eq_false, Bool.not_eq_true]
  exact ⟨fun h => ⟨h.ne_nil, h.noSpace, h.notDecimal⟩, fun h => ⟨h.1, h.2.1, h.2.2⟩⟩

instance : DecidablePred IsCode := fun _ => decidable_of_iff' _ isCode_iff

theorem isWordChar_of_isSpace {c : Char} (h : isSpace c = false) : isWordChar c = true := by
  rw [isWordChar, isBlank, h]
  rfl

theorem isSpace_of_isLiteralChar {c : Char} (h : Hours.isLiteralChar c = true) :
    isSpace c = false := by
  rw [Hours.isLiteralChar, Bool.or_eq_true, beq_iff_eq] at h
  rcases h with h | rfl
  · exact isSpace_of_isDigit h
  · decide

/-- **Plain codes and a duration are told apart.** -/
theorem takeCodes_plain {most : ℕ} {codes : List (List Char)} {literal activity : List Char}
    (hmost : codes.length ≤ most) (hcodes : ∀ code ∈ codes, IsCode code)
    (hliteral : Hours.isDecimal literal = true)
    (hactivity : ∀ c ∈ activity.head?, isBlank c = false) :
    takeCodes most ((codes.map Word.plain).flatMap Word.chars ++ (Word.plain literal).chars ++
      activity) = some (codes.map Word.plain, Word.plain literal, activity) := by
  induction codes generalizing most with
  | nil =>
    obtain ⟨hne, hchars⟩ := Hours.isShaped_iff.mp (Hours.isShaped_of_isDecimal hliteral)
    have hfits := Word.fits_plain hne (fun c hc => isWordChar_of_isLiteralChar (hchars c hc))
      hactivity
    exact takeCodes_direct (takeWord_eq_some_iff.mpr ⟨rfl, hfits⟩) hliteral
  | cons code codes ih =>
    obtain ⟨n, rfl⟩ : ∃ n, most = n + 1 := Nat.exists_eq_succ_of_ne_zero (by
      rw [List.length_cons] at hmost
      omega)
    -- what follows the code is cut already, so it does not begin with a blank and the code fits
    have hrest := ih (Nat.le_of_succ_le_succ hmost) fun c hc => hcodes c (List.mem_cons_of_mem _ hc)
    have hcode := hcodes code List.mem_cons_self
    have hfits := Word.fits_plain hcode.ne_nil
      (fun c hc => isWordChar_of_isSpace (hcode.noSpace c hc)) (head?_of_takeCodes hrest).2
    rw [List.map_cons]
    refine takeCodes_succ (takeWord_eq_some_iff.mpr ⟨?_, hfits⟩) hcode.notDecimal hrest
    simp only [List.flatMap_cons, List.append_assoc]

/-! ### Entries and fields -/

/-- An entry with single blanks between its parts. -/
def EntryText.plain (start stop : List Char) (codes : List (List Char))
    (literal activity : List Char) : EntryText :=
  ⟨[' '], start, stop, [' '], codes.map Word.plain, Word.plain literal, activity⟩

theorem EntryText.isEntry_plain {start stop literal activity : List Char}
    {codes : List (List Char)} (hstart : IsTime start) (hstop : IsTime stop)
    (hmost : codes.length ≤ maxCodes) (hcodes : ∀ code ∈ codes, IsCode code)
    (hliteral : Hours.isDecimal literal = true)
    (hactivity : ∀ c ∈ activity.head?, isBlank c = false) :
    (plain start stop codes literal activity).IsEntry where
  lead_ne_nil := List.cons_ne_nil _ _
  lead_blank c hc := by rw [List.mem_singleton.mp hc]; decide
  start_isTime := hstart
  stop_isTime := hstop
  gap_ne_nil := List.cons_ne_nil _ _
  gap_blank c hc := by rw [List.mem_singleton.mp hc]; decide
  codes_fit := takeCodes_plain hmost hcodes hliteral hactivity

/-- A literal that is a number is read as the duration that it writes, without a fault. -/
theorem EntryText.duration_toEntry {t : EntryText} {seconds : ℕ}
    (h : Hours.seconds? t.duration.text = some seconds) (start : ℕ) : ∃ span,
      (t.toEntry start).1.duration = .read ⟨seconds, String.ofList t.duration.text, span⟩ ∧
      (t.toEntry start).2 = none := by
  unfold toEntry readDuration
  rw [h]
  exact ⟨_, rfl, rfl⟩

/-- **A plain entry is read as its parts**, if they are those of an entry. -/
theorem EntryText.exists_read_plain {start stop literal activity : String} {codes : List String}
    {seconds : ℕ} (h : (plain start.toList stop.toList (codes.map String.toList) literal.toList
      activity.toList).IsEntry) (hs : Hours.seconds? literal.toList = some seconds) (place : ℕ) :
    ∃ e span, BodyLine.read place (plain start.toList stop.toList (codes.map String.toList)
        literal.toList activity.toList).chars = (.entry e, none) ∧
      e.start.value = ⟨start⟩ ∧ e.stop.value = ⟨stop⟩ ∧ e.codes.map Located.value = codes ∧
      e.duration = .read ⟨seconds, literal, span⟩ ∧ e.activity.value = activity := by
  obtain ⟨span, hduration, hfault⟩ := duration_toEntry (t := plain start.toList stop.toList
    (codes.map String.toList) literal.toList activity.toList) hs place
  have hparts := hasParts_toEntry (plain start.toList stop.toList (codes.map String.toList)
    literal.toList activity.toList) place
  refine ⟨_, span, by rw [h.read, hfault], ?_, ?_, ?_, ?_, ?_⟩
  · exact TimeToken.ext (String.toList_inj.mp hparts.start)
  · exact TimeToken.ext (String.toList_inj.mp hparts.stop)
  · have hcodes := hparts.codes.trans (Word.map_text_plain _)
    rw [← Function.comp_def, ← List.map_map] at hcodes
    exact List.map_injective_iff.mpr (fun _ _ => String.toList_inj.mp) hcodes
  · rw [hduration, plain, Word.plain, String.ofList_toList]
  · exact String.toList_inj.mp hparts.activity

/-- A field with one blank behind its colon. -/
def FieldText.plain (key : FieldKey) (value : List Char) : FieldText := ⟨key, [], [' '], value, []⟩

theorem FieldText.isWritten_plain {key : FieldKey} {value : List Char} (hne : value ≠ [])
    (hspace : ∀ c ∈ value, isSpace c = false) : (plain key value).IsWritten where
  beforeColon_blank c hc := nomatch hc
  afterColon_blank c hc := by rw [List.mem_singleton.mp hc]; decide
  value_head := by
    obtain ⟨d, r, rfl⟩ := List.exists_cons_of_ne_nil hne
    intro c hc
    obtain rfl : d = c := by simpa [plain] using hc
    rw [isBlank, hspace d List.mem_cons_self, Bool.false_and, Bool.false_and]
  value_last c hc := hspace c (List.mem_of_getLast? hc)
  trail_space c hc := nomatch hc

/-- A field line is read as its key and its value. -/
theorem BlockLine.read_of_isWritten {l : Line} {f : FieldText} (hl : l.content = f.chars)
    (h : f.IsWritten) : read l = .field ⟨f.key, String.ofList f.value,
      Span.ofLength (l.start + f.valueOffset) f.value.length, l.start⟩ := by
  unfold read
  rw [hl, if_neg (by rw [f.chars_head.2]; decide), h.read]

/-! ### Contents -/

/-- A content without a line feed or a carriage return. -/
def IsInline (content : List Char) : Prop := ∀ c ∈ content, c ≠ '\n' ∧ c ≠ '\r'

instance : DecidablePred IsInline := List.decidableBAll fun c => c ≠ '\n' ∧ c ≠ '\r'

theorem isInline_append {a b : List Char} : IsInline (a ++ b) ↔ IsInline a ∧ IsInline b :=
  List.forall_mem_append

theorem isInline_cons {c : Char} {s : List Char} :
    IsInline (c :: s) ↔ (c ≠ '\n' ∧ c ≠ '\r') ∧ IsInline s :=
  List.forall_mem_cons

theorem isInline_of_isSpace {s : List Char} (h : ∀ c ∈ s, isSpace c = false) : IsInline s := by
  intro c hc
  have hspace := h c hc
  constructor
  · rintro rfl
    exact absurd hspace (by decide)
  · rintro rfl
    exact absurd hspace (by decide)

theorem isInline_blank : IsInline [' '] := by decide

theorem Word.isInline_plain {text : List Char} (h : IsInline text) : IsInline (plain text).chars :=
  isInline_append.mpr ⟨h, isInline_blank⟩

theorem EntryText.isInline_plain {start stop literal activity : List Char}
    {codes : List (List Char)} (hstart : IsInline start) (hstop : IsInline stop)
    (hcodes : ∀ code ∈ codes, IsInline code) (hliteral : IsInline literal)
    (hactivity : IsInline activity) :
    IsInline (plain start stop codes literal activity).chars := by
  have hdash : '-' ≠ '\n' ∧ '-' ≠ '\r' := by decide
  have hwords : IsInline ((codes.map Word.plain).flatMap Word.chars) := by
    intro c hc
    obtain ⟨w, hw, hc⟩ := List.mem_flatMap.mp hc
    obtain ⟨code, hcode, rfl⟩ := List.mem_map.mp hw
    exact Word.isInline_plain (hcodes code hcode) c hc
  have hblank := isInline_cons.mp isInline_blank
  simp only [chars, plain, isInline_append, isInline_cons]
  exact ⟨hdash, ⟨hblank, hstart⟩, hdash, ⟨⟨⟨hstop, hblank⟩, hwords⟩, Word.isInline_plain hliteral⟩,
    hactivity⟩

theorem FieldText.isInline_plain {key : FieldKey} {value : List Char}
    (hspace : ∀ c ∈ value, isSpace c = false) : IsInline (plain key value).chars := by
  have hname : IsInline key.name.toList := by cases key <;> decide
  simp only [chars, plain, List.append_nil, isInline_append, isInline_cons]
  exact ⟨hname, by decide, isInline_cons.mp isInline_blank, isInline_of_isSpace hspace⟩

/-! ### Lines -/

/-- A content with a line feed behind it. -/
def fed (content : List Char) : List Char := content ++ ['\n']

/-- The lines with these contents, the first of which begins at `start`. -/
def feedLines : ℕ → List (List Char) → List Line
  | _, [] => []
  | start, content :: contents =>
    ⟨start, content, .lf⟩ :: feedLines (start + content.length + 1) contents

theorem flatMap_chars_feedLines (start : ℕ) (contents : List (List Char)) :
    (feedLines start contents).flatMap Line.chars = contents.flatMap fed := by
  induction contents generalizing start with
  | nil => rfl
  | cons content contents ih => rw [feedLines, List.flatMap_cons, List.flatMap_cons, ih]; rfl

theorem feedLines_append (start : ℕ) (contents more : List (List Char)) :
    feedLines start (contents ++ more) =
      feedLines start contents ++ feedLines (start + (contents.flatMap fed).length) more := by
  induction contents generalizing start with
  | nil => rfl
  | cons content contents ih =>
    rw [List.cons_append, feedLines, feedLines, ih, List.flatMap_cons, List.length_append, fed,
      List.length_append, List.length_singleton, List.cons_append, Nat.add_assoc start,
      Nat.add_assoc start]

theorem isCut_feedLines {contents : List (List Char)} (h : ∀ content ∈ contents, IsInline content)
    (start : ℕ) : IsCut start (feedLines start contents) := by
  induction contents generalizing start with
  | nil => trivial
  | cons content contents ih =>
    have hcontent := h content List.mem_cons_self
    refine ⟨rfl, ⟨fun hc => (hcontent _ hc).1 rfl, fun _ hc => ?_, nofun⟩, False.elim, ?_⟩
    · exact (hcontent _ (List.mem_of_getLast? hc)).2 rfl
    · rw [Line.chars, List.length_append, ← Nat.add_assoc]
      exact ih (fun c hc => h c (List.mem_cons_of_mem content hc)) _

theorem mem_of_mem_feedLines {start : ℕ} {contents : List (List Char)} {l : Line}
    (h : l ∈ feedLines start contents) : l.content ∈ contents := by
  induction contents generalizing start with
  | nil => cases h
  | cons content contents ih =>
    rcases List.mem_cons.mp h with rfl | h
    · exact List.mem_cons_self
    · exact List.mem_cons_of_mem content (ih h)

/-- Field lines are read as their keys and their values. -/
theorem exists_fields {fs : List FieldText} (h : ∀ f ∈ fs, f.IsWritten) (start : ℕ) :
    ∃ fields, (feedLines start (fs.map FieldText.chars)).map BlockLine.read =
        fields.map BlockLine.field ∧
      List.Forall₂ (fun t f => f.key = t.key ∧ f.value = String.ofList t.value) fs fields := by
  induction fs generalizing start with
  | nil => exact ⟨[], rfl, .nil⟩
  | cons f fs ih =>
    obtain ⟨fields, hread, hall⟩ := ih (fun g hg => h g (List.mem_cons_of_mem f hg))
      (start + f.chars.length + 1)
    have hfield := BlockLine.read_of_isWritten (l := ⟨start, f.chars, .lf⟩) rfl
      (h f List.mem_cons_self)
    refine ⟨⟨f.key, String.ofList f.value, Span.ofLength (start + f.valueOffset) f.value.length,
      start⟩ :: fields, ?_, .cons ⟨rfl, rfl⟩ hall⟩
    rw [List.map_cons, feedLines, List.map_cons, hfield, hread, List.map_cons]

/-! ### Documents -/

namespace Document

/-- The line around a front matter. -/
def bar : List Char := "---".toList

theorem isInline_bar : IsInline bar := by decide

theorem isDelimiter_bar : isDelimiter bar = true := by decide

/-- The document with these contents of its front matter and of its body. -/
def plain (inner body : List (List Char)) (hinner : ∀ c ∈ inner, IsInline c)
    (hwithin : ∀ c ∈ inner, isDelimiter c = false) (hbody : ∀ c ∈ body, IsInline c) :
    Document where
  marked := false
  opening := ⟨0, bar, .lf⟩
  inner := feedLines 4 inner
  closing := ⟨4 + (inner.flatMap fed).length, bar, .lf⟩
  body := feedLines (4 + (inner.flatMap fed).length + 3 + 1) body
  cut := by
    have hall : ∀ c ∈ bar :: (inner ++ bar :: body), IsInline c := by
      intro c hc
      simp only [List.mem_cons, List.mem_append] at hc
      rcases hc with rfl | hc | rfl | hc
      · exact isInline_bar
      · exact hinner c hc
      · exact isInline_bar
      · exact hbody c hc
    have hcut := isCut_feedLines hall 0
    rw [feedLines, feedLines_append] at hcut
    exact hcut
  opens := isDelimiter_bar
  within l hl := hwithin l.content (mem_of_mem_feedLines hl)
  closes := isDelimiter_bar

theorem text_plain {inner body : List (List Char)} (hinner : ∀ c ∈ inner, IsInline c)
    (hwithin : ∀ c ∈ inner, isDelimiter c = false) (hbody : ∀ c ∈ body, IsInline c) :
    (plain inner body hinner hwithin hbody).text =
      fed bar ++ inner.flatMap fed ++ fed bar ++ body.flatMap fed := by
  show [] ++ ((⟨0, bar, .lf⟩ :: (feedLines _ inner ++ ⟨_, bar, .lf⟩ :: feedLines _ body) :
    List Line).flatMap Line.chars) = _
  rw [List.nil_append, List.flatMap_cons, List.flatMap_append, List.flatMap_cons,
    flatMap_chars_feedLines, flatMap_chars_feedLines, List.append_assoc, List.append_assoc]
  rfl

end Document

end TimeJournal
