import Mathlib.Data.List.TakeWhile
import TimeJournal.Journal.Body
import TimeJournal.Proofs.Text.Digits

/-! # The grammar of an entry

Which parts an entry can have, said without reading it: `EntryText.IsEntry`. Lines are read by runs
of characters of a class, so what a run takes is settled by its own characters and by the one after
it (`takeWhile_append_stop`).

* `EntryText.readAfterDash_eq_ok_iff`: a line is cut into the parts of an entry exactly if those
  parts make up the line and are as the grammar has them.
* `EntryText.IsEntry.withStart`, `EntryText.IsEntry.withDuration`: another time in place of the
  start time, or a literal with a dot in place of the duration, leaves the other parts as they are;
  in particular no word goes from the codes to the duration or from the duration to the codes. -/

namespace TimeJournal

open Text

/-! ### Runs of characters -/

section Runs

variable {p : Char → Bool} {xs ys : List Char}

theorem takeWhile_append_stop (h : ∀ c ∈ xs, p c = true) (hs : ∀ c ∈ ys.head?, p c = false) :
    (xs ++ ys).takeWhile p = xs := by
  rw [List.takeWhile_append_of_pos h]
  cases ys with
  | nil => simp
  | cons y ys => simp [hs y rfl]

theorem dropWhile_append_stop (h : ∀ c ∈ xs, p c = true) (hs : ∀ c ∈ ys.head?, p c = false) :
    (xs ++ ys).dropWhile p = ys := by
  rw [List.dropWhile_append_of_pos h]
  cases ys with
  | nil => rfl
  | cons y ys => simp [hs y rfl]

/-- What a run leaves does not begin with a character of its class. -/
theorem head?_dropWhile_stop (p : Char → Bool) (s : List Char) :
    ∀ c ∈ (s.dropWhile p).head?, p c = false := by
  intro c hc
  have h := List.head?_dropWhile_not p s
  rw [Option.mem_def.mp hc] at h
  simpa using h

theorem isBlank_of_mem_takeWhile {s : List Char} {c : Char} (h : c ∈ s.takeWhile isBlank) :
    isBlank c = true :=
  List.mem_takeWhile_imp h

end Runs

/-! ### Times -/

/-- Digits, a colon and digits. -/
def IsTime (s : List Char) : Prop :=
  ∃ hour minute, s = hour ++ ':' :: minute ∧ hour ≠ [] ∧ minute ≠ [] ∧
    (∀ c ∈ hour, c.isDigit = true) ∧ ∀ c ∈ minute, c.isDigit = true

theorem takeTime_eq_some_iff {s token rest : List Char} : takeTime s = some (token, rest) ↔
    s = token ++ rest ∧ IsTime token ∧ ∀ c ∈ rest.head?, c.isDigit = false := by
  have hcolon : ∀ r : List Char, ∀ c ∈ (':' :: r).head?, c.isDigit = false := by
    rintro r c hc
    obtain rfl : ':' = c := by simpa using hc
    decide
  constructor
  · intro h
    refine ⟨(takeTime_chars h).symm, ?_⟩
    unfold takeTime at h
    dsimp only at h
    split at h
    · rename_i r hr
      split at h
      · cases h
      · rename_i hne
        obtain ⟨rfl, rfl⟩ := Prod.mk.inj (Option.some.inj h)
        simp only [Bool.or_eq_true, List.isEmpty_iff, not_or] at hne
        refine ⟨⟨_, _, rfl, hne.1, hne.2, fun c => List.mem_takeWhile_imp,
          fun c => List.mem_takeWhile_imp⟩, head?_dropWhile_stop _ _⟩
    · cases h
  · rintro ⟨rfl, ⟨hour, minute, rfl, hhour, hminute, hh, hm⟩, hrest⟩
    unfold takeTime
    rw [List.append_assoc, List.cons_append, takeWhile_append_stop hh (hcolon _),
      dropWhile_append_stop hh (hcolon _)]
    simp only
    rw [takeWhile_append_stop hm hrest, dropWhile_append_stop hm hrest]
    simp [hhour, hminute]

theorem IsTime.exists_digit {s : List Char} (h : IsTime s) :
    ∃ c r, s = c :: r ∧ c.isDigit = true := by
  obtain ⟨hour, minute, rfl, hhour, -, hh, -⟩ := h
  rcases hour with _ | ⟨c, hour⟩
  · exact absurd rfl hhour
  · exact ⟨c, hour ++ ':' :: minute, rfl, hh c List.mem_cons_self⟩

theorem IsTime.ne_nil {s : List Char} (h : IsTime s) : s ≠ [] := by
  obtain ⟨c, r, rfl, -⟩ := h.exists_digit
  exact List.cons_ne_nil c r

/-- A time does not begin with a blank. -/
theorem IsTime.head?_append {s : List Char} (h : IsTime s) (rest : List Char) :
    ∀ c ∈ (s ++ rest).head?, isBlank c = false := by
  obtain ⟨d, r, rfl, hd⟩ := h.exists_digit
  intro c hc
  obtain rfl : d = c := by simpa using hc
  exact isBlank_of_isDigit hd

/-! ### Words -/

/-- The word can stand at the front of a line that goes on with `rest`. -/
structure Word.Fits (w : Word) (rest : List Char) : Prop where
  text_ne_nil : w.text ≠ []
  text_word : ∀ c ∈ w.text, isWordChar c = true
  gap_blank : ∀ c ∈ w.gap, isBlank c = true
  rest_nil : w.gap = [] → rest = []
  rest_word : ∀ c ∈ rest.head?, isBlank c = false

theorem Word.Fits.head?_after {w : Word} {rest : List Char} (h : w.Fits rest) :
    ∀ c ∈ (w.gap ++ rest).head?, isWordChar c = false := by
  intro c hc
  rcases hg : w.gap with _ | ⟨b, bs⟩
  · rw [hg, h.rest_nil hg] at hc
    cases hc
  · rw [hg, List.cons_append, List.head?_cons, Option.mem_def, Option.some.injEq] at hc
    have hb := h.gap_blank b (by rw [hg]; exact List.mem_cons_self)
    rw [← hc, isWordChar, hb]
    rfl

theorem takeWord_eq_some_iff {s rest : List Char} {w : Word} :
    takeWord s = some (w, rest) ↔ s = w.chars ++ rest ∧ w.Fits rest := by
  constructor
  · intro h
    refine ⟨(takeWord_chars h).symm, ?_⟩
    unfold takeWord at h
    dsimp only at h
    split at h
    · cases h
    · rename_i hne
      obtain ⟨rfl, rfl⟩ := Prod.mk.inj (Option.some.inj h)
      refine ⟨by simpa using hne, fun c => List.mem_takeWhile_imp, fun c => List.mem_takeWhile_imp,
        fun hgap => ?_, head?_dropWhile_stop _ _⟩
      -- without a blank after the word the line has ended: the word stops at blanks only
      have hstop := head?_dropWhile_stop isWordChar s
      rcases hd : s.dropWhile isWordChar with _ | ⟨c, r⟩
      · rfl
      · have hc : isWordChar c = false := hstop c (by rw [hd]; rfl)
        have hb : isBlank c = true := by simpa [isWordChar] using hc
        simp [hd, hb] at hgap
  · rintro ⟨rfl, h⟩
    have hafter := h.head?_after
    unfold takeWord Word.chars
    dsimp only
    rw [List.append_assoc, takeWhile_append_stop h.text_word hafter,
      dropWhile_append_stop h.text_word hafter, takeWhile_append_stop h.gap_blank h.rest_word,
      dropWhile_append_stop h.gap_blank h.rest_word]
    simp [h.text_ne_nil]

/-- A word fits in front of another rest that begins with no blank, if there is a rest. -/
theorem Word.Fits.of_ne_nil {w : Word} {rest rest' : List Char} (h : w.Fits rest) (hne : rest ≠ [])
    (hrest : ∀ c ∈ rest'.head?, isBlank c = false) : w.Fits rest' where
  text_ne_nil := h.text_ne_nil
  text_word := h.text_word
  gap_blank := h.gap_blank
  rest_nil hg := absurd (h.rest_nil hg) hne
  rest_word := hrest

theorem Word.Fits.head?_chars {w : Word} {rest : List Char} (h : w.Fits rest) (more : List Char) :
    ∀ c ∈ (w.chars ++ more).head?, isBlank c = false := by
  intro c hc
  rcases ht : w.text with _ | ⟨d, ds⟩
  · exact absurd ht h.text_ne_nil
  · have hd := h.text_word d (by rw [ht]; exact List.mem_cons_self)
    rw [Word.chars, ht, List.cons_append, List.cons_append, List.head?_cons, Option.mem_def,
      Option.some.injEq] at hc
    simpa [isWordChar, hc] using hd

/-! ### Literals -/

/-- The characters of a literal belong to a word. -/
theorem isWordChar_of_isLiteralChar {c : Char} (h : Hours.isLiteralChar c = true) :
    isWordChar c = true := by
  rw [Hours.isLiteralChar, Bool.or_eq_true, beq_iff_eq] at h
  rcases h with h | rfl
  · rw [isWordChar, isBlank_of_isDigit h]; rfl
  · decide

theorem Hours.isShaped_of_isDecimal {s : List Char} (h : Hours.isDecimal s = true) :
    Hours.isShaped s = true := by
  rw [Hours.isDecimal, Bool.and_eq_true] at h
  exact h.2

theorem Hours.isShaped_iff {s : List Char} :
    Hours.isShaped s = true ↔ s ≠ [] ∧ ∀ c ∈ s, Hours.isLiteralChar c = true := by
  simp [Hours.isShaped]

theorem Word.Fits.withLiteral {w : Word} {rest literal : List Char} (h : w.Fits rest)
    (hl : Hours.isShaped literal = true) : ({ w with text := literal } : Word).Fits rest where
  text_ne_nil := (Hours.isShaped_iff.mp hl).1
  text_word c hc := isWordChar_of_isLiteralChar ((Hours.isShaped_iff.mp hl).2 c hc)
  gap_blank := h.gap_blank
  rest_nil := h.rest_nil
  rest_word := h.rest_word

/-! ### Codes and duration -/

theorem takeCodes_direct {n : ℕ} {s rest : List Char} {w : Word} (hw : takeWord s = some (w, rest))
    (hd : Hours.isDecimal w.text = true) : takeCodes n s = some ([], w, rest) := by
  have hs := Hours.isShaped_of_isDecimal hd
  cases n with
  | zero => rw [takeCodes, hw]; simp [hs]
  | succ n => rw [takeCodes, hw]; simp [hs, hd]

theorem takeCodes_succ {n : ℕ} {s rest activity : List Char} {w duration : Word} {codes : List Word}
    (hw : takeWord s = some (w, rest)) (hd : Hours.isDecimal w.text = false)
    (hc : takeCodes n rest = some (codes, duration, activity)) :
    takeCodes (n + 1) s = some (w :: codes, duration, activity) := by
  rw [takeCodes, hw]
  simp [hd, hc]

/-- Codes begin with a word, and either it is the duration or the other codes follow it. -/
theorem takeCodes_cases {n : ℕ} {s activity : List Char} {duration : Word} {codes : List Word}
    (h : takeCodes n s = some (codes, duration, activity)) :
    (codes = [] ∧ takeWord s = some (duration, activity)) ∨
      ∃ k w ws rest, n = k + 1 ∧ codes = w :: ws ∧ takeWord s = some (w, rest) ∧
        Hours.isDecimal w.text = false ∧ takeCodes k rest = some (ws, duration, activity) := by
  rcases hw : takeWord s with _ | ⟨w, rest⟩
  · cases n <;> simp [takeCodes, hw] at h
  have direct : (if Hours.isShaped w.text then some (([] : List Word), w, rest) else none) =
      some (codes, duration, activity) → codes = [] ∧ some (w, rest) = some (duration, activity) := by
    intro h'
    simp only [Option.ite_none_right_eq_some, Option.some.injEq, Prod.mk.injEq] at h'
    obtain ⟨-, rfl, rfl, rfl⟩ := h'
    exact ⟨rfl, rfl⟩
  rcases n with _ | k
  · rw [takeCodes, hw] at h
    exact Or.inl (direct h)
  rw [takeCodes, hw] at h
  by_cases hd : Hours.isDecimal w.text = true
  · simp only [hd, if_true] at h
    exact Or.inl (direct h)
  rw [Bool.not_eq_true] at hd
  rcases hc : takeCodes k rest with _ | ⟨ws, d, a⟩
  · simp only [hd, hc] at h
    exact Or.inl (direct h)
  · simp only [hd, hc] at h
    obtain ⟨rfl, rfl, rfl⟩ := h
    exact Or.inr ⟨k, w, ws, rest, rfl, rfl, rfl, hd, hc⟩

/-- What codes and a duration stand in does not begin with a blank. -/
theorem head?_of_takeCodes {n : ℕ} {s activity : List Char} {duration : Word} {codes : List Word}
    (h : takeCodes n s = some (codes, duration, activity)) :
    s ≠ [] ∧ ∀ c ∈ s.head?, isBlank c = false := by
  have hword : ∀ {w : Word} {rest : List Char}, takeWord s = some (w, rest) →
      s ≠ [] ∧ ∀ c ∈ s.head?, isBlank c = false := by
    intro w rest hw
    obtain ⟨rfl, hf⟩ := takeWord_eq_some_iff.mp hw
    refine ⟨fun hn => ?_, hf.head?_chars rest⟩
    rw [Word.chars, List.append_assoc] at hn
    exact hf.text_ne_nil (List.append_eq_nil_iff.mp hn).1
  rcases takeCodes_cases h with ⟨-, hw⟩ | ⟨k, w, ws, rest, -, -, hw, -, -⟩
  · exact hword hw
  · exact hword hw

/-- The duration stands in front of the activity. -/
theorem fits_of_takeCodes {n : ℕ} {s activity : List Char} {duration : Word} {codes : List Word}
    (h : takeCodes n s = some (codes, duration, activity)) : duration.Fits activity := by
  induction codes generalizing n s with
  | nil =>
    rcases takeCodes_cases h with ⟨-, hw⟩ | ⟨k, w, ws, rest, -, hnil, -⟩
    · exact (takeWord_eq_some_iff.mp hw).2
    · cases hnil
  | cons code codes ih =>
    rcases takeCodes_cases h with ⟨hnil, -⟩ | ⟨k, w, ws, rest, -, heq, -, -, hc⟩
    · cases hnil
    · obtain ⟨rfl, rfl⟩ := List.cons.inj heq
      exact ih hc

/-- **A literal with a dot in place of the duration moves no word between the codes and the
duration.** -/
theorem takeCodes_withLiteral {n : ℕ} {s activity literal : List Char} {duration : Word}
    {codes : List Word} (h : takeCodes n s = some (codes, duration, activity))
    (hl : Hours.isDecimal literal = true) :
    takeCodes n (codes.flatMap Word.chars ++ (literal ++ duration.gap) ++ activity) =
      some (codes, { duration with text := literal }, activity) := by
  induction codes generalizing n s with
  | nil =>
    rcases takeCodes_cases h with ⟨-, hw⟩ | ⟨k, w, ws, rest, -, hnil, -⟩
    · obtain ⟨-, hf⟩ := takeWord_eq_some_iff.mp hw
      have hf' := hf.withLiteral (Hours.isShaped_of_isDecimal hl)
      exact takeCodes_direct (takeWord_eq_some_iff.mpr ⟨rfl, hf'⟩) hl
    · cases hnil
  | cons code codes ih =>
    rcases takeCodes_cases h with ⟨hnil, -⟩ | ⟨k, w, ws, rest, rfl, heq, hw, hd, hc⟩
    · cases hnil
    obtain ⟨rfl, rfl⟩ := List.cons.inj heq
    obtain ⟨-, hf⟩ := takeWord_eq_some_iff.mp hw
    have hrest := ih hc
    have hfit := hf.of_ne_nil (head?_of_takeCodes hc).1 (head?_of_takeCodes hrest).2
    refine takeCodes_succ (takeWord_eq_some_iff.mpr ⟨?_, hfit⟩) hd hrest
    simp only [List.flatMap_cons, List.append_assoc]

/-! ### Entries -/

namespace EntryText

/-- The parts are those of an entry. -/
structure IsEntry (t : EntryText) : Prop where
  lead_ne_nil : t.lead ≠ []
  lead_blank : ∀ c ∈ t.lead, isBlank c = true
  start_isTime : IsTime t.start
  stop_isTime : IsTime t.stop
  gap_ne_nil : t.gap ≠ []
  gap_blank : ∀ c ∈ t.gap, isBlank c = true
  codes_fit : takeCodes maxCodes (t.codes.flatMap Word.chars ++ t.duration.chars ++ t.activity) =
    some (t.codes, t.duration, t.activity)

/-- The characters of an entry after its dash. -/
def rest (t : EntryText) : List Char :=
  t.lead ++ (t.start ++ '-' :: (t.stop ++ (t.gap ++
    (t.codes.flatMap Word.chars ++ t.duration.chars ++ t.activity))))

theorem chars_eq (t : EntryText) : t.chars = '-' :: t.rest := by
  simp only [chars, rest, List.append_assoc]

theorem isEntry_of_readAfterDash {start : ℕ} {s : List Char} {t : EntryText}
    (h : readAfterDash start s = .ok t) : t.IsEntry := by
  unfold readAfterDash at h
  dsimp only at h
  split at h
  · cases h
  rename_i hlead
  split at h
  · cases h
  rename_i first s₂ hfirst
  split at h
  · rename_i s₃
    split at h
    · cases h
    rename_i last s₄ hlast
    split at h
    · cases h
    rename_i hgap
    split at h
    · cases h
    rename_i codes duration activity hcodes
    obtain rfl := (Except.ok.inj h).symm
    refine ⟨by simpa using hlead, fun c => isBlank_of_mem_takeWhile,
      (takeTime_eq_some_iff.mp hfirst).2.1, (takeTime_eq_some_iff.mp hlast).2.1,
      by simpa using hgap, fun c => isBlank_of_mem_takeWhile, ?_⟩
    dsimp only
    rw [takeCodes_chars hcodes, hcodes]
  · cases h

theorem IsEntry.readAfterDash {t : EntryText} (h : t.IsEntry) (start : ℕ) :
    readAfterDash start t.rest = .ok t := by
  have hdash : ∀ r : List Char, ∀ c ∈ ('-' :: r).head?, c.isDigit = false := by
    rintro r c hc
    obtain rfl : '-' = c := by simpa using hc
    decide
  have hgap : ∀ r : List Char, ∀ c ∈ (t.gap ++ r).head?, c.isDigit = false := by
    intro r c hc
    rcases hg : t.gap with _ | ⟨b, bs⟩
    · exact absurd hg h.gap_ne_nil
    · rw [hg, List.cons_append, List.head?_cons, Option.mem_def, Option.some.injEq] at hc
      have hb := h.gap_blank b (by rw [hg]; exact List.mem_cons_self)
      rw [hc] at hb
      by_contra hd
      rw [isBlank_of_isDigit (by simpa using hd)] at hb
      cases hb
  have hstart := takeTime_eq_some_iff.mpr ⟨rfl, h.start_isTime, hdash (t.stop ++ (t.gap ++
    (t.codes.flatMap Word.chars ++ t.duration.chars ++ t.activity)))⟩
  have hstop := takeTime_eq_some_iff.mpr ⟨rfl, h.stop_isTime, hgap
    (t.codes.flatMap Word.chars ++ t.duration.chars ++ t.activity)⟩
  have hcodes := (head?_of_takeCodes h.codes_fit).2
  unfold EntryText.readAfterDash rest
  dsimp only
  rw [takeWhile_append_stop h.lead_blank (h.start_isTime.head?_append _),
    dropWhile_append_stop h.lead_blank (h.start_isTime.head?_append _),
    if_neg (by simpa using h.lead_ne_nil), hstart]
  simp only [hstop]
  rw [takeWhile_append_stop h.gap_blank hcodes, dropWhile_append_stop h.gap_blank hcodes,
    if_neg (by simpa using h.gap_ne_nil), h.codes_fit]

/-- **A line is cut into the parts of an entry exactly if they make it up and follow the
grammar.** -/
theorem readAfterDash_eq_ok_iff {start : ℕ} {s : List Char} {t : EntryText} :
    readAfterDash start s = .ok t ↔ t.chars = '-' :: s ∧ t.IsEntry := by
  constructor
  · intro h
    exact ⟨chars_of_readAfterDash h, isEntry_of_readAfterDash h⟩
  · rintro ⟨hs, h⟩
    rw [chars_eq] at hs
    rw [← (List.cons.inj hs).2]
    exact h.readAfterDash start

/-! ### Other parts in place of those of an entry -/

/-- An entry with another start time. -/
def withStart (t : EntryText) (token : List Char) : EntryText := { t with start := token }

/-- An entry with another duration, in front of the same blanks. -/
def withDuration (t : EntryText) (literal : List Char) : EntryText :=
  { t with duration := ⟨literal, t.duration.gap⟩ }

theorem IsEntry.withStart {t : EntryText} (h : t.IsEntry) {token : List Char} (ht : IsTime token) :
    (t.withStart token).IsEntry where
  lead_ne_nil := h.lead_ne_nil
  lead_blank := h.lead_blank
  start_isTime := ht
  stop_isTime := h.stop_isTime
  gap_ne_nil := h.gap_ne_nil
  gap_blank := h.gap_blank
  codes_fit := h.codes_fit

theorem IsEntry.withDuration {t : EntryText} (h : t.IsEntry) {literal : List Char}
    (hl : Hours.isDecimal literal = true) : (t.withDuration literal).IsEntry where
  lead_ne_nil := h.lead_ne_nil
  lead_blank := h.lead_blank
  start_isTime := h.start_isTime
  stop_isTime := h.stop_isTime
  gap_ne_nil := h.gap_ne_nil
  gap_blank := h.gap_blank
  codes_fit := by
    have hcodes := takeCodes_withLiteral h.codes_fit hl
    exact hcodes

/-! ### Lines -/

theorem IsEntry.looksLikeEntry {t : EntryText} (h : t.IsEntry) : looksLikeEntry t.chars = true := by
  rcases hl : t.lead with _ | ⟨b, bs⟩
  · exact absurd hl h.lead_ne_nil
  have hb := h.lead_blank b (by rw [hl]; exact List.mem_cons_self)
  have hbs : ∀ c ∈ bs, isBlank c = true := fun c hc =>
    h.lead_blank c (by rw [hl]; exact List.mem_cons_of_mem _ hc)
  obtain ⟨d, r, hstart, hd⟩ := h.start_isTime.exists_digit
  rw [chars_eq, rest, hl, List.cons_append]
  unfold TimeJournal.looksLikeEntry
  simp only
  rw [hb, dropWhile_append_stop hbs (h.start_isTime.head?_append _), hstart]
  exact hd

/-- A line that is made up of the parts of an entry is read as that entry. -/
theorem IsEntry.read {t : EntryText} (h : t.IsEntry) (start : ℕ) :
    BodyLine.read start t.chars = (.entry (t.toEntry start).1, (t.toEntry start).2) := by
  unfold BodyLine.read
  rw [if_pos h.looksLikeEntry, chars_eq, List.drop_succ_cons, List.drop_zero, h.readAfterDash start]

end EntryText

/-- A line that is read as an entry is made up of the parts of one. -/
theorem BodyLine.exists_entryText {start : ℕ} {content : List Char} {e : Entry}
    (h : (BodyLine.read start content).1 = .entry e) :
    ∃ t : EntryText, t.IsEntry ∧ t.chars = content ∧ (t.toEntry start).1 = e := by
  unfold BodyLine.read at h
  by_cases hl : looksLikeEntry content = true
  · obtain ⟨r, rfl⟩ : ∃ r, content = '-' :: r := by
      unfold looksLikeEntry at hl
      split at hl
      · exact ⟨_, rfl⟩
      · cases hl
    rw [if_pos hl, List.drop_succ_cons, List.drop_zero] at h
    rcases hr : EntryText.readAfterDash start r with fault | t
    · rw [hr] at h; cases h
    · rw [hr] at h
      obtain ⟨hchars, ht⟩ := EntryText.readAfterDash_eq_ok_iff.mp hr
      exact ⟨t, ht, hchars, BodyLine.entry.inj h⟩
  · rw [if_neg hl] at h
    cases h

end TimeJournal
