import Mathlib.Data.List.Basic
import Mathlib.Tactic.ByContra
import TimeJournal.Proofs.Journal.Grammar
import TimeJournal.Proofs.Journal.Stepping

/-! # What a line of the body is

The grammar of a line, said without reading it. `EntryText.IsWritten` is the form of an entry, in
which the words behind the times can be codes and a duration in more than one way (`IsSplit`); the
reader takes the way with the most codes.

* `isSplit_of_takeCodes`, `exists_takeCodes`: the reader finds a split if there is one, and none has
  more codes.
* `EntryText.isEntry_iff`: the parts that a line is cut into are in the form of an entry, and no
  other parts of the line in that form have more codes.
* `Entry.HasParts`: the values of an entry are the parts of its line.
* `Context.line_isClassified`: a line is an entry, junk or neither exactly as the grammar has it. -/

namespace TimeJournal

open Text

/-! ### Codes and duration -/

/-- The text begins with the words, each with the blanks behind it, and goes on with the rest. -/
def StartsWith : List Word → List Char → List Char → Prop
  | [], s, rest => s = rest
  | w :: ws, s, rest => ∃ more, s = w.chars ++ more ∧ w.Fits more ∧ StartsWith ws more rest

theorem StartsWith.unique {ws ws' : List Word} {s rest rest' : List Char}
    (h : StartsWith ws s rest) (h' : StartsWith ws' s rest') (hlength : ws.length = ws'.length) :
    ws = ws' ∧ rest = rest' := by
  induction ws generalizing ws' s with
  | nil =>
    obtain rfl := List.length_eq_zero_iff.mp hlength.symm
    exact ⟨rfl, h.symm.trans h'⟩
  | cons w ws ih =>
    rcases ws' with _ | ⟨w', ws'⟩
    · cases hlength
    obtain ⟨more, hs, hfits, hrest⟩ := h
    obtain ⟨more', hs', hfits', hrest'⟩ := h'
    -- both words are what is taken from the front of the text
    have hword := takeWord_eq_some_iff.mpr ⟨hs, hfits⟩
    rw [takeWord_eq_some_iff.mpr ⟨hs', hfits'⟩] at hword
    obtain ⟨rfl, rfl⟩ := Prod.mk.inj (Option.some.inj hword)
    obtain ⟨rfl, rfl⟩ := ih hrest hrest' (Nat.succ.inj hlength)
    exact ⟨rfl, rfl⟩

/-- The text is codes, a duration and an activity. A code is no decimal number, the duration has the
form of a number. -/
structure IsSplit (most : ℕ) (s : List Char) (codes : List Word) (duration : Word)
    (activity : List Char) : Prop where
  words : StartsWith (codes ++ [duration]) s activity
  length_le : codes.length ≤ most
  not_decimal : ∀ w ∈ codes, Hours.isDecimal w.text = false
  shaped : Hours.isShaped duration.text = true

section Split

variable {n : ℕ} {s activity : List Char} {codes : List Word} {duration : Word}

theorem isShaped_of_takeCodes_nil (h : takeCodes n s = some ([], duration, activity)) :
    Hours.isShaped duration.text = true := by
  rcases takeCodes_cases h with ⟨-, hw⟩ | ⟨k, w, ws, rest, -, hnil, -⟩
  swap
  · cases hnil
  by_contra hshaped
  have hdecimal : ¬ Hours.isDecimal duration.text = true := fun hd =>
    hshaped (Hours.isShaped_of_isDecimal hd)
  cases n with
  | zero =>
    rw [takeCodes, hw] at h
    simp only [if_neg hshaped] at h
    cases h
  | succ n =>
    rw [takeCodes, hw] at h
    simp only [if_neg hshaped, if_neg hdecimal] at h
    split at h
    · cases h
    · cases h

/-- **What the reader takes is a split.** -/
theorem isSplit_of_takeCodes (h : takeCodes n s = some (codes, duration, activity)) :
    IsSplit n s codes duration activity := by
  induction codes generalizing n s with
  | nil =>
    have hshaped := isShaped_of_takeCodes_nil h
    rcases takeCodes_cases h with ⟨-, hw⟩ | ⟨k, w, ws, rest, -, hnil, -⟩
    · obtain ⟨rfl, hfits⟩ := takeWord_eq_some_iff.mp hw
      exact ⟨⟨activity, rfl, hfits, rfl⟩, Nat.zero_le n, by simp, hshaped⟩
    · cases hnil
  | cons code codes ih =>
    rcases takeCodes_cases h with ⟨hnil, -⟩ | ⟨k, w, ws, rest, rfl, heq, hw, hd, hc⟩
    · cases hnil
    obtain ⟨rfl, rfl⟩ := List.cons.inj heq
    obtain ⟨rfl, hfits⟩ := takeWord_eq_some_iff.mp hw
    obtain ⟨hwords, hlength, hcodes, hshaped⟩ := ih hc
    refine ⟨⟨rest, rfl, hfits, hwords⟩, Nat.succ_le_succ hlength, fun c hmem => ?_, hshaped⟩
    rcases List.mem_cons.mp hmem with rfl | hmem
    · exact hd
    · exact hcodes c hmem

theorem exists_takeCodes_of_takeWord {w : Word} {rest : List Char}
    (hw : takeWord s = some (w, rest)) (hshaped : Hours.isShaped w.text = true) (n : ℕ) :
    ∃ found, takeCodes n s = some found := by
  cases n with
  | zero =>
    rw [takeCodes, hw]
    exact ⟨_, if_pos hshaped⟩
  | succ n =>
    by_cases hd : Hours.isDecimal w.text = true
    · exact ⟨_, takeCodes_direct hw hd⟩
    · rw [Bool.not_eq_true] at hd
      rcases hrest : takeCodes n rest with _ | ⟨codes, duration, activity⟩
      · rw [takeCodes, hw]
        simp [hd, hrest, hshaped]
      · exact ⟨_, takeCodes_succ hw hd hrest⟩

/-- **The reader finds a split if there is one**, with as many codes at least. -/
theorem exists_takeCodes (h : IsSplit n s codes duration activity) :
    ∃ codes' duration' activity', takeCodes n s = some (codes', duration', activity') ∧
      codes.length ≤ codes'.length := by
  induction codes generalizing n s with
  | nil =>
    obtain ⟨more, hs, hfits, -⟩ := h.words
    obtain ⟨⟨codes', duration', activity'⟩, hfound⟩ :=
      exists_takeCodes_of_takeWord (takeWord_eq_some_iff.mpr ⟨hs, hfits⟩) h.shaped n
    exact ⟨codes', duration', activity', hfound, Nat.zero_le _⟩
  | cons code codes ih =>
    obtain ⟨more, hs, hfits, hwords⟩ := h.words
    have hlength := h.length_le
    have hdecimal := h.not_decimal code List.mem_cons_self
    obtain ⟨k, rfl⟩ : ∃ k, n = k + 1 := Nat.exists_eq_succ_of_ne_zero (by
      rw [List.length_cons] at hlength; omega)
    obtain ⟨codes', duration', activity', hfound, hle⟩ := ih (n := k) (s := more)
      ⟨hwords, Nat.le_of_succ_le_succ hlength,
        fun w hw => h.not_decimal w (List.mem_cons_of_mem _ hw), h.shaped⟩
    exact ⟨code :: codes', duration', activity',
      takeCodes_succ (takeWord_eq_some_iff.mpr ⟨hs, hfits⟩) hdecimal hfound,
      Nat.succ_le_succ hle⟩

end Split

/-! ### Entries -/

namespace EntryText

/-- What stands behind the times. -/
def tail (t : EntryText) : List Char :=
  t.codes.flatMap Word.chars ++ t.duration.chars ++ t.activity

/-- The parts are in the form of an entry: a dash, blanks, two times with a dash between them,
blanks, at most two codes, a duration and an activity. -/
structure IsWritten (t : EntryText) : Prop where
  lead_ne_nil : t.lead ≠ []
  lead_blank : ∀ c ∈ t.lead, isBlank c = true
  start_isTime : IsTime t.start
  stop_isTime : IsTime t.stop
  gap_ne_nil : t.gap ≠ []
  gap_blank : ∀ c ∈ t.gap, isBlank c = true
  split : IsSplit 2 t.tail t.codes t.duration t.activity

theorem IsEntry.isWritten {t : EntryText} (h : t.IsEntry) : t.IsWritten :=
  ⟨h.lead_ne_nil, h.lead_blank, h.start_isTime, h.stop_isTime, h.gap_ne_nil, h.gap_blank,
    isSplit_of_takeCodes h.codes_fit⟩

/-- An entry with another split of what stands behind the times. -/
def withSplit (t : EntryText) (codes : List Word) (duration : Word) (activity : List Char) :
    EntryText :=
  { t with codes := codes, duration := duration, activity := activity }

theorem IsWritten.withSplit {t : EntryText} (h : t.IsWritten) {codes : List Word} {duration : Word}
    {activity : List Char} (hfound : takeCodes maxCodes t.tail = some (codes, duration, activity)) :
    (t.withSplit codes duration activity).IsEntry ∧
      (t.withSplit codes duration activity).chars = t.chars := by
  have htail : (t.withSplit codes duration activity).tail = t.tail := takeCodes_chars hfound
  constructor
  · refine ⟨h.lead_ne_nil, h.lead_blank, h.start_isTime, h.stop_isTime, h.gap_ne_nil, h.gap_blank,
      ?_⟩
    show takeCodes maxCodes (t.withSplit codes duration activity).tail = _
    rw [htail]
    exact hfound
  · rw [chars_eq, chars_eq]
    show '-' :: (t.lead ++ (t.start ++ '-' :: (t.stop ++ (t.gap ++
      (t.withSplit codes duration activity).tail)))) = _
    rw [htail]
    rfl

/-- A line is made up of the parts of an entry in one way only. -/
theorem IsEntry.eq_of_chars_eq {t t' : EntryText} (h : t.IsEntry) (h' : t'.IsEntry)
    (hchars : t.chars = t'.chars) : t = t' := by
  rw [chars_eq, chars_eq] at hchars
  have hread := h.readAfterDash 0
  rw [(List.cons.inj hchars).2, h'.readAfterDash 0] at hread
  exact (Except.ok.inj hread).symm

/-- The parts are in the form of an entry, and in that form none with the same characters have more
codes. -/
structure IsPreferred (t : EntryText) : Prop where
  isWritten : t.IsWritten
  most : ∀ t' : EntryText, t'.IsWritten → t'.chars = t.chars → t'.codes.length ≤ t.codes.length

/-- **A line is cut into the parts of an entry with the most codes.** -/
theorem isEntry_iff {t : EntryText} : t.IsEntry ↔ t.IsPreferred := by
  constructor
  · intro h
    refine ⟨h.isWritten, fun t' h' hchars => ?_⟩
    obtain ⟨codes, duration, activity, hfound, hle⟩ := exists_takeCodes h'.split
    obtain ⟨hentry, hsame⟩ := h'.withSplit hfound
    rw [← hentry.eq_of_chars_eq h (hsame.trans hchars)]
    exact hle
  · rintro ⟨h, hmost⟩
    obtain ⟨codes, duration, activity, hfound, hle⟩ := exists_takeCodes h.split
    obtain ⟨hentry, hsame⟩ := h.withSplit hfound
    have hge : codes.length ≤ t.codes.length := hmost _ hentry.isWritten hsame
    have hlength : (codes ++ [duration]).length = (t.codes ++ [t.duration]).length := by
      rw [List.length_append, List.length_append, List.length_singleton, List.length_singleton]
      omega
    obtain ⟨hwords, rfl⟩ := (isSplit_of_takeCodes hfound).words.unique h.split.words hlength
    obtain ⟨rfl, hduration⟩ := List.append_inj' hwords rfl
    obtain rfl := List.singleton_inj.mp hduration
    exact hentry

theorem exists_isEntry_iff {content : List Char} :
    (∃ t : EntryText, t.chars = content ∧ t.IsEntry) ↔
      ∃ t : EntryText, t.chars = content ∧ t.IsWritten := by
  constructor
  · rintro ⟨t, hchars, h⟩
    exact ⟨t, hchars, h.isWritten⟩
  · rintro ⟨t, rfl, h⟩
    obtain ⟨codes, duration, activity, hfound, -⟩ := exists_takeCodes h.split
    obtain ⟨hentry, hsame⟩ := h.withSplit hfound
    exact ⟨_, hsame, hentry⟩

end EntryText

/-- The values of the entry are the parts: what its duration is depends on whether the literal is a
number. -/
structure Entry.HasParts (e : Entry) (t : EntryText) : Prop where
  start : e.start.value.raw.toList = t.start
  stop : e.stop.value.raw.toList = t.stop
  codes : e.codes.map (fun c => c.value.toList) = t.codes.map Word.text
  read : ∀ d, e.duration = .read d →
    d.raw.toList = t.duration.text ∧ Hours.seconds? t.duration.text = some d.seconds
  junk : ∀ k, e.duration = .junk k →
    k.content.toList = t.duration.text ∧ Hours.seconds? t.duration.text = none
  activity : e.activity.value.toList = t.activity

namespace EntryText

theorem map_value_locateWords (place : ℕ) (ws : List Word) :
    (locateWords place ws).map (fun c => c.value.toList) = ws.map Word.text := by
  induction ws generalizing place with
  | nil => rfl
  | cons w ws ih =>
    rw [locateWords, List.map_cons, List.map_cons, ih]
    exact congrArg (· :: _) String.toList_ofList

theorem readDuration_eq (place : ℕ) (literal : List Char) :
    (readDuration place literal).1 = match Hours.seconds? literal with
      | some seconds => .read ⟨seconds, String.ofList literal, Span.ofLength place literal.length⟩
      | none => .junk ⟨String.ofList literal,
          (ParseCause.badDuration (String.ofList literal)).message,
          Span.ofLength place literal.length⟩ := by
  unfold readDuration
  cases Hours.seconds? literal <;> rfl

/-- The values of the entry of a line are the parts of the line. -/
theorem hasParts_toEntry (t : EntryText) (start : ℕ) : (t.toEntry start).1.HasParts t where
  start := String.toList_ofList
  stop := String.toList_ofList
  codes := map_value_locateWords _ t.codes
  read := by
    intro d hd
    have hread : (readDuration (t.durationAt start) t.duration.text).1 = .read d := hd
    rw [readDuration_eq] at hread
    rcases hs : Hours.seconds? t.duration.text with _ | seconds
    · rw [hs] at hread; cases hread
    · rw [hs] at hread
      rw [← Recovered.read.inj hread]
      exact ⟨String.toList_ofList, rfl⟩
  junk := by
    intro k hk
    have hread : (readDuration (t.durationAt start) t.duration.text).1 = .junk k := hk
    rw [readDuration_eq] at hread
    rcases hs : Hours.seconds? t.duration.text with _ | seconds
    · rw [hs] at hread
      rw [← Recovered.junk.inj hread]
      exact ⟨String.toList_ofList, rfl⟩
    · rw [hs] at hread; cases hread
  activity := String.toList_ofList

end EntryText

/-! ### Lines -/

/-- A dash, one or more blanks and a digit. -/
def IsEntryStart (s : List Char) : Prop :=
  ∃ blanks digit rest, s = '-' :: (blanks ++ digit :: rest) ∧ blanks ≠ [] ∧
    (∀ c ∈ blanks, isBlank c = true) ∧ digit.isDigit = true

theorem looksLikeEntry_iff {s : List Char} : looksLikeEntry s = true ↔ IsEntryStart s := by
  constructor
  · intro h
    unfold looksLikeEntry at h
    split at h
    · rename_i c r
      rw [Bool.and_eq_true] at h
      obtain ⟨hc, hdigit⟩ := h
      have hsplit := List.takeWhile_append_dropWhile (p := isBlank) (l := r)
      rcases hrest : r.dropWhile isBlank with _ | ⟨d, rest⟩
      · rw [hrest] at hdigit; cases hdigit
      · rw [hrest] at hdigit hsplit
        refine ⟨c :: r.takeWhile isBlank, d, rest, ?_, List.cons_ne_nil _ _, ?_, hdigit⟩
        · rw [List.cons_append, hsplit]
        · intro b hb
          rcases List.mem_cons.mp hb with rfl | hb
          · exact hc
          · exact isBlank_of_mem_takeWhile hb
    · cases h
  · rintro ⟨blanks, d, rest, rfl, hne, hblank, hdigit⟩
    rcases blanks with _ | ⟨b, bs⟩
    · exact absurd rfl hne
    have hbs : ∀ c ∈ bs, isBlank c = true := fun c hc => hblank c (List.mem_cons_of_mem b hc)
    have hstop : ∀ c ∈ (d :: rest).head?, isBlank c = false := by
      intro c hc
      obtain rfl : d = c := by simpa using hc
      exact isBlank_of_isDigit hdigit
    rw [List.cons_append]
    unfold looksLikeEntry
    simp only
    rw [hblank b List.mem_cons_self, dropWhile_append_stop hbs hstop]
    exact hdigit

/-- What a line is read as, by its content. -/
theorem BodyLine.read_cases (start : ℕ) (content : List Char) :
    (¬ IsEntryStart content ∧ (read start content).1 = .other (EntryText.locate start content)) ∨
    (∃ t : EntryText, t.chars = content ∧ t.IsEntry ∧
      (read start content).1 = .entry (t.toEntry start).1) ∨
    (IsEntryStart content ∧ (¬ ∃ t : EntryText, t.chars = content ∧ t.IsEntry) ∧
      ∃ message, (read start content).1 =
        .junk ⟨String.ofList content, message, Span.ofLength start content.length⟩) := by
  by_cases hlooks : looksLikeEntry content = true
  · right
    have hstart := looksLikeEntry_iff.mp hlooks
    obtain ⟨blanks, digit, rest, hcontent, -, -, -⟩ := id hstart
    have hdrop : content.drop 1 = blanks ++ digit :: rest := by rw [hcontent]; rfl
    unfold read
    rw [if_pos hlooks, hdrop]
    rcases hread : EntryText.readAfterDash start (blanks ++ digit :: rest) with fault | t
    · right
      refine ⟨hstart, ?_, _, rfl⟩
      rintro ⟨t, hchars, ht⟩
      rw [hcontent] at hchars
      rw [EntryText.readAfterDash_eq_ok_iff.mpr ⟨hchars, ht⟩] at hread
      cases hread
    · left
      obtain ⟨hchars, ht⟩ := EntryText.readAfterDash_eq_ok_iff.mp hread
      exact ⟨t, hchars.trans hcontent.symm, ht, rfl⟩
  · left
    refine ⟨fun h => hlooks (looksLikeEntry_iff.mpr h), ?_⟩
    unfold read
    rw [if_neg hlooks]

/-- A line is what the grammar has its content be: an other line if it does not begin like an entry,
an entry if it has the form of one, and else junk. The values of an entry are the parts of the line,
cut in the one way with the most codes. -/
structure BodyLine.IsClassified (item : BodyLine) (content : List Char) : Prop where
  other_iff : (∃ c, item = .other c) ↔ ¬ IsEntryStart content
  entry_iff : (∃ e, item = .entry e) ↔ ∃ t : EntryText, t.chars = content ∧ t.IsWritten
  junk_iff : (∃ k, item = .junk k) ↔
    IsEntryStart content ∧ ¬ ∃ t : EntryText, t.chars = content ∧ t.IsWritten
  parts : ∀ e, item = .entry e → ∃ t : EntryText, t.chars = content ∧ t.IsPreferred ∧ e.HasParts t ∧
    ∀ t' : EntryText, t'.chars = content → t'.IsPreferred → t' = t

theorem BodyLine.isClassified_read (start : ℕ) (content : List Char) :
    (read start content).1.IsClassified content := by
  have hstart : ∀ t : EntryText, t.chars = content → t.IsEntry → IsEntryStart content := by
    rintro t rfl ht
    exact looksLikeEntry_iff.mp ht.looksLikeEntry
  rcases read_cases start content with ⟨hno, hc⟩ | ⟨t, hchars, ht, he⟩ | ⟨hyes, hnone, message, hk⟩
  · have hnone : ¬ ∃ t : EntryText, t.chars = content ∧ t.IsEntry := fun ⟨t, hchars, ht⟩ =>
      hno (hstart t hchars ht)
    rw [hc]
    constructor
    · exact iff_of_true ⟨_, rfl⟩ hno
    · rw [← EntryText.exists_isEntry_iff]
      exact iff_of_false (by rintro ⟨e, he⟩; cases he) hnone
    · exact iff_of_false (by rintro ⟨k, hk⟩; cases hk) fun h => hno h.1
    · intro e he
      cases he
  · have hyes := hstart t hchars ht
    rw [he]
    constructor
    · exact iff_of_false (by rintro ⟨c, hc⟩; cases hc) fun hno => hno hyes
    · exact iff_of_true ⟨_, rfl⟩ ⟨t, hchars, ht.isWritten⟩
    · exact iff_of_false (by rintro ⟨k, hk⟩; cases hk) fun h => h.2 ⟨t, hchars, ht.isWritten⟩
    · rintro e he
      rw [← BodyLine.entry.inj he]
      refine ⟨t, hchars, EntryText.isEntry_iff.mp ht, t.hasParts_toEntry start, ?_⟩
      intro t' hchars' ht'
      exact (EntryText.isEntry_iff.mpr ht').eq_of_chars_eq ht (hchars'.trans hchars.symm)
  · rw [EntryText.exists_isEntry_iff] at hnone
    rw [hk]
    constructor
    · exact iff_of_false (by rintro ⟨c, hc⟩; cases hc) fun hno => hno hyes
    · exact iff_of_false (by rintro ⟨e, he⟩; cases he) hnone
    · exact iff_of_true ⟨_, rfl⟩ ⟨hyes, hnone⟩
    · intro e he
      cases he

/-- **Lines of the body are classified by the grammar.** Wherever the production for a line stands in
a text, it reads a line, and the line is what the grammar has the rest of the line there be. -/
theorem Context.line_isClassified (ctx : Context) (text : List Char) (pos : ℕ) :
    ∃ item next ctx', ctx.line ⟨text, pos⟩ = (.ok (item, next), ctx') ∧
      item.IsClassified (contentOf (text.drop pos)) :=
  ⟨_, _, _, ctx.line_eq pos, BodyLine.isClassified_read pos _⟩

end TimeJournal
