import TimeJournal.Hours
import TimeJournal.Journal.Fault
import TimeJournal.Journal.Node
import TimeJournal.Text.Blank

/-! # The text of an entry

An entry is written `- START-END [CODE [CODE]] DURATION ACTIVITY`. An `EntryText` holds all
characters of such a line, cut into its parts: nothing of the line is lost, so the spans of the
parts follow from their lengths.

* `EntryText.readAfterDash` cuts a line behind its dash, or says which part is missing, and where.
* `EntryText.chars` puts the parts together again, which gives the line back
  (`chars_of_readAfterDash`).
* `EntryText.toEntry` is the entry of a line that begins at some offset. -/

namespace TimeJournal

open Text

/-- Whether a character belongs to a word. -/
def isWordChar (c : Char) : Bool := !isBlank c

/-- A word of a line and the blanks after it. -/
structure Word where
  text : List Char
  gap : List Char
  deriving DecidableEq, Repr

/-- The characters of a word and of the blanks after it. -/
def Word.chars (w : Word) : List Char := w.text ++ w.gap

/-- The number of characters of a word and of the blanks after it. -/
def Word.size (w : Word) : Nat := w.text.length + w.gap.length

/-- The word at the front of a line, and what follows it and its blanks. -/
def takeWord (s : List Char) : Option (Word × List Char) :=
  let text := s.takeWhile isWordChar
  let after := s.dropWhile isWordChar
  if text.isEmpty then none
  else some (⟨text, after.takeWhile isBlank⟩, after.dropWhile isBlank)

theorem takeWord_chars {s rest : List Char} {w : Word} (h : takeWord s = some (w, rest)) :
    w.chars ++ rest = s := by
  simp only [takeWord] at h
  split at h
  · cases h
  · obtain ⟨rfl, rfl⟩ := Prod.mk.inj (Option.some.inj h)
    simp only [Word.chars, List.append_assoc, List.takeWhile_append_dropWhile]

/-- The time at the front of a line: digits, a colon and digits. -/
def takeTime (s : List Char) : Option (List Char × List Char) :=
  let hour := s.takeWhile Char.isDigit
  match s.dropWhile Char.isDigit with
  | ':' :: r =>
    let minute := r.takeWhile Char.isDigit
    if hour.isEmpty || minute.isEmpty then none
    else some (hour ++ ':' :: minute, r.dropWhile Char.isDigit)
  | _ => none

theorem takeTime_chars {s token rest : List Char} (h : takeTime s = some (token, rest)) :
    token ++ rest = s := by
  simp only [takeTime] at h
  split at h
  · rename_i r hr
    split at h
    · cases h
    · obtain ⟨rfl, rfl⟩ := Prod.mk.inj (Option.some.inj h)
      rw [List.append_assoc, List.cons_append, List.takeWhile_append_dropWhile, ← hr,
        List.takeWhile_append_dropWhile]
  · cases h

/-- Codes, a duration and the activity, with at most `most` codes. The more codes the better, as
long as a word in the form of a duration follows them; a word in the form of a duration with a dot
is no code. -/
def takeCodes : (most : Nat) → List Char → Option (List Word × Word × List Char)
  | most, s =>
    match takeWord s with
    | none => none
    | some (w, after) =>
      let direct := if Hours.isShaped w.text then some ([], w, after) else none
      match most with
      | 0 => direct
      | n + 1 =>
        if Hours.isDecimal w.text then direct
        else
          match takeCodes n after with
          | some (codes, duration, activity) => some (w :: codes, duration, activity)
          | none => direct

theorem takeCodes_chars {most : Nat} {s activity : List Char} {codes : List Word} {duration : Word}
    (h : takeCodes most s = some (codes, duration, activity)) :
    codes.flatMap Word.chars ++ duration.chars ++ activity = s := by
  induction most generalizing s codes with
  | zero =>
    rw [takeCodes] at h
    cases hw : takeWord s with
    | none => simp [hw] at h
    | some found =>
      obtain ⟨w, after⟩ := found
      rw [hw] at h
      simp only [Option.ite_none_right_eq_some, Option.some.injEq, Prod.mk.injEq] at h
      obtain ⟨-, rfl, rfl, rfl⟩ := h
      exact takeWord_chars hw
  | succ n ih =>
    rw [takeCodes] at h
    cases hw : takeWord s with
    | none => simp [hw] at h
    | some found =>
      obtain ⟨w, after⟩ := found
      have direct : (if Hours.isShaped w.text then some (([] : List Word), w, after) else none) =
          some (codes, duration, activity) →
          codes.flatMap Word.chars ++ duration.chars ++ activity = s := by
        intro h'
        simp only [Option.ite_none_right_eq_some, Option.some.injEq, Prod.mk.injEq] at h'
        obtain ⟨-, rfl, rfl, rfl⟩ := h'
        exact takeWord_chars hw
      rw [hw] at h
      simp only at h
      split at h
      · exact direct h
      · cases hn : takeCodes n after with
        | none => rw [hn] at h; exact direct h
        | some found =>
          obtain ⟨cs, d, a⟩ := found
          rw [hn] at h
          simp only [Option.some.injEq, Prod.mk.injEq] at h
          obtain ⟨rfl, rfl, rfl⟩ := h
          rw [← takeWord_chars hw, ← ih hn]
          simp only [List.flatMap_cons, List.append_assoc]

/-- The most codes that an entry has. -/
def maxCodes : Nat := 2

/-- The parts of an entry, the dash in front and the dash between the times left out. -/
structure EntryText where
  lead : List Char
  start : List Char
  stop : List Char
  gap : List Char
  codes : List Word
  duration : Word
  activity : List Char
  deriving DecidableEq, Repr

namespace EntryText

/-- The characters of an entry. -/
def chars (t : EntryText) : List Char :=
  '-' :: (t.lead ++ t.start ++ '-' :: (t.stop ++ t.gap ++ t.codes.flatMap Word.chars ++
    t.duration.chars ++ t.activity))

/-- A fault that covers the word at offset `place`, where `rest` begins. -/
def faultAt (cause : ParseCause) (place : Nat) (rest : List Char) : ParseFault :=
  ⟨cause, Span.ofLength place (rest.takeWhile isWordChar).length⟩

/-- The parts of an entry that begins at offset `start`, from what follows its dash. -/
def readAfterDash (start : Nat) (s : List Char) : Except ParseFault EntryText :=
  let lead := s.takeWhile isBlank
  let s₁ := s.dropWhile isBlank
  let p₁ := start + 1 + lead.length
  if lead.isEmpty then .error (faultAt (.noBlank .afterDash) (start + 1) s)
  else
    match takeTime s₁ with
    | none => .error (faultAt .malformedTime p₁ s₁)
    | some (first, s₂) =>
      let p₂ := p₁ + first.length
      match s₂ with
      | '-' :: s₃ =>
        match takeTime s₃ with
        | none => .error (faultAt .malformedTime (p₂ + 1) s₃)
        | some (last, s₄) =>
          let p₄ := p₂ + 1 + last.length
          let gap := s₄.takeWhile isBlank
          let s₅ := s₄.dropWhile isBlank
          if gap.isEmpty then .error (faultAt (.noBlank .afterRange) p₄ s₄)
          else
            match takeCodes maxCodes s₅ with
            | none => .error ⟨.noDuration, Span.ofLength (p₄ + gap.length) s₅.length⟩
            | some (codes, duration, activity) =>
              .ok ⟨lead, first, last, gap, codes, duration, activity⟩
      | _ => .error (faultAt .noRangeDash p₂ s₂)

/-- Cutting an entry into its parts loses nothing. -/
theorem chars_of_readAfterDash {start : Nat} {s : List Char} {t : EntryText}
    (h : readAfterDash start s = .ok t) : t.chars = '-' :: s := by
  simp only [readAfterDash] at h
  split at h
  · cases h
  split at h
  · cases h
  rename_i first s₂ hfirst
  split at h
  · rename_i s₃
    split at h
    · cases h
    rename_i last s₄ hlast
    split at h
    · cases h
    split at h
    · cases h
    rename_i codes duration activity hcodes
    obtain rfl := (Except.ok.inj h).symm
    have hrest := takeCodes_chars hcodes
    simp only [List.append_assoc] at hrest
    simp only [chars, List.append_assoc, hrest, List.takeWhile_append_dropWhile,
      takeTime_chars hlast]
    rw [takeTime_chars hfirst, List.takeWhile_append_dropWhile]
  · cases h

/-! ### Offsets of the parts -/

/-- The offset of the start time of an entry that begins at `start`. -/
def startAt (t : EntryText) (start : Nat) : Nat := start + 1 + t.lead.length

/-- The offset of the end time. -/
def stopAt (t : EntryText) (start : Nat) : Nat := t.startAt start + t.start.length + 1

/-- The offset of the first code, or of the duration if there is none. -/
def codesAt (t : EntryText) (start : Nat) : Nat := t.stopAt start + t.stop.length + t.gap.length

/-- The offset of the duration. -/
def durationAt (t : EntryText) (start : Nat) : Nat :=
  t.codesAt start + (t.codes.flatMap Word.chars).length

/-- The offset of the activity. -/
def activityAt (t : EntryText) (start : Nat) : Nat := t.durationAt start + t.duration.size

/-- The offset where the entry ends. -/
def endAt (t : EntryText) (start : Nat) : Nat := t.activityAt start + t.activity.length

theorem le_endAt (t : EntryText) (start : Nat) : start ≤ t.endAt start := by
  simp only [endAt, activityAt, durationAt, codesAt, stopAt, startAt]; omega

/-! ### The entry -/

/-- A text at an offset, with its span. -/
def locate (at_ : Nat) (s : List Char) : Located String :=
  ⟨String.ofList s, Span.ofLength at_ s.length⟩

/-- A time at an offset, with its span. -/
def locateTime (at_ : Nat) (s : List Char) : Located TimeToken :=
  ⟨⟨String.ofList s⟩, Span.ofLength at_ s.length⟩

/-- Words from an offset on, with their spans. -/
def locateWords (at_ : Nat) : List Word → List (Located String)
  | [] => []
  | w :: ws => locate at_ w.text :: locateWords (at_ + w.size) ws

/-- The duration at an offset, and the fault of a literal that is no number. -/
def readDuration (at_ : Nat) (literal : List Char) : Recovered Duration × Option ParseFault :=
  let span := Span.ofLength at_ literal.length
  let raw := String.ofList literal
  match Hours.seconds? literal with
  | some seconds => (.read ⟨seconds, raw, span⟩, none)
  | none =>
    let fault : ParseFault := ⟨.badDuration raw, span⟩
    (.junk ⟨raw, fault.message, span⟩, some fault)

/-- The entry of a line that begins at an offset, and its fault if the duration has one. -/
def toEntry (t : EntryText) (start : Nat) : Entry × Option ParseFault :=
  let (duration, fault) := readDuration (t.durationAt start) t.duration.text
  ({ start := locateTime (t.startAt start) t.start
     stop := locateTime (t.stopAt start) t.stop
     codes := locateWords (t.codesAt start) t.codes
     duration := duration
     activity := locate (t.activityAt start) t.activity
     span := ⟨start, t.endAt start, t.le_endAt start⟩ }, fault)

end EntryText

end TimeJournal
