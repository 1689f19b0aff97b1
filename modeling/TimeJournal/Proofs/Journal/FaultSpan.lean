import TimeJournal.Proofs.Journal.FrontMatter

/-! # Where the faults of a line stand

A line has at most one fault, and the fault stands in the line. `ParseFault.FoundIn` says so, and
that the fault is no fallback: it says what was missing, not only that something was.

* `EntryText.foundIn_of_readAfterDash`, `BlockLine.foundIn_fault?`: a fault is found in its line.
* `BodyLine.AccountedBy`: the faults that a line of the body has by what it was read as;
  `BodyLine.accountedBy_read`: they are those that are found in it. -/

namespace TimeJournal

open Text

/-! ### Faults in a span -/

/-- One span lies in another one, which may have the same ends. -/
def Span.Within (s t : Span) : Prop := t.start ≤ s.start ∧ s.stop ≤ t.stop

instance (s t : Span) : Decidable (s.Within t) := by
  unfold Span.Within; infer_instance

/-- A cause that says what is wrong, and is no fallback for one that was not recorded. -/
def ParseCause.isSpecific : ParseCause → Bool
  | .malformedEntry | .invalidFrontMatter | .described _ => false
  | _ => true

/-- The wording of a specific cause is not the one of a fallback. -/
theorem ParseCause.message_ne_of_isSpecific {c : ParseCause} (h : c.isSpecific = true) :
    c.message ≠ ParseCause.malformedEntry.message ∧
      c.message ≠ ParseCause.invalidFrontMatter.message := by
  -- where the wording depends on the text, its first words decide
  have hfirst : ∀ first rest : String, ¬ first.toList <+: "Malformed entry".toList →
      ¬ first.toList <+: "Invalid front matter".toList →
      first ++ rest ≠ "Malformed entry" ∧ first ++ rest ≠ "Invalid front matter" := by
    intro first rest hentry hblock
    refine ⟨fun heq => hentry ?_, fun heq => hblock ?_⟩
    · rw [← heq, String.toList_append]
      exact List.prefix_append _ _
    · rw [← heq, String.toList_append]
      exact List.prefix_append _ _
  cases c with
  | noOpeningDelimiter => decide
  | unterminatedFrontMatter => decide
  | unexpectedFrontMatterLine => decide
  | badDate fault => exact hfirst "Unrecognizable date: " _ (by decide) (by decide)
  | noDash => decide
  | noBlank gap => exact hfirst "Expected whitespace " _ (by decide) (by decide)
  | malformedTime => decide
  | noRangeDash => decide
  | noDuration => decide
  | badDuration token =>
    show "Unrecognizable duration: '" ++ token ++ "'" ≠ _ ∧
      "Unrecognizable duration: '" ++ token ++ "'" ≠ _
    rw [String.append_assoc]
    exact hfirst _ _ (by decide) (by decide)
  | malformedEntry => cases h
  | invalidFrontMatter => cases h
  | described message => cases h

/-- The span of the content of a line. -/
def Text.Line.span (l : Line) : Span := Span.ofLength l.start l.content.length

/-- The fault stands in the span and says what is wrong there. -/
structure ParseFault.FoundIn (f : ParseFault) (s : Span) : Prop where
  within : f.span.Within s
  specific : f.cause.isSpecific = true

/-! ### Lines of the body -/

namespace EntryText

variable {start length : ℕ}

theorem faultAt_foundIn {cause : ParseCause} (hcause : cause.isSpecific = true) {k : ℕ}
    {rest : List Char} (hk : k + rest.length ≤ length) :
    (faultAt cause (start + k) rest).FoundIn (Span.ofLength start length) := by
  have hword : (rest.takeWhile isWordChar).length ≤ rest.length :=
    (List.takeWhile_prefix _).length_le
  refine ⟨⟨Nat.le_add_right _ _, ?_⟩, hcause⟩
  show start + k + (rest.takeWhile isWordChar).length ≤ start + length
  omega

/-- **What is wrong with a line that is no entry is found in it.** -/
theorem foundIn_of_readAfterDash {s : List Char} {fault : ParseFault}
    (h : readAfterDash start s = .error fault) :
    fault.FoundIn (Span.ofLength start (s.length + 1)) := by
  have hlead := length_dropWhile_blanks s
  simp only [readAfterDash] at h
  by_cases hnolead : (s.takeWhile isBlank).isEmpty
  · rw [if_pos hnolead] at h
    rw [← Except.error.inj h]
    exact faultAt_foundIn rfl (by omega)
  rw [if_neg hnolead] at h
  split at h
  · rw [← Except.error.inj h, Nat.add_assoc]
    exact faultAt_foundIn rfl (by omega)
  rename_i first s₂ hfirst
  have hfirst := length_of_takeTime hfirst
  split at h
  swap
  · rw [← Except.error.inj h, Nat.add_assoc, Nat.add_assoc]
    exact faultAt_foundIn rfl (by omega)
  rename_i s₃
  rw [List.length_cons] at hfirst
  split at h
  · rw [← Except.error.inj h, Nat.add_assoc, Nat.add_assoc, Nat.add_assoc]
    exact faultAt_foundIn rfl (by omega)
  rename_i last s₄ hlast
  have hlast := length_of_takeTime hlast
  have hgap := length_dropWhile_blanks s₄
  by_cases hnogap : (s₄.takeWhile isBlank).isEmpty
  · rw [if_pos hnogap] at h
    rw [← Except.error.inj h, Nat.add_assoc, Nat.add_assoc, Nat.add_assoc, Nat.add_assoc]
    exact faultAt_foundIn rfl (by omega)
  rw [if_neg hnogap] at h
  split at h
  · rw [← Except.error.inj h]
    refine ⟨⟨?_, ?_⟩, rfl⟩
    · dsimp only [Span.ofLength]; omega
    · dsimp only [Span.ofLength]; omega
  · cases h

end EntryText

/-- The faults by which a line of the body is accounted for: junk has one, which describes it, an
entry has one exactly if its duration is no number, and other lines have none. -/
inductive BodyLine.AccountedBy : BodyLine → List ParseFault → Prop
  | junk {k : Junk} {f : ParseFault} : k.message = f.describe → f.span.Within k.span →
      AccountedBy (.junk k) [f]
  | badDuration {e : Entry} {k : Junk} {f : ParseFault} : e.duration = .junk k →
      k.message = f.message → f.span = k.span → k.span.Within e.span → AccountedBy (.entry e) [f]
  | entry {e : Entry} {d : Duration} : e.duration = .read d → AccountedBy (.entry e) []
  | other {c : Located String} : AccountedBy (.other c) []

/-- A line of the body is accounted for by its fault, and the fault is found in it. -/
theorem EntryText.accountedBy_toEntry (t : EntryText) (start : ℕ) :
    (BodyLine.entry (t.toEntry start).1).AccountedBy (t.toEntry start).2.toList ∧
      ∀ f ∈ (t.toEntry start).2, f.FoundIn (Span.ofLength start t.chars.length) := by
  have hend : t.durationAt start + t.duration.text.length ≤ t.endAt start := by
    unfold endAt activityAt Word.size; omega
  have hstart : start ≤ t.durationAt start := by
    unfold durationAt codesAt stopAt startAt; omega
  rw [t.endAt_eq] at hend
  show BodyLine.AccountedBy _ (readDuration (t.durationAt start) t.duration.text).2.toList ∧
    ∀ f ∈ (readDuration (t.durationAt start) t.duration.text).2, f.FoundIn _
  have hduration : (t.toEntry start).1.duration =
    (readDuration (t.durationAt start) t.duration.text).1 := rfl
  rw [readDuration_eq] at hduration
  unfold readDuration
  rcases hs : Hours.seconds? t.duration.text with _ | seconds
  · rw [hs] at hduration
    refine ⟨.badDuration hduration rfl rfl ⟨hstart, ?_⟩, fun f hf => ?_⟩
    · exact hend.trans (t.endAt_eq start).ge
    · rw [← Option.some.inj hf]
      exact ⟨⟨hstart, hend⟩, rfl⟩
  · rw [hs] at hduration
    exact ⟨.entry hduration, by simp⟩

/-- **Every line of the body is accounted for by its fault**, which is found in the line. -/
theorem BodyLine.accountedBy_read (start : ℕ) (content : List Char) :
    (read start content).1.AccountedBy (read start content).2.toList ∧
      ∀ f ∈ (read start content).2, f.FoundIn (Span.ofLength start content.length) := by
  unfold read
  by_cases hlooks : looksLikeEntry content = true
  swap
  · rw [if_neg hlooks]
    exact ⟨.other, by simp⟩
  obtain ⟨blanks, digit, rest, hcontent, -, -, -⟩ := looksLikeEntry_iff.mp hlooks
  have hdrop : content = '-' :: content.drop 1 := by rw [hcontent]; rfl
  rw [if_pos hlooks]
  rcases hread : EntryText.readAfterDash start (content.drop 1) with fault | t
  · have hfound := EntryText.foundIn_of_readAfterDash hread
    rw [← List.length_cons (a := '-'), ← hdrop] at hfound
    refine ⟨.junk rfl hfound.within, fun f hf => ?_⟩
    rwa [← Option.some.inj hf]
  · have hchars : t.chars = content := (EntryText.chars_of_readAfterDash hread).trans hdrop.symm
    rw [← hchars]
    exact t.accountedBy_toEntry start

/-! ### Lines of the front matter -/

/-- **What is wrong with a line of the block is found in it.** -/
theorem BlockLine.foundIn_fault? {l : Line} {fault : ParseFault}
    (h : (read l).fault? = some fault) :
    fault.FoundIn l.span := by
  rcases reports_iff.mpr h with _ | _ | _ | ⟨⟨t, -, -, hchars, rfl⟩, -⟩ | _
  · have hlength := t.valueOffset_add_le
    rw [hchars] at hlength
    refine ⟨⟨?_, ?_⟩, rfl⟩
    · exact Nat.le_add_right _ _
    · show l.start + t.valueOffset + t.value.length ≤ l.start + l.content.length
      omega
  · exact ⟨⟨le_rfl, le_rfl⟩, rfl⟩

end TimeJournal
