import TimeJournal.Proofs.Text.Position

/-! # The line that an offset is on

`Line.Holds` says of a line, without a line index, that an offset of a text is on it: the line begins
behind a line feed or with the text, and the offset lies no further on than the line feed that ends
it, or the end of the text. The line index gives its content and counts columns from its beginning,
if each carriage return of the text stands in front of a line feed (`ReturnsEndLines`); any other one
at the end of a line it would drop.

* `exists_isCutAround`: every offset is on a line of a text.
* `LineIndex.position_of_isCutAround`, `LineIndex.line_lt_of_isCutAround`: the positions on a line and
  behind it.
* `LineIndex.lineText_of_isCutAround`: what the index has there.
* `exists_holds`: the line of an offset, with its content and its ending. -/

namespace TimeJournal.Text

/-- Each carriage return of a text stands in front of a line feed. -/
def ReturnsEndLines (text : List Char) : Prop :=
  ∀ i < text.length, text[i]? = some '\r' → text[i + 1]? = some '\n'

instance (text : List Char) : Decidable (ReturnsEndLines text) := by
  unfold ReturnsEndLines; infer_instance

theorem ReturnsEndLines.head?_eq {before after : List Char}
    (h : ReturnsEndLines (before ++ '\r' :: after)) : after.head? = some '\n' := by
  have hfeed := h before.length (by simp) (by simp)
  rw [List.getElem?_append_right (Nat.le_add_right _ _), Nat.add_sub_cancel_left,
    List.getElem?_cons_succ] at hfeed
  rw [List.head?_eq_getElem?, hfeed]

/-- An offset of a text is on a line: at one of its characters or where it ends. -/
structure Line.Holds (l : Line) (text : List Char) (o : ℕ) : Prop where
  stands : Stands text l.start l.chars
  begins : ∀ c ∈ (text.take l.start).getLast?, c = '\n'
  noFeed : '\n' ∉ l.content
  noReturn : '\r' ∉ l.content
  ends : l.ending.IsFinal → l.next = text.length
  start_le : l.start ≤ o
  le_stop : o ≤ l.start + (l.content ++ l.ending.returns).length

/-! ### Between line feeds -/

/-- What stands around a line: in front of it the text ends in a line feed, if there is any, and
behind it the text goes on with one, if it goes on. The line has none. -/
structure IsCutAround (before line after : List Char) : Prop where
  begins : ∀ c ∈ before.getLast?, c = '\n'
  noFeed : '\n' ∉ line
  ends : ∀ c ∈ after.head?, c = '\n'

/-- **Every offset is on a line.** -/
theorem exists_isCutAround {text : List Char} {o : ℕ} (h : o ≤ text.length) :
    ∃ before line after, text = before ++ (line ++ after) ∧ IsCutAround before line after ∧
      before.length ≤ o ∧ o ≤ before.length + line.length := by
  let front := text.take o
  let rest := text.drop o
  have hfront : front.rdropWhile (· != '\n') ++ front.rtakeWhile (· != '\n') = front :=
    List.rdropWhile_append_rtakeWhile
  have hrest : rest.takeWhile (· != '\n') ++ rest.dropWhile (· != '\n') = rest :=
    List.takeWhile_append_dropWhile
  have hlength : (front.rdropWhile (· != '\n')).length + (front.rtakeWhile (· != '\n')).length = o := by
    rw [← List.length_append, hfront]
    exact List.length_take_of_le h
  refine ⟨front.rdropWhile (· != '\n'), front.rtakeWhile (· != '\n') ++ rest.takeWhile (· != '\n'),
    rest.dropWhile (· != '\n'), ?_, ⟨fun c hc => ?_, fun hfeed => ?_, fun c hc => ?_⟩, by omega, ?_⟩
  · rw [List.append_assoc, hrest, ← List.append_assoc, hfront, List.take_append_drop]
  · obtain ⟨hne, rfl⟩ := List.mem_getLast?_eq_getLast hc
    simpa using List.rdropWhile_last_not _ _ hne
  · rcases List.mem_append.mp hfeed with hfeed | hfeed
    · exact absurd (List.mem_rtakeWhile_imp hfeed) (by decide)
    · exact absurd (List.mem_takeWhile_imp hfeed) (by decide)
  · have hnot := List.head?_dropWhile_not (· != '\n') rest
    rw [hc] at hnot
    simpa using hnot
  · rw [List.length_append]
    omega

/-! ### Positions -/

/-- On a line the position moves on by characters. -/
theorem Position.behind_append_of_notMem (s : List Char) {t : List Char} (ht : '\n' ∉ t) :
    behind (s ++ t) = ⟨(behind s).line, (behind s).character + t.length⟩ := by
  induction t using List.reverseRecOn with
  | nil => rw [List.append_nil]; rfl
  | append_singleton t c ih =>
    rw [List.mem_append, List.mem_singleton, not_or] at ht
    rw [← List.append_assoc, behind_concat_of_ne _ (Ne.symm ht.2), ih ht.1, List.length_append]
    rfl

namespace IsCutAround

variable {before line after : List Char} (h : IsCutAround before line after)
include h

/-- The line begins at its first character. -/
theorem behind_before : Position.behind before = ⟨before.count '\n', 0⟩ := by
  have hnil : before.rtakeWhile (· != '\n') = [] := by
    rw [List.rtakeWhile_eq_nil_iff]
    intro hne
    rw [h.begins _ (List.getLast?_eq_some_getLast hne)]
    decide
  unfold Position.behind
  rw [hnil]
  rfl

/-- What the table of the index has of the text up to the line, and whether it goes on. -/
theorem lineStarts_eq : ∃ starts rest, lineStarts (before ++ (line ++ after)) =
    starts ++ before.length :: rest ∧ starts.length = before.count '\n' ∧
      rest.head? = if after = [] then none else some (before.length + line.length + 1) := by
  obtain ⟨starts, start, hstarts, hbehind, hle⟩ := exists_lineStarts_concat before
  rw [h.behind_before, Position.mk.injEq] at hbehind
  obtain rfl : start = before.length := by omega
  refine ⟨starts, feeds (before.length + line.length) after, ?_, hbehind.1.symm, ?_⟩
  · rw [lineStarts_append, hstarts, feeds_append, feeds_eq_nil h.noFeed, List.append_assoc]
    rfl
  · cases after with
    | nil => rfl
    | cons c after =>
      rw [h.ends c rfl]
      rfl

end IsCutAround

namespace LineIndex

variable {before line after : List Char} (h : IsCutAround before line after)
include h

/-- **An offset on a line has its number**, and a character for each column. -/
theorem position_of_isCutAround {o : ℕ} (hstart : before.length ≤ o)
    (hstop : o ≤ before.length + line.length) :
    (ofText (before ++ (line ++ after))).position o = ⟨before.count '\n', o - before.length⟩ := by
  have htake : (before ++ (line ++ after)).take o = before ++ line.take (o - before.length) := by
    rw [List.take_append, List.take_of_length_le hstart, List.take_append_of_le_length (by omega)]
  have hnotMem : '\n' ∉ line.take (o - before.length) := fun hfeed =>
    h.noFeed (List.mem_of_mem_take hfeed)
  rw [position_eq (by simp only [List.length_append]; omega), htake,
    Position.behind_append_of_notMem _ hnotMem, h.behind_before, List.length_take]
  show (⟨_, 0 + min (o - before.length) line.length⟩ : Position) = _
  rw [Nat.zero_add, Nat.min_eq_left (by omega)]

/-- **An offset behind a line has a greater number.** -/
theorem line_lt_of_isCutAround {o : ℕ} (hstop : before.length + line.length < o)
    (ho : o ≤ (before ++ (line ++ after)).length) :
    before.count '\n' < ((ofText (before ++ (line ++ after))).position o).line := by
  rcases after with _ | ⟨c, after⟩
  · simp only [List.length_append, List.length_nil] at ho
    omega
  obtain rfl := h.ends c rfl
  -- the next line begins behind the line feed
  have hnext : (ofText (before ++ (line ++ '\n' :: after))).position
      (before.length + line.length + 1) = ⟨before.count '\n' + 1, 0⟩ := by
    have htake : (before ++ (line ++ '\n' :: after)).take (before.length + line.length + 1) =
        (before ++ line) ++ ['\n'] := by
      rw [← List.append_assoc, ← List.length_append, List.take_length_add_append]
      rfl
    rw [position_eq (by omega), htake, Position.behind_concat_feed,
      Position.behind_append_of_notMem _ h.noFeed, h.behind_before]
  have hle := position_le hstop ho
  rw [Nat.succ_eq_add_one, hnext, Position.le_iff] at hle
  dsimp only at hle
  omega

/-- **What the index has on a line**, without the carriage returns at its end. -/
theorem lineText_of_isCutAround : (ofText (before ++ (line ++ after))).lineText (before.count '\n') =
    line.rdropWhile (· == '\r') := by
  obtain ⟨starts, rest, hstarts, hlength, hrest⟩ := h.lineStarts_eq
  have hstart : (ofText (before ++ (line ++ after))).starts[before.count '\n']? =
      some before.length := by
    show (lineStarts _)[_]? = _
    rw [hstarts, ← hlength, List.getElem?_append_right le_rfl, Nat.sub_self]
    rfl
  have hnext : (ofText (before ++ (line ++ after))).starts[before.count '\n' + 1]? = rest.head? := by
    show (lineStarts _)[_]? = _
    rw [hstarts, ← hlength, List.getElem?_append_right (Nat.le_add_right _ _), Nat.add_sub_cancel_left,
      List.getElem?_cons_succ, List.head?_eq_getElem?]
  have hstop : (ofText (before ++ (line ++ after))).contentStop (before.count '\n') =
      before.length + line.length := by
    unfold contentStop
    rw [hnext, hrest]
    split_ifs with hnil
    · rw [hnil, List.append_nil]
      exact List.length_append
    · rfl
  unfold lineText
  rw [hstart, hstop]
  dsimp only
  rw [Nat.add_sub_cancel_left]
  show List.rdropWhile _ (((before ++ (line ++ after)).drop before.length).take line.length) = _
  rw [List.drop_left, List.take_left]

end LineIndex

/-! ### Carriage returns -/

/-- A line of a text whose carriage returns end lines is a content, and a carriage return if one
stands in front of the line feed. -/
theorem IsCutAround.exists_content {before line after : List Char}
    (h : IsCutAround before line after)
    (hreturns : ReturnsEndLines (before ++ (line ++ after))) : ∃ content ending,
      line = content ++ Ending.returns ending ∧ '\r' ∉ content ∧
        (ending.IsFinal ∧ after = [] ∨ ¬ ending.IsFinal ∧ after.head? = some '\n') := by
  by_cases hreturn : '\r' ∈ line
  · obtain ⟨content, rest, hline, hnotMem⟩ := List.eq_append_cons_of_mem hreturn
    rw [hline, List.append_assoc, List.cons_append, ← List.append_assoc] at hreturns
    have hfeed := hreturns.head?_eq
    cases rest with
    | nil => exact ⟨content, .crlf, hline, hnotMem, Or.inr ⟨not_false, hfeed⟩⟩
    | cons c rest =>
      refine absurd ?_ h.noFeed
      rw [hline, ← Option.some.inj hfeed]
      simp
  · cases after with
    | nil => exact ⟨line, .eof, (List.append_nil _).symm, hreturn, Or.inl ⟨trivial, rfl⟩⟩
    | cons c after =>
      refine ⟨line, .lf, (List.append_nil _).symm, hreturn, Or.inr ⟨not_false, ?_⟩⟩
      rw [h.ends c rfl]
      rfl

/-- **Every offset of a text whose carriage returns end lines is on a line**, and what the index cuts
out around the offset is its content and the carriage return behind it. -/
theorem exists_holds {text : List Char} {o : ℕ} (ho : o ≤ text.length)
    (hreturns : ReturnsEndLines text) : ∃ (l : Line) (before after : List Char),
      l.Holds text o ∧ text = before ++ ((l.content ++ l.ending.returns) ++ after) ∧
        IsCutAround before (l.content ++ l.ending.returns) after ∧ l.start = before.length := by
  obtain ⟨before, line, after, rfl, h, hstart, hstop⟩ := exists_isCutAround ho
  obtain ⟨content, ending, rfl, hnotMem, hcases⟩ := h.exists_content hreturns
  refine ⟨⟨before.length, content, ending⟩, before, after, ?_, rfl, h, rfl⟩
  rcases hcases with ⟨hfinal, rfl⟩ | ⟨hfinal, hfeed⟩
  · have hchars : (⟨before.length, content, ending⟩ : Line).chars = content ++ ending.returns :=
      Line.chars_of_isFinal hfinal
    refine ⟨⟨before, [], by rw [hchars], rfl⟩, ?_, fun hmem => h.noFeed (List.mem_append_left _ hmem),
      hnotMem, fun _ => ?_, hstart, hstop⟩
    · rw [List.take_left]
      exact h.begins
    · rw [Line.next, hchars, List.append_nil]
      exact List.length_append.symm
  · obtain ⟨after, rfl⟩ := List.head?_eq_some_iff.mp hfeed
    have hchars : (⟨before.length, content, ending⟩ : Line).chars =
        (content ++ ending.returns) ++ ['\n'] := Line.chars_of_not_isFinal hfinal
    refine ⟨⟨before, after, by rw [hchars, List.append_assoc (_ ++ _)]; rfl, rfl⟩, ?_,
      fun hmem => h.noFeed (List.mem_append_left _ hmem), hnotMem, fun h => absurd h hfinal, hstart,
      hstop⟩
    rw [List.take_left]
    exact h.begins

end TimeJournal.Text
