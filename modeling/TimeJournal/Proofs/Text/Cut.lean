import TimeJournal.Text.Line

/-! # Cuts of a text

`lines` cuts a text where lines end. `IsCut start ls` says of a list of lines, without a text, that
it is such a cut: the lines follow one another from `start` on, no content holds a line feed, no
carriage return is content where it would end the line, and only the last line may end without a
line feed. A text has exactly one cut.

* `isCut_lines`: what `lines` gives is a cut.
* `lines_eq_of_isCut`: a cut is what `lines` gives for its characters. So a text can be changed
  inside one line by changing the list of its lines (`IsCut.replace`). -/

namespace TimeJournal.Text

/-- Whether an ending can only stand at the end of a text. -/
def Ending.IsFinal : Ending → Prop
  | .lf | .crlf => False
  | .cr | .eof => True

/-- The content of a line has no line end of its own, also none that begins with its last character
and goes on with the ending; a line without an ending has content. -/
structure Line.IsWhole (l : Line) : Prop where
  noFeed : '\n' ∉ l.content
  noReturn : l.ending = .lf ∨ l.ending = .eof → l.content.getLast? ≠ some '\r'
  ne_nil : l.ending = .eof → l.content ≠ []

/-- Behind a content that ends in a carriage return the text goes on, and not with a line feed. -/
theorem Line.IsWhole.rest_of_return {l : Line} (h : l.IsWhole)
    (hret : l.content.getLast? = some '\r') (more : List Char) :
    l.ending.chars ++ more ≠ [] ∧ (l.ending.chars ++ more).head? ≠ some '\n' := by
  have hno := h.noReturn
  cases hending : l.ending with
  | lf => exact absurd hret (hno (Or.inl hending))
  | crlf => simp [Ending.chars]
  | cr => simp [Ending.chars]
  | eof => exact absurd hret (hno (Or.inr hending))

/-- A line holds at least one character. -/
theorem Line.IsWhole.chars_ne_nil {l : Line} (h : l.IsWhole) : l.chars ≠ [] := by
  have hcontent := h.ne_nil
  unfold Line.chars
  cases hending : l.ending with
  | lf => simp [Ending.chars]
  | crlf => simp [Ending.chars]
  | cr => simp [Ending.chars]
  | eof => simp [hcontent hending]

/-- The lines are those of a text that begins at an offset. -/
def IsCut : Nat → List Line → Prop
  | _, [] => True
  | start, l :: ls =>
    l.start = start ∧ l.IsWhole ∧ (l.ending.IsFinal → ls = []) ∧ IsCut (start + l.chars.length) ls

theorem IsCut.start_le {ls : List Line} : ∀ {start : Nat}, IsCut start ls →
    ∀ l ∈ ls, start ≤ l.start := by
  induction ls with
  | nil => intro start _ l hl; cases hl
  | cons x ls ih =>
    rintro start ⟨hs, -, -, hcut⟩ l hl
    rcases List.mem_cons.mp hl with rfl | hl
    · exact Nat.le_of_eq hs.symm
    · have := ih hcut l hl
      omega

/-- The lines behind some lines of a cut are a cut. -/
theorem IsCut.of_append {before after : List Line} : ∀ {start : Nat},
    IsCut start (before ++ after) → IsCut (start + (before.flatMap Line.chars).length) after := by
  induction before with
  | nil => intro start h; exact h
  | cons x before ih =>
    rintro start ⟨-, -, -, hcut⟩
    rw [List.flatMap_cons, List.length_append, ← Nat.add_assoc]
    exact ih hcut

/-- Between the contents of two lines of a cut there is an ending. -/
theorem IsCut.pairwise_lt {ls : List Line} : ∀ {start : Nat}, IsCut start ls →
    ls.Pairwise fun a b => a.stop < b.start := by
  induction ls with
  | nil => intro start _; exact List.Pairwise.nil
  | cons x ls ih =>
    rintro start ⟨hs, -, hlast, hcut⟩
    refine List.Pairwise.cons (fun l hl => ?_) (ih hcut)
    have hle := hcut.start_le l hl
    have hending : 0 < x.ending.chars.length := by
      rcases hx : x.ending with _ | _ | _ | _
      · exact Nat.zero_lt_one
      · exact Nat.zero_lt_two
      · exact Nat.zero_lt_one
      · rw [hlast (by rw [hx]; trivial)] at hl
        cases hl
    unfold Line.stop
    rw [Line.chars, List.length_append] at hle
    omega

/-- The lines of a cut follow one another. -/
theorem IsCut.pairwise {start : Nat} {ls : List Line} (h : IsCut start ls) :
    ls.Pairwise fun a b => a.stop ≤ b.start :=
  h.pairwise_lt.imp Nat.le_of_lt

/-- The lines of a cut end inside its text. -/
theorem IsCut.stop_le {ls : List Line} : ∀ {start : Nat}, IsCut start ls →
    ∀ l ∈ ls, l.stop ≤ start + (ls.flatMap Line.chars).length := by
  induction ls with
  | nil => intro start _ l hl; cases hl
  | cons x ls ih =>
    rintro start ⟨hs, -, -, hcut⟩ l hl
    rw [List.flatMap_cons, List.length_append, ← Nat.add_assoc]
    rcases List.mem_cons.mp hl with rfl | hl
    · rw [Line.stop, Line.chars, List.length_append]
      omega
    · exact ih hcut l hl

/-! ### The lines of a cut -/

/-- A character goes into the content of a line if no line ends in front of it. -/
theorem go_cons {done : List Line} {start : Nat} {current : List Char} {c : Char} {s : List Char}
    (hf : c ≠ '\n') (hr : c = '\r' → s ≠ [] ∧ s.head? ≠ some '\n') :
    lines.go done start current (c :: s) = lines.go done start (c :: current) s := by
  rw [lines.go.eq_def]
  split
  · rename_i h; cases h
  · rename_i h; obtain ⟨rfl, rfl⟩ := List.cons.inj h; exact absurd rfl (hr rfl).1
  · rename_i r h; obtain ⟨rfl, rfl⟩ := List.cons.inj h; exact absurd rfl (hr rfl).2
  · rename_i r h; exact absurd (List.cons.inj h).1 hf
  · rename_i h; obtain ⟨rfl, rfl⟩ := List.cons.inj h; rfl

theorem go_append {done : List Line} {start : Nat} {content rest : List Char}
    (hf : '\n' ∉ content)
    (hr : content.getLast? = some '\r' → rest ≠ [] ∧ rest.head? ≠ some '\n') :
    ∀ current, lines.go done start current (content ++ rest) =
      lines.go done start (content.reverse ++ current) rest := by
  induction content with
  | nil => intro current; rfl
  | cons c content ih =>
    intro current
    have hc : c ≠ '\n' := fun h => hf (h ▸ List.mem_cons_self)
    have hf' : '\n' ∉ content := fun h => hf (List.mem_cons_of_mem _ h)
    have hr' : content.getLast? = some '\r' → rest ≠ [] ∧ rest.head? ≠ some '\n' := by
      intro h
      exact hr (by rw [List.getLast?_cons, h]; rfl)
    rw [List.cons_append, go_cons hc, ih hf' hr', List.reverse_cons, List.append_assoc]
    · rfl
    · rintro rfl
      rcases content with _ | ⟨d, content⟩
      · exact hr rfl
      · refine ⟨List.cons_ne_nil _ _, fun h => hf' ?_⟩
        rw [List.cons_append, List.head?_cons, Option.some.injEq] at h
        exact h ▸ List.mem_cons_self

/-- **A cut is what `lines` gives for its characters.** -/
theorem go_eq_of_isCut {ls : List Line} : ∀ {start : Nat} (done : List Line), IsCut start ls →
    lines.go done start [] (ls.flatMap Line.chars) = done.reverse ++ ls := by
  induction ls with
  | nil => intro start done _; simp [lines.go]
  | cons l ls ih =>
    rintro start done ⟨rfl, hw, hlast, hcut⟩
    have hrest := fun hret => hw.rest_of_return hret (ls.flatMap Line.chars)
    obtain ⟨at_, content, ending⟩ := l
    simp only [List.flatMap_cons, Line.chars, List.append_assoc] at hcut ⊢
    rw [go_append hw.noFeed hrest, List.append_nil]
    cases ending with
    | lf =>
      have h := ih (⟨at_, content, .lf⟩ :: done) hcut
      simpa [lines.go, Ending.chars, Nat.add_assoc] using h
    | crlf =>
      have h := ih (⟨at_, content, .crlf⟩ :: done) hcut
      simpa [lines.go, Ending.chars, Nat.add_assoc] using h
    | cr => obtain rfl := hlast trivial; simp [lines.go, Ending.chars]
    | eof =>
      obtain rfl := hlast trivial
      simp [lines.go, Ending.chars, hw.ne_nil rfl]

theorem lines_eq_of_isCut {start : Nat} {ls : List Line} (h : IsCut start ls) :
    lines start (ls.flatMap Line.chars) = ls :=
  go_eq_of_isCut [] h

/-! ### The cut of a text -/

theorem isCut_go (done : List Line) (start : Nat) (current s : List Char) (hf : '\n' ∉ current)
    (hr : current.head? = some '\r' → s ≠ [] ∧ s.head? ≠ some '\n') :
    ∃ ls, lines.go done start current s = done.reverse ++ ls ∧ IsCut start ls := by
  have hfr : '\n' ∉ current.reverse := by simpa using hf
  fun_induction lines.go done start current s with
  | case1 done start current =>
    have hlast : current.reverse.getLast? ≠ some '\r' := by
      rw [List.getLast?_reverse]; exact fun h => (hr h).1 rfl
    by_cases hc : current = []
    · exact ⟨[], by simp [hc], trivial⟩
    · refine ⟨[⟨start, current.reverse, .eof⟩], by simp [hc], rfl, ?_, fun _ => rfl, trivial⟩
      exact ⟨hfr, fun _ => hlast, fun _ => by simpa using hc⟩
  | case2 done start current =>
    exact ⟨[⟨start, current.reverse, .cr⟩], by simp, rfl, ⟨hfr, by simp, by simp⟩, fun _ => rfl,
      trivial⟩
  | case3 done start current r ih =>
    obtain ⟨ls, hls, hcut⟩ := ih (by simp) (by simp) (by simp)
    refine ⟨⟨start, current.reverse, .crlf⟩ :: ls, by simp [hls], rfl, ⟨hfr, by simp, by simp⟩,
      False.elim, ?_⟩
    simpa [Line.chars, Ending.chars, Nat.add_assoc] using hcut
  | case4 done start current r ih =>
    obtain ⟨ls, hls, hcut⟩ := ih (by simp) (by simp) (by simp)
    have hlast : current.reverse.getLast? ≠ some '\r' := by
      rw [List.getLast?_reverse]; exact fun h => (hr h).2 rfl
    refine ⟨⟨start, current.reverse, .lf⟩ :: ls, by simp [hls], rfl,
      ⟨hfr, fun _ => hlast, by simp⟩, False.elim, ?_⟩
    simpa [Line.chars, Ending.chars, Nat.add_assoc] using hcut
  | case5 done start current c r hcr hcrlf hlf ih =>
    have hc : c ≠ '\n' := fun h => hlf h
    have hret : c = '\r' → r ≠ [] ∧ r.head? ≠ some '\n' := by
      rintro rfl
      refine ⟨fun h => hcr rfl h, fun h => ?_⟩
      obtain ⟨r', rfl⟩ := List.head?_eq_some_iff.mp h
      exact hcrlf r' rfl rfl
    exact ih (by simp [hf, Ne.symm hc]) (by simpa using hret) (by simpa [Ne.symm hc] using hf)

/-- **What `lines` gives is a cut.** -/
theorem isCut_lines (start : Nat) (s : List Char) : IsCut start (lines start s) := by
  obtain ⟨ls, hls, hcut⟩ := isCut_go [] start [] s (by simp) (by simp)
  rw [lines, hls]
  exact hcut

end TimeJournal.Text
