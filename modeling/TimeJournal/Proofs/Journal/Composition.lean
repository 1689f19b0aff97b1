import TimeJournal.Proofs.Journal.Relocation

/-! # Texts put together

A text that has a journal and ends in a line feed can be read on its own, and so can what follows
it: reading keeps nothing of a line when it comes to the next one. What is behind such a text reads
as it reads behind `bareBlock`, a front matter that says nothing, but for the place.

* `IsCut.append`: a cut goes on with another one where its last line ends in a line feed.
* `Document.extend`: a document with more lines behind it; `Document.bare`: the same lines behind
  `bareBlock`. `Document.joins_extend` compares the three.
* `read_append`: the journal of two texts put together, and of three. -/

namespace TimeJournal

open Text

/-! ### Cuts behind one another -/

/-- Every offset moved on by the same distance. -/
def shift (n : ℕ) : ℕ →o ℕ := ⟨(· + n), fun _ _ h => Nat.add_le_add_right h n⟩

theorem shift_add (n start k : ℕ) : shift n (start + k) = shift n start + k :=
  Nat.add_right_comm start k n

theorem rigid_shift (n start length : ℕ) : Rigid (shift n) start length :=
  fun k _ => shift_add n start k

namespace Text

/-- No line ends a text that goes on. -/
theorem IsCut.append {before after : List Line} {start : ℕ} (h : IsCut start before)
    (hopen : ∀ l ∈ before, ¬ l.ending.IsFinal)
    (h' : IsCut (start + (before.flatMap Line.chars).length) after) :
    IsCut start (before ++ after) := by
  induction before generalizing start with
  | nil => exact h'
  | cons l before ih =>
    obtain ⟨hstart, hwhole, -, hcut⟩ := h
    rw [List.flatMap_cons, List.length_append, ← Nat.add_assoc] at h'
    exact ⟨hstart, hwhole, fun hfinal => absurd hfinal (hopen l List.mem_cons_self),
      ih hcut (fun x hx => hopen x (List.mem_cons_of_mem l hx)) h'⟩

/-- A line with a line feed at its end has an ending that is not final. -/
theorem Line.IsWhole.not_isFinal {l : Line} (h : l.IsWhole) (hfeed : l.chars.getLast? = some '\n') :
    ¬ l.ending.IsFinal := by
  unfold Line.chars at hfeed
  cases hending : l.ending with
  | lf => exact id
  | crlf => exact id
  | cr => simp [hending, Ending.chars] at hfeed
  | eof =>
    rw [hending, Ending.chars, List.append_nil] at hfeed
    exact absurd (List.mem_of_getLast? hfeed) h.noFeed

/-- Where a text ends in a line feed, no line of it has a final ending. -/
theorem IsCut.not_isFinal {ls : List Line} {start : ℕ} (h : IsCut start ls)
    (hfeed : (ls.flatMap Line.chars).getLast? = some '\n') : ∀ l ∈ ls, ¬ l.ending.IsFinal := by
  intro l hl hfinal
  obtain ⟨before, after, rfl⟩ := List.append_of_mem hl
  obtain ⟨-, hwhole, hlast, -⟩ := h.of_append
  rw [hlast hfinal, List.flatMap_append, List.flatMap_singleton,
    List.getLast?_append_of_ne_nil _ hwhole.chars_ne_nil] at hfeed
  exact hwhole.not_isFinal hfeed hfinal

/-- **A text is cut at any place in the same way.** -/
theorem lines_shift (n start : ℕ) (s : List Char) :
    lines (shift n start) s = (lines start s).map (Line.move (shift n)) := by
  have hcut := (isCut_lines start s).move (shift_add n start)
  have hchars : ((lines start s).map (Line.move (shift n))).flatMap Line.chars = s := by
    rw [flatMap_chars_move, List.flatMap_def, lines_flatten]
  have hlines := lines_eq_of_isCut hcut
  rwa [hchars] at hlines

end Text

/-! ### Documents with more lines -/

/-- A front matter that says nothing. -/
def bareBlock : String := "---\n---\n"

/-- A reading is that of `first` and then what `tail` has behind its front matter, moved on by
`n`. -/
structure Reading.Joins (first tail : Reading) (n : ℕ) (whole : Reading) : Prop where
  journal : ∃ j k l, first.journal = some j ∧ tail.journal = some k ∧ whole.journal = some l ∧
    l.frontMatter = j.frontMatter ∧
    l.lines = j.lines ++ k.lines.map (BodyLine.move (shift n))
  faults : whole.faults = first.faults ++ tail.faults.map (ParseFault.move (shift n))

/-- A line that delimits a front matter has three dashes at least. -/
theorem three_le_of_isDelimiter {content : List Char} (h : isDelimiter content = true) :
    3 ≤ content.length := by
  have hdashes : 3 ≤ (content.takeWhile (· == '-')).length := by
    unfold isDelimiter at h
    simpa using (Bool.and_eq_true_iff.mp h).1
  exact hdashes.trans (List.takeWhile_prefix _).length_le

namespace Document

/-- Lines behind a front matter that says nothing. -/
def bare (more : List Line) (h : IsCut bareBlock.length more) : Document where
  marked := false
  opening := ⟨0, "---".toList, .lf⟩
  inner := []
  closing := ⟨4, "---".toList, .lf⟩
  body := more
  cut := ⟨rfl, ⟨by decide, by decide, by decide⟩, False.elim, rfl,
    ⟨by decide, by decide, by decide⟩, False.elim, h⟩
  opens := by decide
  within := by simp
  closes := by decide

theorem text_bare {more : List Line} (h : IsCut bareBlock.length more) :
    (bare more h).text = bareBlock.toList ++ more.flatMap Line.chars := rfl

variable (D : Document)

theorem length_text : D.text.length = D.marked.toNat + (D.lines.flatMap Line.chars).length := by
  rw [text, List.length_append, D.length_mark]

/-- The lines of a document go on behind it if its text ends in a line feed. -/
theorem not_isFinal (hfeed : D.text.getLast? = some '\n') :
    ∀ l ∈ D.lines, ¬ l.ending.IsFinal := by
  have hne : D.lines.flatMap Line.chars ≠ [] := fun h => by
    have hhead := D.head?_lines
    rw [h] at hhead
    cases hhead
  rw [text, List.getLast?_append_of_ne_nil _ hne] at hfeed
  exact D.cut.not_isFinal hfeed

/-- The front matter of a document that goes on is not shorter than the bare one. -/
theorem length_bareBlock_le (hfeed : D.text.getLast? = some '\n') :
    bareBlock.length ≤ D.text.length := by
  have hline : ∀ l ∈ D.lines, isDelimiter l.content = true → 4 ≤ l.chars.length := by
    intro l hl hdelimiter
    have hcontent := three_le_of_isDelimiter hdelimiter
    have hending : 0 < l.ending.chars.length := by
      have hopen := D.not_isFinal hfeed l hl
      cases hx : l.ending with
      | lf => exact Nat.zero_lt_one
      | crlf => exact Nat.zero_lt_two
      | cr => exact absurd (by rw [hx]; trivial) hopen
      | eof => exact absurd (by rw [hx]; trivial) hopen
    rw [Line.chars, List.length_append]
    omega
  have hopening := hline D.opening List.mem_cons_self D.opens
  have hclosing := hline D.closing
    (List.mem_cons_of_mem _ (List.mem_append_right _ List.mem_cons_self)) D.closes
  rw [D.length_text, lines, List.flatMap_cons, List.flatMap_append, List.flatMap_cons]
  simp only [List.length_append]
  show 8 ≤ _
  omega

/-- A document that ends in a line feed, with more lines. -/
def extend (hfeed : D.text.getLast? = some '\n') {more : List Line}
    (h : IsCut D.text.length more) : Document where
  marked := D.marked
  opening := D.opening
  inner := D.inner
  closing := D.closing
  body := D.body ++ more
  cut := by
    have hcut := D.cut.append (D.not_isFinal hfeed) (D.length_text ▸ h)
    rwa [List.cons_append, List.append_assoc] at hcut
  opens := D.opens
  within := D.within
  closes := D.closes

variable (hfeed : D.text.getLast? = some '\n') {more : List Line} (h : IsCut D.text.length more)

theorem text_extend : (D.extend hfeed h).text = D.text ++ more.flatMap Line.chars := by
  show D.mark ++ (D.opening :: (D.inner ++ D.closing :: (D.body ++ more))).flatMap Line.chars = _
  rw [text, lines, List.append_assoc, ← List.flatMap_append, List.cons_append, List.append_assoc,
    List.cons_append]

theorem bodyLines_extend : (D.extend hfeed h).bodyLines =
    D.bodyLines ++ more.map fun l => BodyLine.read l.start l.content :=
  List.map_append

/-- **What stands behind a document is read as behind a bare front matter.** -/
theorem joins_extend (hfeed : D.text.getLast? = some '\n') (s : List Char) {n : ℕ}
    (hn : D.text.length = bareBlock.length + n) :
    Reading.Joins (Reading.ofText D.text) (Reading.ofText (bareBlock.toList ++ s)) n
      (Reading.ofText (D.text ++ s)) := by
  have hchars : ∀ start, (Text.lines start s).flatMap Line.chars = s := fun start => by
    rw [List.flatMap_def, lines_flatten]
  set B := bare (Text.lines bareBlock.length s) (isCut_lines _ s) with hB
  set W := D.extend hfeed (isCut_lines _ s) with hW
  have htail : bareBlock.toList ++ s = B.text := by rw [hB, text_bare, hchars]
  have hwhole : D.text ++ s = W.text := by rw [hW, text_extend, hchars]
  -- the lines behind the document are those behind the bare front matter, at another place
  have hbody : W.bodyLines = D.bodyLines ++
      B.bodyLines.map fun r => (r.1.move (shift n), r.2.map (ParseFault.move (shift n))) := by
    rw [hW, bodyLines_extend, show D.text.length = shift n bareBlock.length from hn, lines_shift,
      (relocates_move fun l _ => rigid_shift n l.start _).map_bodyLine]
    rfl
  rw [htail, hwhole]
  refine ⟨⟨_, _, _, D.journal_ofText, B.journal_ofText, W.journal_ofText, rfl, ?_⟩, ?_⟩
  · show W.bodyLines.map Prod.fst = D.bodyLines.map Prod.fst ++ (B.bodyLines.map Prod.fst).map _
    rw [hbody, List.map_append, List.map_map, List.map_map]
    rfl
  · rw [D.faults_ofText, B.faults_ofText, W.faults_ofText]
    show D.blockLines.filterMap _ ++ W.bodyLines.filterMap Prod.snd =
      (D.blockLines.filterMap _ ++ D.bodyLines.filterMap Prod.snd) ++
        (B.bodyLines.filterMap Prod.snd).map _
    rw [hbody, List.filterMap_append, filterMap_snd_move, List.append_assoc]

end Document

/-! ### Texts put together -/

/-- A text that ends in a line feed and has a journal is read on its own in front of any other. -/
theorem exists_joins {a : String} {limit : ℕ} {reading : Reading}
    (hread : Journal.read a limit = .ok reading) (hj : reading.journal.isSome)
    (hfeed : a.toList.getLast? = some '\n') :
    ∃ n, a.length = bareBlock.length + n ∧
      ∀ b : String, (limit = 0 ∨ (a ++ b).length ≤ limit) → ∃ tail whole,
        Journal.read (bareBlock ++ b) limit = .ok tail ∧ Journal.read (a ++ b) limit = .ok whole ∧
          reading.Joins tail n whole := by
  obtain ⟨j, hj⟩ := Option.isSome_iff_exists.mp hj
  obtain ⟨-, rfl⟩ := Journal.read_eq_ok_iff.mp hread
  obtain ⟨D, htext, -⟩ := exists_document hj
  rw [← htext] at hfeed
  have hlength : a.length = D.text.length := by rw [htext, String.length_toList]
  obtain ⟨n, hn⟩ := Nat.exists_eq_add_of_le (D.length_bareBlock_le hfeed)
  refine ⟨n, hlength.trans hn, fun b hsize => ?_⟩
  have hjoins := D.joins_extend hfeed b.toList hn
  rw [htext, ← String.toList_append, ← String.toList_append] at hjoins
  have hle : limit = 0 ∨ (bareBlock ++ b).length ≤ limit := by
    rw [String.length_append] at hsize ⊢
    omega
  exact ⟨_, _, Journal.read_of_le hle, Journal.read_of_le hsize, hjoins⟩

/-- **Reading goes line by line.** If a text that ends in a line feed has a journal, a text that
begins with it has the same front matter, and the lines and the faults of the two parts, each part
read by itself. So what is read of a part in the middle does not depend on what stands before and
behind it. -/
theorem read_append {a : String} {limit : ℕ} {reading : Reading}
    (hread : Journal.read a limit = .ok reading) (hj : reading.journal.isSome)
    (hfeed : a.toList.getLast? = some '\n') :
    ∃ n, a.length = bareBlock.length + n ∧
      (∀ b : String, (limit = 0 ∨ (a ++ b).length ≤ limit) → ∃ tail whole,
        Journal.read (bareBlock ++ b) limit = .ok tail ∧ Journal.read (a ++ b) limit = .ok whole ∧
          reading.Joins tail n whole) ∧
      ∀ b c : String, b.toList.getLast? = some '\n' →
        (limit = 0 ∨ (a ++ b ++ c).length ≤ limit) → ∃ middle joined tail whole,
          Journal.read (bareBlock ++ b) limit = .ok middle ∧
          Journal.read (bareBlock ++ c) limit = .ok tail ∧
          Journal.read (a ++ b ++ c) limit = .ok whole ∧
          reading.Joins middle n joined ∧ joined.Joins tail (n + b.length) whole := by
  obtain ⟨n, hn, hjoins⟩ := exists_joins hread hj hfeed
  refine ⟨n, hn, hjoins, fun b c hb hsize => ?_⟩
  have hsize' : limit = 0 ∨ (a ++ b).length ≤ limit := by
    rw [String.length_append] at hsize
    omega
  obtain ⟨middle, joined, hmiddle, hjoined, hfirst⟩ := hjoins b hsize'
  obtain ⟨_, _, k, -, -, hk, -⟩ := hfirst.journal
  have hends : (a ++ b).toList.getLast? = some '\n' := by
    rw [String.toList_append, List.getLast?_append, hb]
    rfl
  obtain ⟨n', hn', hrest⟩ := exists_joins hjoined (by rw [hk]; rfl) hends
  obtain ⟨tail, whole, htail, hwhole, hsecond⟩ := hrest c hsize
  obtain rfl : n' = n + b.length := by
    rw [String.length_append] at hn'
    omega
  exact ⟨middle, joined, tail, whole, hmiddle, htail, hwhole, hfirst, hsecond⟩

/-- A text with a front matter, a line that is an entry and one that cannot be read. -/
def openText : String := "---\ndate: 2024-01-03\n---\n- 09:00-10:00 1.00 read\n- 9\n"

theorem read_append_openText : ∃ reading, Journal.read openText Journal.defaultLimit = .ok reading ∧
    reading.journal.isSome ∧ openText.toList.getLast? = some '\n' ∧
    ∃ n, openText.length = bareBlock.length + n ∧
      (∀ b : String, (Journal.defaultLimit = 0 ∨ (openText ++ b).length ≤ Journal.defaultLimit) →
        ∃ tail whole, Journal.read (bareBlock ++ b) Journal.defaultLimit = .ok tail ∧
          Journal.read (openText ++ b) Journal.defaultLimit = .ok whole ∧
          reading.Joins tail n whole) ∧
      ∀ b c : String, b.toList.getLast? = some '\n' →
        (Journal.defaultLimit = 0 ∨ (openText ++ b ++ c).length ≤ Journal.defaultLimit) →
          ∃ middle joined tail whole,
            Journal.read (bareBlock ++ b) Journal.defaultLimit = .ok middle ∧
            Journal.read (bareBlock ++ c) Journal.defaultLimit = .ok tail ∧
            Journal.read (openText ++ b ++ c) Journal.defaultLimit = .ok whole ∧
            reading.Joins middle n joined ∧ joined.Joins tail (n + b.length) whole := by
  have hread : Journal.read openText Journal.defaultLimit = .ok (Reading.ofText openText.toList) :=
    Journal.read_of_le (by decide +kernel)
  have hj : (Reading.ofText openText.toList).journal.isSome := by decide +kernel
  have hfeed : openText.toList.getLast? = some '\n' := by decide +kernel
  exact ⟨_, hread, hj, hfeed, read_append hread hj hfeed⟩

end TimeJournal
