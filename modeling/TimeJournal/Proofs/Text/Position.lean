import Mathlib.Data.List.DropRight
import Mathlib.Data.Prod.Lex
import TimeJournal.Proofs.Text.LineStarts

/-! # The order of positions

Positions are compared by their lines, and on one line by their characters. `Position.behind` is the
position behind some text, found by counting: so many line feeds, and so many characters behind the
last of them. It grows with every character (`Position.behind_lt_append`).

A line index looks the same position up in its table (`LineIndex.position_eq`), so it keeps the order
of offsets. The way back is the best approximation from below: `LineIndex.le_offset_iff` says that
the offset of a position is the last one whose position does not lie behind it. What there is to say
about the way back follows from that: it keeps the order (`LineIndex.offset_mono`), and it leads back
to a position no further on (`LineIndex.position_offset_le`), which is the same one exactly if the
text has such a place (`LineIndex.position_offset_eq_iff`). -/

namespace TimeJournal.Text

namespace Position

/-- What positions are compared by. -/
def key (p : Position) : ℕ ×ₗ ℕ := toLex (p.line, p.character)

theorem key_injective : Function.Injective key := by
  rintro ⟨line, character⟩ ⟨line', character'⟩ h
  have hpair : (line, character) = (line', character') := h
  rw [Prod.mk.injEq] at hpair
  rw [Position.mk.injEq]
  exact hpair

instance : PartialOrder Position := PartialOrder.lift key key_injective

theorem le_iff {p q : Position} :
    p ≤ q ↔ p.line < q.line ∨ p.line = q.line ∧ p.character ≤ q.character :=
  Prod.Lex.toLex_le_toLex

theorem lt_iff {p q : Position} :
    p < q ↔ p.line < q.line ∨ p.line = q.line ∧ p.character < q.character :=
  Prod.Lex.toLex_lt_toLex

/-! ### Counting -/

/-- The position behind a text: the number of its line feeds, and of the characters behind the last
of them. -/
def behind (s : List Char) : Position := ⟨s.count '\n', (s.rtakeWhile (· != '\n')).length⟩

theorem behind_concat_feed (s : List Char) : behind (s ++ ['\n']) = ⟨(behind s).line + 1, 0⟩ := by
  unfold behind
  rw [List.count_append, List.count_singleton_self, List.rtakeWhile_concat_neg _ _ _ (by decide)]
  rfl

theorem behind_concat_of_ne (s : List Char) {c : Char} (hc : c ≠ '\n') :
    behind (s ++ [c]) = ⟨(behind s).line, (behind s).character + 1⟩ := by
  have hp : (c != '\n') = true := by simpa using hc
  unfold behind
  rw [List.count_append, List.count_singleton, List.rtakeWhile_concat_pos (· != '\n') _ _ hp,
    List.length_append, if_neg (by simpa using hc)]
  rfl

theorem behind_lt_concat (s : List Char) (c : Char) : behind s < behind (s ++ [c]) := by
  rw [lt_iff]
  by_cases hc : c = '\n'
  · rw [hc, behind_concat_feed]
    exact Or.inl (Nat.lt_succ_self _)
  · rw [behind_concat_of_ne s hc]
    exact Or.inr ⟨rfl, Nat.lt_succ_self _⟩

/-- **The position moves on with every character.** -/
theorem behind_lt_append (s : List Char) {t : List Char} (ht : t ≠ []) :
    behind s < behind (s ++ t) := by
  induction t using List.reverseRecOn with
  | nil => exact absurd rfl ht
  | append_singleton t c ih =>
    rw [← List.append_assoc]
    rcases eq_or_ne t [] with rfl | hne
    · rw [List.append_nil]
      exact behind_lt_concat s c
    · exact (ih hne).trans (behind_lt_concat _ c)

/-- The position of a place after a character has been put in front of the text. -/
def shift (c : Char) (p : Position) : Position :=
  if c = '\n' then ⟨p.line + 1, p.character⟩
  else if p.line = 0 then ⟨0, p.character + 1⟩
  else p

theorem shift_feed (p : Position) : shift '\n' p = ⟨p.line + 1, p.character⟩ := rfl

theorem shift_of_ne {c : Char} (hc : c ≠ '\n') (p : Position) :
    shift c p = if p.line = 0 then ⟨0, p.character + 1⟩ else p := if_neg hc

theorem behind_cons (c : Char) (s : List Char) : behind (c :: s) = shift c (behind s) := by
  induction s using List.reverseRecOn with
  | nil =>
    by_cases hc : c = '\n'
    · rw [hc]
      rfl
    · rw [shift_of_ne hc]
      exact behind_concat_of_ne [] hc
  | append_singleton s d ih =>
    rw [← List.cons_append]
    by_cases hd : d = '\n'
    · rw [hd, behind_concat_feed, behind_concat_feed, ih]
      unfold shift
      split_ifs with hc hline hnext hnext
      · rfl
      · cases hnext
      · rw [hline]
      · cases hnext
      · rfl
    · rw [behind_concat_of_ne _ hd, behind_concat_of_ne _ hd, ih]
      unfold shift
      split_ifs <;> rfl

/-! ### The places of a text -/

/-- A text has such a place: the position is on one of its lines, at or in front of the end of
it. -/
def IsIn (p : Position) (text : List Char) : Prop :=
  ∃ line, (text.splitOn '\n')[p.line]? = some line ∧ p.character ≤ line.length

theorem isIn_nil {p : Position} : p.IsIn [] ↔ p = ⟨0, 0⟩ := by
  obtain ⟨line, character⟩ := p
  unfold IsIn
  rw [List.splitOn_nil]
  cases line with
  | zero => simp
  | succ line => simp

theorem isIn_cons_feed {p : Position} {text : List Char} :
    p.IsIn ('\n' :: text) ↔ p = ⟨0, 0⟩ ∨ ∃ q : Position, q.IsIn text ∧ shift '\n' q = p := by
  have hsplit : ('\n' :: text).splitOn '\n' = [] :: text.splitOn '\n' := by
    rw [List.splitOn_cons_eq_if_modifyHead, if_pos (beq_self_eq_true '\n')]
  obtain ⟨line, character⟩ := p
  unfold IsIn
  rw [hsplit]
  simp only [shift_feed]
  cases line with
  | zero => simp
  | succ line =>
    constructor
    · exact fun h => Or.inr ⟨⟨line, character⟩, h, rfl⟩
    · rintro (h | ⟨q, hq, h⟩)
      · cases h
      · cases h
        exact hq

theorem isIn_cons_of_ne {p : Position} {c : Char} (hc : c ≠ '\n') {text : List Char} :
    p.IsIn (c :: text) ↔ p = ⟨0, 0⟩ ∨ ∃ q : Position, q.IsIn text ∧ shift c q = p := by
  obtain ⟨first, rest, hfirst⟩ := List.exists_cons_of_ne_nil (List.splitOn_ne_nil '\n' text)
  have hsplit : (c :: text).splitOn '\n' = (c :: first) :: rest := by
    rw [List.splitOn_cons_eq_if_modifyHead, if_neg (by simpa using hc), hfirst]
    rfl
  obtain ⟨line, character⟩ := p
  unfold IsIn
  rw [hsplit, hfirst]
  simp only [shift_of_ne hc]
  constructor
  · rintro ⟨l, hl, hle⟩
    cases line with
    | zero =>
      cases hl
      cases character with
      | zero => exact Or.inl rfl
      | succ character =>
        exact Or.inr ⟨⟨0, character⟩, ⟨first, rfl, Nat.le_of_succ_le_succ hle⟩, rfl⟩
    | succ line => exact Or.inr ⟨⟨line + 1, character⟩, ⟨l, hl, hle⟩, rfl⟩
  · rintro (h | ⟨⟨line', character'⟩, ⟨l, hl, hle⟩, h⟩)
    · cases h
      exact ⟨c :: first, rfl, Nat.zero_le _⟩
    · cases line' with
      | zero =>
        cases hl
        cases h
        exact ⟨c :: first, rfl, Nat.succ_le_succ hle⟩
      | succ line' =>
        cases h
        exact ⟨l, hl, hle⟩

/-- With a character in front a text has the place in front of this character, and the places that
it had before. -/
theorem isIn_cons {p : Position} {c : Char} {text : List Char} :
    p.IsIn (c :: text) ↔ p = ⟨0, 0⟩ ∨ ∃ q : Position, q.IsIn text ∧ shift c q = p := by
  rcases eq_or_ne c '\n' with rfl | hc
  · exact isIn_cons_feed
  · exact isIn_cons_of_ne hc

/-- **The places of a text are the positions behind its beginnings.** -/
theorem isIn_iff_behind {p : Position} {text : List Char} :
    p.IsIn text ↔ ∃ s, s <+: text ∧ behind s = p := by
  induction text generalizing p with
  | nil =>
    rw [isIn_nil]
    constructor
    · exact fun h => ⟨[], List.prefix_rfl, h.symm⟩
    · rintro ⟨s, hs, rfl⟩
      rw [List.prefix_nil.mp hs]
      rfl
  | cons c text ih =>
    rw [isIn_cons]
    constructor
    · rintro (rfl | ⟨q, hq, rfl⟩)
      · exact ⟨[], List.nil_prefix, rfl⟩
      · obtain ⟨s, hs, rfl⟩ := ih.mp hq
        exact ⟨c :: s, (List.prefix_cons_inj c).mpr hs, behind_cons c s⟩
    · rintro ⟨s, hs, rfl⟩
      rcases List.prefix_cons_iff.mp hs with rfl | ⟨s, rfl, hprefix⟩
      · exact Or.inl rfl
      · exact Or.inr ⟨behind s, ih.mpr ⟨s, hprefix, rfl⟩, (behind_cons c s).symm⟩

end Position

/-! ### The table of an index -/

theorem lineStarts_append (s t : List Char) :
    lineStarts (s ++ t) = lineStarts s ++ feeds s.length t := by
  rw [lineStarts_eq, lineStarts_eq, feeds_append, Nat.zero_add]
  rfl

theorem le_of_mem_feeds {s : List Char} {place o : ℕ} (h : o ∈ feeds place s) :
    o ≤ place + s.length := by
  induction s generalizing place with
  | nil => cases h
  | cons c s ih =>
    rw [List.length_cons]
    rcases List.mem_append.mp h with h | h
    · split_ifs at h
      · rw [List.mem_singleton.mp h]
        omega
      · cases h
    · have := ih h
      omega

theorem le_of_mem_lineStarts {s : List Char} {o : ℕ} (h : o ∈ lineStarts s) : o ≤ s.length := by
  rw [lineStarts_eq] at h
  rcases List.mem_cons.mp h with rfl | h
  · exact Nat.zero_le _
  · have := le_of_mem_feeds h
    omega

/-- The lines that begin at an offset or in front of it are those of the text up to there. -/
theorem takeWhile_lineStarts (s t : List Char) :
    (lineStarts (s ++ t)).takeWhile (· ≤ s.length) = lineStarts s := by
  have hbehind : (feeds s.length t).takeWhile (· ≤ s.length) = [] := by
    rw [List.takeWhile_eq_nil_iff]
    intro hpos
    have := lt_of_mem_feeds (List.get_mem _ ⟨0, hpos⟩)
    rw [decide_eq_true_iff]
    omega
  rw [lineStarts_append, List.takeWhile_append_of_pos, hbehind, List.append_nil]
  exact fun o ho => decide_eq_true (le_of_mem_lineStarts ho)

/-- **The table counts**: it has a line more than there are line feeds, and the last one begins
behind the last of them. -/
theorem exists_lineStarts_concat (s : List Char) : ∃ before start,
    lineStarts s = before ++ [start] ∧
      Position.behind s = ⟨before.length, s.length - start⟩ ∧ start ≤ s.length := by
  induction s using List.reverseRecOn with
  | nil => exact ⟨[], 0, rfl, rfl, le_rfl⟩
  | append_singleton s c ih =>
    obtain ⟨before, start, hstarts, hbehind, hle⟩ := ih
    rw [lineStarts_append, hstarts, List.length_append, List.length_singleton]
    by_cases hc : c = '\n'
    · refine ⟨before ++ [start], s.length + 1, ?_, ?_, le_rfl⟩
      · rw [hc]
        rfl
      · rw [hc, Position.behind_concat_feed, hbehind, List.length_append, List.length_singleton,
          Nat.sub_self]
    · refine ⟨before, start, ?_, ?_, by omega⟩
      · rw [feeds_eq_nil (by simpa using Ne.symm hc), List.append_nil]
      · rw [Position.behind_concat_of_ne s hc, hbehind, Nat.sub_add_comm hle]

namespace LineIndex

variable {text : List Char}

/-! ### From an offset to its position -/

/-- **The position of an offset is the one behind the text in front of it.** -/
theorem position_eq {o : ℕ} (h : o ≤ text.length) :
    (ofText text).position o = .behind (text.take o) := by
  have hlength : (text.take o).length = o := List.length_take_of_le h
  obtain ⟨before, start, hstarts, hbehind, -⟩ := exists_lineStarts_concat (text.take o)
  have htake := takeWhile_lineStarts (text.take o) (text.drop o)
  rw [List.take_append_drop, hlength, hstarts] at htake
  rw [position_of_takeWhile text h htake, hbehind, hlength]

/-- **Positions keep the order of offsets.** -/
theorem position_lt {o o' : ℕ} (h : o < o') (h' : o' ≤ text.length) :
    (ofText text).position o < (ofText text).position o' := by
  have hsplit : text.take o' = text.take o ++ (text.take o').drop o := by
    conv_lhs => rw [← List.take_append_drop o (text.take o'), List.take_take, min_eq_left h.le]
  have hne : (text.take o').drop o ≠ [] := by
    rw [Ne, List.drop_eq_nil_iff, List.length_take_of_le h']
    omega
  rw [position_eq (h.le.trans h'), position_eq h', hsplit]
  exact Position.behind_lt_append _ hne

theorem position_le {o o' : ℕ} (h : o ≤ o') (h' : o' ≤ text.length) :
    (ofText text).position o ≤ (ofText text).position o' := by
  rcases h.eq_or_lt with rfl | h
  · exact le_rfl
  · exact (position_lt h h').le

/-- Behind the text all offsets have one position. -/
theorem position_of_le {o : ℕ} (h : text.length ≤ o) :
    (ofText text).position o = (ofText text).position text.length := by
  unfold position
  rw [show min o (ofText text).text.length = min text.length (ofText text).text.length from
    (min_eq_right h).trans (min_self _).symm]

/-- The places of a text are the positions of its offsets. -/
theorem isIn_iff {p : Position} :
    p.IsIn text ↔ ∃ o ≤ text.length, (ofText text).position o = p := by
  rw [Position.isIn_iff_behind]
  constructor
  · rintro ⟨s, ⟨t, rfl⟩, rfl⟩
    have hle : s.length ≤ (s ++ t).length := by rw [List.length_append]; omega
    exact ⟨s.length, hle, by rw [position_eq hle, List.take_left]⟩
  · rintro ⟨o, ho, rfl⟩
    exact ⟨text.take o, List.take_prefix o text, (position_eq ho).symm⟩

/-! ### From a position to its offset -/

theorem contentStop_le (line : ℕ) : (ofText text).contentStop line ≤ text.length := by
  unfold contentStop
  split
  · rename_i next hnext
    have hle : next ≤ text.length := le_of_mem_lineStarts (List.mem_of_getElem? hnext)
    omega
  · exact le_rfl

theorem offset_le (p : Position) : (ofText text).offset p ≤ text.length := by
  unfold offset
  split
  · exact (min_le_right _ _).trans (contentStop_le _)
  · exact le_rfl

/-- A line that another one follows ends in front of the line feed there. -/
theorem contentStop_of_next {line start next : ℕ} (h : (ofText text).starts[line]? = some start)
    (hnext : (ofText text).starts[line + 1]? = some next) :
    start < next ∧ (ofText text).contentStop line = next - 1 := by
  refine ⟨?_, ?_⟩
  · obtain ⟨hlt, hget⟩ := List.getElem?_eq_some_iff.mp h
    obtain ⟨hlt', hget'⟩ := List.getElem?_eq_some_iff.mp hnext
    rw [← hget, ← hget']
    exact List.pairwise_iff_getElem.mp (pairwise_lineStarts text) line (line + 1) hlt hlt'
      (Nat.lt_succ_self line)
  · unfold contentStop
    rw [hnext]

/-- The last line ends where the text does. -/
theorem contentStop_of_last {line : ℕ} (h : (ofText text).starts[line + 1]? = none) :
    (ofText text).contentStop line = text.length := by
  unfold contentStop
  rw [h]
  rfl

theorem start_le_contentStop {line start : ℕ} (h : (ofText text).starts[line]? = some start) :
    start ≤ (ofText text).contentStop line := by
  rcases hnext : (ofText text).starts[line + 1]? with _ | next
  · rw [contentStop_of_last hnext]
    exact le_of_mem_lineStarts (List.mem_of_getElem? h)
  · obtain ⟨hlt, hstop⟩ := contentStop_of_next h hnext
    omega

/-- The offsets of a line are those from its beginning up to the end of its content. -/
theorem position_of_line {line start o : ℕ} (h : (ofText text).starts[line]? = some start)
    (ho : start ≤ o) (ho' : o ≤ (ofText text).contentStop line) :
    (ofText text).position o = ⟨line, o - start⟩ := by
  obtain ⟨hlt, hget⟩ : ∃ hlt : line < (lineStarts text).length, (lineStarts text)[line] = start :=
    List.getElem?_eq_some_iff.mp h
  -- the lines up to this one begin at the offset or in front of it, the next one behind it
  have hupTo : ∀ s ∈ (lineStarts text).take line ++ [start], decide (s ≤ o) = true := by
    intro s hs
    rw [decide_eq_true_iff]
    rcases List.mem_append.mp hs with hs | hs
    · obtain ⟨k, hk, rfl⟩ := List.mem_take_iff_getElem.mp hs
      have := List.pairwise_iff_getElem.mp (pairwise_lineStarts text) k line (by omega) hlt (by omega)
      omega
    · rw [List.mem_singleton.mp hs]
      exact ho
  have hbehind : ((lineStarts text).drop (line + 1)).takeWhile (· ≤ o) = [] := by
    rw [List.takeWhile_eq_nil_iff]
    intro hpos
    have hnext : (ofText text).starts[line + 1]? = some ((lineStarts text).drop (line + 1))[0] := by
      show (lineStarts text)[line + 1]? = _
      rw [← List.getElem?_eq_getElem hpos, List.getElem?_drop, Nat.add_zero]
    obtain ⟨hlt', hstop⟩ := contentStop_of_next h hnext
    rw [decide_eq_true_iff]
    show ¬ ((lineStarts text).drop (line + 1))[0] ≤ o
    omega
  have htake : (lineStarts text).takeWhile (· ≤ o) = (lineStarts text).take line ++ [start] := by
    have hsplit : lineStarts text =
        ((lineStarts text).take line ++ [start]) ++ (lineStarts text).drop (line + 1) := by
      rw [← hget, List.take_append_getElem, List.take_append_drop]
    conv_lhs => rw [hsplit]
    rw [List.takeWhile_append_of_pos hupTo, hbehind, List.append_nil]
  have hposition := position_of_takeWhile text (ho'.trans (contentStop_le line)) htake
  rwa [List.length_take_of_le hlt.le] at hposition

/-- **The content of a line holds no line feed**: behind one the next line begins. -/
theorem feed_notMem_lineText (line : ℕ) : '\n' ∉ (ofText text).lineText line := by
  intro h
  unfold lineText at h
  split at h
  swap
  · cases h
  rename_i start hstart
  have h := List.mem_reverse.mp ((List.dropWhile_suffix _).subset (List.mem_reverse.mp h))
  obtain ⟨k, hk, hfeed⟩ := List.mem_iff_getElem.mp h
  rw [List.getElem_take, List.getElem_drop] at hfeed
  rw [List.length_take, List.length_drop] at hk
  have hlt : start + k < text.length := by
    change k < min _ (text.length - start) at hk
    omega
  have hnext := position_of_line hstart (o := start + k + 1) (by omega) (by omega)
  rw [position_eq hlt, List.take_add_one, List.getElem?_eq_getElem hlt,
    show text[start + k] = '\n' from hfeed, Option.toList_some, Position.behind_concat_feed] at hnext
  have hcharacter := congrArg Position.character hnext
  change 0 = start + k + 1 - start at hcharacter
  omega

theorem offset_of_line {p : Position} {start : ℕ} (h : (ofText text).starts[p.line]? = some start) :
    (ofText text).offset p = min (start + p.character) ((ofText text).contentStop p.line) := by
  unfold offset
  rw [h]

/-- Behind the last line the offset is the end of the text. -/
theorem offset_of_none {p : Position} (h : (ofText text).starts[p.line]? = none) :
    (ofText text).offset p = text.length := by
  unfold offset
  rw [h]
  rfl

/-- **The offset of a position leads back to a position no further on.** -/
theorem position_offset_le (p : Position) :
    (ofText text).position ((ofText text).offset p) ≤ p := by
  rcases hstart : (ofText text).starts[p.line]? with _ | start
  · -- the text has no such line, so all of its places lie in front of the position
    have hlength : (lineStarts text).length ≤ p.line := List.getElem?_eq_none_iff.mp hstart
    obtain ⟨before, start, hstarts, hbehind, -⟩ := exists_lineStarts_concat text
    rw [hstarts, List.length_append, List.length_singleton] at hlength
    rw [offset_of_none hstart, position_eq le_rfl, List.take_length, hbehind, Position.le_iff]
    exact Or.inl hlength
  · have hle := start_le_contentStop hstart
    rw [offset_of_line hstart, position_of_line hstart (le_min (Nat.le_add_right _ _) hle)
      (min_le_right _ _), Position.le_iff]
    refine Or.inr ⟨rfl, ?_⟩
    show min _ _ - start ≤ _
    omega

/-- **The offset of a position is the last one whose position does not lie behind it.** -/
theorem le_offset_iff {o : ℕ} (h : o ≤ text.length) {p : Position} :
    o ≤ (ofText text).offset p ↔ (ofText text).position o ≤ p := by
  refine ⟨fun hle => (position_le hle (offset_le p)).trans (position_offset_le p), fun hle => ?_⟩
  rcases hstart : (ofText text).starts[p.line]? with _ | start
  · rw [offset_of_none hstart]
    exact h
  rw [offset_of_line hstart, Nat.le_min]
  -- an offset behind the line would be one behind the beginning of the next line
  have hstop : o ≤ (ofText text).contentStop p.line := by
    by_contra hlt
    rcases hnext : (ofText text).starts[p.line + 1]? with _ | next
    · rw [contentStop_of_last hnext] at hlt
      exact hlt h
    · obtain ⟨hlt', heq⟩ := contentStop_of_next hstart hnext
      have hbegin := position_of_line hnext le_rfl (start_le_contentStop hnext)
      have hle' : next ≤ o := by omega
      have hcontra := (position_le hle' h).trans hle
      rw [hbegin, Position.le_iff] at hcontra
      dsimp only at hcontra
      omega
  refine ⟨?_, hstop⟩
  rcases le_or_gt start o with ho | ho
  · rw [position_of_line hstart ho hstop, Position.le_iff] at hle
    dsimp only at hle
    omega
  · omega

/-- **Offsets keep the order of positions.** -/
theorem offset_mono {p q : Position} (h : p ≤ q) : (ofText text).offset p ≤ (ofText text).offset q :=
  (le_offset_iff (offset_le p)).mpr ((position_offset_le p).trans h)

/-- **The offset of a position leads back to it exactly if the text has such a place.** -/
theorem position_offset_eq_iff {p : Position} :
    (ofText text).position ((ofText text).offset p) = p ↔ p.IsIn text := by
  rw [isIn_iff]
  constructor
  · exact fun h => ⟨_, offset_le p, h⟩
  · rintro ⟨o, ho, rfl⟩
    rw [offset_position text ho]

end LineIndex

end TimeJournal.Text
