import TimeJournal.Proofs.Journal.Layout
import TimeJournal.Proofs.Lint.Relocation
import TimeJournal.Proofs.Edit.LineEdit

/-! # Corrections

What there is to correct in a journal, listed in one pass from its beginning to its end, each entry in
view of the corrections before it: the date that is not the one in the file name; the start time of an
entry that is not the instant at which the entry before it stopped; the duration of an entry that its
end time and its start time, the corrected one, do not give. `TextEdit.applyAll` makes edits that
follow one another in a text in one pass over it.

* `Journal.pairwise_corrections`: the corrections of a journal that was read from a text follow one
  another.
* `TextEdit.applyAll_cons`: the first edit can be made alone, then the others at their new places. -/

namespace TimeJournal

open Lint

/-! ### One entry -/

/-- Whether both times have an instant, and not the same one. -/
def differ (date : Option Date) (s t : TimeToken) : Bool :=
  match instant? date s, instant? date t with
  | some a, some b => a != b
  | _, _ => false

theorem differ_self (date : Option Date) (t : TimeToken) : differ date t t = false := by
  unfold differ
  rcases instant? date t with _ | a
  · rfl
  · simp

/-- The start time that an entry is to have behind an end time. -/
def rightStart (date : Option Date) (previous : Option (Located TimeToken)) (e : Entry) :
    TimeToken :=
  match previous with
  | some p => if differ date p.value e.start.value then p.value else e.start.value
  | none => e.start.value

/-- The correction of the start time. -/
def startEdits (date : Option Date) (previous : Option (Located TimeToken)) (e : Entry) :
    List TextEdit :=
  match previous with
  | some p => if differ date p.value e.start.value then [⟨e.start.span, p.value.raw⟩] else []
  | none => []

/-- The correction of the duration of an entry that starts at a time; half of the last decimal is no
mistake. -/
def durationEdits (date : Option Date) (start : TimeToken) (e : Entry) : List TextEdit :=
  match e.duration.part?, instant? date start, instant? date e.stop.value with
  | some d, some a, some b =>
    let actual := 60 * (b.minutes - a.minutes)
    if a.minutes ≤ b.minutes ∧ defaultTolerance < ((d.seconds : Int) - actual).natAbs then
      [⟨d.span, Hours.render actual⟩]
    else []
  | _, _, _ => []

/-- The corrections of an entry behind an end time. -/
def entryEdits (date : Option Date) (previous : Option (Located TimeToken)) (e : Entry) :
    List TextEdit :=
  startEdits date previous e ++ durationEdits date (rightStart date previous e) e

/-! ### The journal -/

/-- The correction of the date. -/
def dateEdits (fileDate : Option Date) (f : FrontMatter) : List TextEdit :=
  match f.date?, fileDate with
  | some d, some expected => if d.value = expected then [] else [⟨d.span, expected.toString⟩]
  | _, _ => []

/-- The date that a journal is to have. -/
def rightDate (fileDate : Option Date) (j : Journal) : Option Date :=
  (reference j).map fun date => fileDate.getD date

/-- The corrections of a journal, from its beginning to its end. -/
def Journal.corrections (fileDate : Option Date) (j : Journal) : List TextEdit :=
  dateEdits fileDate j.frontMatter ++
    j.chain.flatMap fun link => entryEdits (rightDate fileDate j) link.1 link.2

/-! ### Edits in one pass -/

namespace TextEdit

/-- What a text is from an offset on after edits that follow one another. -/
def applyAll (pos : ℕ) : List TextEdit → List Char → List Char
  | [], s => s.drop pos
  | e :: es, s =>
    (s.drop pos).take (e.span.start - pos) ++ e.newText.toList ++ applyAll e.span.stop es s

/-- An edit at another place. -/
def shift (m : ℕ →o ℕ) (x : TextEdit) : TextEdit := { x with span := x.span.move m }

theorem applyAll_drop {pos k : ℕ} {es : List TextEdit} (h : ∀ x ∈ es, pos + k ≤ x.span.start)
    (s : List Char) : applyAll pos es s = (s.drop pos).take k ++ applyAll (pos + k) es s := by
  cases es with
  | nil =>
    rw [applyAll, applyAll, ← List.drop_drop, List.take_append_drop]
  | cons x es =>
    have hx := h x List.mem_cons_self
    obtain ⟨n, hn⟩ := Nat.exists_eq_add_of_le hx
    rw [applyAll, applyAll, hn, show pos + k + n - pos = k + n by omega,
      show pos + k + n - (pos + k) = n by omega, List.take_add, ← List.drop_drop]
    simp only [List.append_assoc]

theorem length_front {e : TextEdit} {s : List Char} (hs : e.span.stop ≤ s.length) :
    (s.take e.span.start ++ e.newText.toList).length = e.span.start + e.newText.length := by
  have hle := e.span.start_le_stop
  rw [List.length_append, List.length_take, String.length_toList]
  omega

/-- Behind an edit nothing changes but the offsets. -/
theorem applyAll_shift {e : TextEdit} {s : List Char} (hs : e.span.stop ≤ s.length)
    {es : List TextEdit} (h : ∀ x ∈ es, e.span.stop ≤ x.span.start) (k : ℕ) :
    applyAll (e.move (e.span.stop + k)) (es.map (shift e.move)) (splice e.span e.newText.toList s) =
      applyAll (e.span.stop + k) es s := by
  have hdrop : ∀ k, (splice e.span e.newText.toList s).drop (e.move (e.span.stop + k)) =
      s.drop (e.span.stop + k) := by
    intro k
    rw [move_stop_add, splice, ← length_front hs, List.drop_append, List.drop_drop]
    simp
  induction es generalizing k with
  | nil => exact hdrop k
  | cons x es ih =>
    obtain ⟨n, hn⟩ := Nat.exists_eq_add_of_le (h x List.mem_cons_self)
    obtain ⟨n', hn'⟩ := Nat.exists_eq_add_of_le (hn ▸ x.span.start_le_stop)
    have hrest := ih (fun y hy => h y (List.mem_cons_of_mem _ hy)) (n + n')
    rw [← Nat.add_assoc, ← hn'] at hrest
    rw [List.map_cons, applyAll, applyAll, hdrop]
    show _ ++ x.newText.toList ++ applyAll (e.move x.span.stop) _ _ = _
    rw [hrest]
    show (s.drop (e.span.stop + k)).take (e.move x.span.start - e.move (e.span.stop + k)) ++
      _ ++ _ = _
    rw [hn, move_stop_add, move_stop_add]
    congr 3
    omega

/-- **The first edit can be made alone, then the others at their new places.** -/
theorem applyAll_cons {e : TextEdit} {s : List Char} (hs : e.span.stop ≤ s.length)
    {es : List TextEdit} (h : ∀ x ∈ es, e.span.stop ≤ x.span.start) :
    applyAll 0 (e :: es) s =
      applyAll 0 (es.map (shift e.move)) (splice e.span e.newText.toList s) := by
  have hmove := e.move_stop_add 0
  have hplace : ∀ y ∈ es.map (shift e.move),
      0 + (e.span.start + e.newText.length) ≤ y.span.start := by
    intro y hy
    obtain ⟨x, hx, rfl⟩ := List.mem_map.mp hy
    have hmono := e.move.monotone (h x hx)
    rw [Nat.add_zero] at hmove
    rw [hmove] at hmono
    show _ ≤ e.move x.span.start
    omega
  have hfront : (splice e.span e.newText.toList s).take (e.span.start + e.newText.length) =
      s.take e.span.start ++ e.newText.toList := by
    rw [splice, ← length_front hs, List.take_left]
  have hback := applyAll_shift hs h 0
  rw [hmove] at hback
  rw [applyAll_drop hplace, List.drop_zero, hfront, Nat.zero_add, applyAll, List.drop_zero,
    Nat.sub_zero]
  exact congrArg _ hback.symm

theorem applyAll_nil (s : List Char) : applyAll 0 [] s = s := List.drop_zero

end TextEdit

/-! ### Corrections at other places -/

section Move

variable (m : ℕ →o ℕ) (date : Option Date)

theorem rightStart_move (previous : Option (Located TimeToken)) (e : Entry) :
    rightStart date (previous.map (Located.move m)) (e.move m) = rightStart date previous e := by
  cases previous <;> rfl

theorem startEdits_move (previous : Option (Located TimeToken)) (e : Entry) :
    startEdits date (previous.map (Located.move m)) (e.move m) =
      (startEdits date previous e).map (TextEdit.shift m) := by
  rcases previous with _ | p
  · rfl
  · show (if differ date p.value e.start.value then _ else _) = _
    unfold startEdits
    dsimp only
    split_ifs <;> rfl

theorem durationEdits_move (start : TimeToken) (e : Entry) :
    durationEdits date start (e.move m) = (durationEdits date start e).map (TextEdit.shift m) := by
  have hstop : (e.move m).stop.value = e.stop.value := rfl
  unfold durationEdits
  rw [Entry.part?_move, hstop]
  rcases e.duration.part? with _ | d
  · rfl
  rcases instant? date start with _ | a
  · rfl
  rcases instant? date e.stop.value with _ | b
  · rfl
  rw [Option.map_some]
  show (if a.minutes ≤ b.minutes ∧ defaultTolerance <
    ((d.seconds : ℤ) - (60 * (b.minutes - a.minutes) : ℕ)).natAbs then _ else _) = _
  dsimp only
  split_ifs <;> rfl

theorem entryEdits_move (previous : Option (Located TimeToken)) (e : Entry) :
    entryEdits date (previous.map (Located.move m)) (e.move m) =
      (entryEdits date previous e).map (TextEdit.shift m) := by
  rw [entryEdits, entryEdits, startEdits_move, rightStart_move, durationEdits_move, List.map_append]

theorem dateEdits_move (fileDate : Option Date) (f : FrontMatter) :
    dateEdits fileDate (f.move m) = (dateEdits fileDate f).map (TextEdit.shift m) := by
  unfold dateEdits
  rw [FrontMatter.date?_move]
  rcases f.date? with _ | d
  · rfl
  rcases fileDate with _ | expected
  · rfl
  rw [Option.map_some]
  show (if d.value = expected then _ else _) = _
  dsimp only
  split_ifs <;> rfl

/-- **The corrections of a moved journal are those of the journal, moved.** -/
theorem Journal.corrections_move (fileDate : Option Date) (j : Journal) :
    (j.move m).corrections fileDate = (j.corrections fileDate).map (TextEdit.shift m) := by
  have hdate : rightDate fileDate (j.move m) = rightDate fileDate j := by
    rw [rightDate, reference_move, rightDate]
  unfold corrections
  rw [hdate, Journal.chain_move, List.map_append, List.map_flatMap, List.flatMap_map]
  show dateEdits fileDate (j.frontMatter.move m) ++ _ = _
  rw [dateEdits_move]
  congr 1
  exact List.flatMap_congr fun link _ => entryEdits_move m _ link.1 link.2

end Move

/-! ### The order of corrections -/

theorem mem_dateEdits {fileDate : Option Date} {f : FrontMatter} {x : TextEdit}
    (h : x ∈ dateEdits fileDate f) : ∃ d expected, f.date? = some d ∧ fileDate = some expected ∧
      d.value ≠ expected ∧ x = ⟨d.span, expected.toString⟩ := by
  unfold dateEdits at h
  rcases hd : f.date? with _ | d
  · rw [hd] at h; cases h
  rcases fileDate with _ | expected
  · rw [hd] at h; cases h
  rw [hd] at h
  dsimp only at h
  split_ifs at h with heq
  · cases h
  · exact ⟨d, expected, rfl, rfl, heq, List.mem_singleton.mp h⟩

theorem mem_startEdits {date : Option Date} {previous : Option (Located TimeToken)} {e : Entry}
    {x : TextEdit} (h : x ∈ startEdits date previous e) : ∃ p, previous = some p ∧
      differ date p.value e.start.value = true ∧ x = ⟨e.start.span, p.value.raw⟩ := by
  unfold startEdits at h
  rcases previous with _ | p
  · cases h
  · dsimp only at h
    by_cases hd : differ date p.value e.start.value = true
    · rw [if_pos hd] at h
      exact ⟨p, rfl, hd, List.mem_singleton.mp h⟩
    · rw [if_neg hd] at h
      cases h

theorem mem_durationEdits {date : Option Date} {start : TimeToken} {e : Entry} {x : TextEdit}
    (h : x ∈ durationEdits date start e) : ∃ d a b, e.duration.part? = some d ∧
      instant? date start = some a ∧ instant? date e.stop.value = some b ∧
      a.minutes ≤ b.minutes ∧
      defaultTolerance < ((d.seconds : ℤ) - (60 * (b.minutes - a.minutes) : ℕ)).natAbs ∧
      x = ⟨d.span, Hours.render (60 * (b.minutes - a.minutes))⟩ := by
  unfold durationEdits at h
  rcases hd : e.duration.part? with _ | d
  · rw [hd] at h; cases h
  rcases ha : instant? date start with _ | a
  · rw [hd, ha] at h; cases h
  rcases hb : instant? date e.stop.value with _ | b
  · rw [hd, ha, hb] at h; cases h
  rw [hd, ha, hb] at h
  dsimp only at h
  split at h
  · rename_i hcond
    exact ⟨d, a, b, rfl, rfl, rfl, hcond.1, hcond.2, List.mem_singleton.mp h⟩
  · cases h

section Order

variable {date : Option Date} {previous : Option (Located TimeToken)} {e : Entry}

/-- The corrections of an entry lie inside it. -/
theorem within_entryEdits (he : e.IsLaidOut) {x : TextEdit}
    (hx : x ∈ entryEdits date previous e) :
    e.span.start ≤ x.span.start ∧ x.span.stop ≤ e.span.stop := by
  have hlt := he.lt_start
  have hspan := e.start.span.start_le_stop
  unfold entryEdits at hx
  rcases List.mem_append.mp hx with hx | hx
  · obtain ⟨p, -, -, rfl⟩ := mem_startEdits hx
    exact ⟨hlt.le, he.start_le⟩
  · obtain ⟨d, a, b, hd, -, -, -, -, rfl⟩ := mem_durationEdits hx
    have hstart := he.lt_duration d hd
    exact ⟨by dsimp only; omega, he.duration_le d hd⟩

theorem length_le_one_startEdits (date : Option Date) (previous : Option (Located TimeToken))
    (e : Entry) : (startEdits date previous e).length ≤ 1 := by
  unfold startEdits
  split
  · split_ifs <;> simp
  · simp

theorem length_le_one_durationEdits (date : Option Date) (start : TimeToken) (e : Entry) :
    (durationEdits date start e).length ≤ 1 := by
  unfold durationEdits
  split
  · dsimp only
    split_ifs <;> simp
  · simp

theorem length_le_one_dateEdits (fileDate : Option Date) (f : FrontMatter) :
    (dateEdits fileDate f).length ≤ 1 := by
  unfold dateEdits
  split
  · split_ifs <;> simp
  · simp

theorem pairwise_of_length_le_one {α : Type} {R : α → α → Prop} {xs : List α} (h : xs.length ≤ 1) :
    xs.Pairwise R := by
  rcases xs with _ | ⟨x, _ | ⟨y, xs⟩⟩
  · exact List.Pairwise.nil
  · exact List.pairwise_singleton R x
  · simp at h

theorem pairwise_entryEdits (he : e.IsLaidOut) :
    (entryEdits date previous e).Pairwise fun x y => x.span.stop ≤ y.span.start := by
  refine List.pairwise_append.mpr
    ⟨pairwise_of_length_le_one (length_le_one_startEdits date previous e),
      pairwise_of_length_le_one (length_le_one_durationEdits date _ e), fun x hx y hy => ?_⟩
  obtain ⟨p, -, -, rfl⟩ := mem_startEdits hx
  obtain ⟨d, a, b, hd, -, -, -, -, rfl⟩ := mem_durationEdits hy
  exact (he.lt_duration d hd).le

theorem map_snd_chain (previous : Option (Located TimeToken)) (es : List Entry) :
    (chain previous es).map Prod.snd = es := by
  induction es generalizing previous with
  | nil => rfl
  | cons e es ih => rw [chain_cons, List.map_cons, ih]

/-- **The corrections of a journal follow one another.** -/
theorem Journal.pairwise_corrections {j : Journal} (h : j.IsLaidOut) (fileDate : Option Date) :
    (j.corrections fileDate).Pairwise fun x y => x.span.stop ≤ y.span.start := by
  have hlaid : ∀ link ∈ j.chain, link.2.IsLaidOut := fun link hlink =>
    h.entry link.2 (mem_of_mem_chain hlink)
  have hchain : j.chain.Pairwise fun a b => a.2.span.stop ≤ b.2.span.start := by
    have hp := h.pairwise
    rw [← map_snd_chain none j.entries, List.pairwise_map] at hp
    exact hp
  refine List.pairwise_append.mpr ⟨?_, List.pairwise_flatMap.mpr ⟨fun link hlink =>
    pairwise_entryEdits (hlaid link hlink), ?_⟩, fun x hx y hy => ?_⟩
  · exact pairwise_of_length_le_one (length_le_one_dateEdits fileDate j.frontMatter)
  · refine (List.Pairwise.and_mem.mp hchain).imp ?_
    rintro a b ⟨ha, hb, hab⟩ x hx y hy
    have hx' := (within_entryEdits (hlaid a ha) hx).2
    have hy' := (within_entryEdits (hlaid b hb) hy).1
    omega
  · obtain ⟨link, hlink, hy⟩ := List.mem_flatMap.mp hy
    have hy' := (within_entryEdits (hlaid link hlink) hy).1
    obtain ⟨d, expected, hd, -, -, rfl⟩ := mem_dateEdits hx
    exact (h.date d hd link.2 (mem_of_mem_chain hlink)).trans hy'

end Order

end TimeJournal
