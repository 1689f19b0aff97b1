import Mathlib.Tactic.SplitIfs
import TimeJournal.Proofs.Journal.Stepping

/-! # Failures of productions

The productions share one place for the failure of the last one that failed, and what is reported is
taken from there. It belongs to what has just failed, since every production that fails records a
failure of its own, the same one whatever was recorded before (`Context.RecordsFailure`).

The production for entries reads what is left of a line in one go. `Context.entryByParts` reads it by
a production for each part, every one of which can fail: the dash, blanks, a time, another dash,
another time, blanks, and the fields behind them. Both are the same
(`Context.entry_eq_entryByParts`), so an entry fails with the failure of its first part that fails.

* `Cursor.Sees`: what is left of the line at a cursor, and where the cursor stands; behind some of it
  the rest is left (`Cursor.Sees.move`).
* `Context.blanks_eq`, `Context.time_eq`, `Context.rangeDash_eq`, `Context.fields_eq`: what each part
  makes of what it sees. -/

namespace TimeJournal

open Text

/-! ### What is left of a line -/

namespace Text

theorem contentOf_go (seen s : List Char) :
    contentOf.go seen s = seen.reverse ++ contentOf s := by
  induction s generalizing seen with
  | nil => exact (List.append_nil _).symm
  | cons c s ih =>
    rw [contentOf, contentOf.go, contentOf.go]
    split_ifs
    · exact (List.append_nil _).symm
    · rw [ih (c :: seen), ih [c], List.reverse_cons, List.append_assoc]
      rfl

theorem contentOf_cons (c : Char) (s : List Char) :
    contentOf (c :: s) = if atLineEnd (c :: s) then [] else c :: contentOf s := by
  rw [contentOf, contentOf.go, contentOf_go]
  rfl

theorem contentOf_prefix (s : List Char) : contentOf s <+: s := by
  induction s with
  | nil => exact List.prefix_rfl
  | cons c s ih =>
    rw [contentOf_cons]
    split_ifs
    · exact List.nil_prefix
    · exact List.prefix_cons_inj c |>.mpr ih

/-- Behind some of what is left of a line the rest of it is left. -/
theorem contentOf_drop {s a b : List Char} (h : contentOf s = a ++ b) :
    contentOf (s.drop a.length) = b := by
  induction a generalizing s with
  | nil => exact h
  | cons x a ih =>
    rcases s with _ | ⟨c, s⟩
    · cases h
    rw [contentOf_cons] at h
    split_ifs at h
    · cases h
    · exact ih (List.cons.inj h).2

namespace Cursor

/-- The cursor stands at an offset of its text, or behind it, and `s` is left of the line there. -/
structure Sees (c : Cursor) (pos : ℕ) (s : List Char) : Prop where
  pos_eq : c.pos = pos
  rest_eq : contentOf (c.text.drop pos) = s

theorem sees_natCast (text : List Char) (pos : ℕ) :
    (⟨text, pos⟩ : Cursor).Sees pos (contentOf (text.drop pos)) := ⟨rfl, rfl⟩

theorem move_move (c : Cursor) (m n : ℕ) : (c.move m).move n = c.move (m + n) := by
  rw [move, move, move, Int.natCast_add, Int.add_assoc]

variable {c : Cursor} {pos : ℕ} {s a b : List Char}

theorem Sees.content_eq (h : c.Sees pos s) : c.content = .ok s := by
  obtain ⟨text, place⟩ := c
  obtain ⟨rfl, rfl⟩ := h
  rw [content, ahead_natCast]
  rfl

/-- **Behind what was read the rest is left.** -/
theorem Sees.move (h : c.Sees pos (a ++ b)) : (c.move a.length).Sees (pos + a.length) b where
  pos_eq := by
    rw [Cursor.move, h.pos_eq]
    exact (Int.natCast_add pos a.length).symm
  rest_eq := by
    rw [← List.drop_drop]
    exact contentOf_drop h.rest_eq

theorem Sees.tail {x : Char} (h : c.Sees pos (x :: s)) : (c.move 1).Sees (pos + 1) s :=
  Sees.move (a := [x]) h

/-- The characters up to there are those that were read. -/
theorem Sees.sliceTo_move (h : c.Sees pos (a ++ b)) : c.sliceTo (c.move a.length).pos = a := by
  obtain ⟨t, ht⟩ : a <+: c.text.drop pos :=
    (List.prefix_append a b).trans (h.rest_eq ▸ contentOf_prefix _)
  have hlength : a.length ≤ c.text.length - pos := by
    rw [← List.length_drop, ← ht, List.length_append]
    omega
  have hoffset : ∀ n : ℕ, sliceOffset c.text.length n = min n c.text.length := by
    intro n
    rw [sliceOffset, if_neg (by omega), Int.toNat_natCast]
  rw [sliceTo, h.move.pos_eq, h.pos_eq, hoffset, hoffset]
  rcases Nat.le_total pos c.text.length with hle | hle
  · rw [Nat.min_eq_left hle, Nat.min_eq_left (by omega), Nat.add_sub_cancel_left, ← ht,
      List.take_left]
  · have hnil : a = [] := List.eq_nil_of_length_eq_zero (by omega)
    rw [Nat.min_eq_right hle, Nat.min_eq_right (by omega), Nat.sub_self, hnil]
    rfl

end Cursor

end Text

/-- Goes on behind what a production has found, unless it has failed or was stopped. -/
def Produced.andThen {α β : Type} (found : Produced (Option α))
    (next : α → Context → Produced (Option β)) : Produced (Option β) :=
  match found with
  | (.ok (some a), ctx) => next a ctx
  | (.ok none, ctx) => (.ok none, ctx)
  | (.error halt, ctx) => (.error halt, ctx)

theorem Produced.andThen_some {α β : Type} (a : α) (ctx : Context)
    (next : α → Context → Produced (Option β)) :
    Produced.andThen (.ok (some a), ctx) next = next a ctx := rfl

theorem Produced.andThen_none {α β : Type} (ctx : Context)
    (next : α → Context → Produced (Option β)) :
    Produced.andThen (.ok none, ctx) next = (.ok none, ctx) := rfl

namespace Context

/-! ### The parts of an entry -/

/-- The dash in front of an entry. -/
def dash (ctx : Context) (c : Cursor) : Produced (Option Cursor) :=
  ctx.withContent c fun content =>
    match content with
    | '-' :: _ => (.ok (some (c.move 1)), ctx)
    | _ =>
      match c.spanTo (c.advance 1).pos with
      | .ok span => (.ok none, ctx.fail ⟨.noDash, span⟩)
      | .error fault => (.error (.span fault), ctx)

/-- The dash between two times. -/
def rangeDash (ctx : Context) (c : Cursor) : Produced (Option Cursor) :=
  ctx.withContent c fun content =>
    match content with
    | '-' :: _ => (.ok (some (c.move 1)), ctx)
    | _ => ctx.failAt .noRangeDash c content

/-- The codes, the duration and the activity, and the end of the line. -/
def fields (ctx : Context) (c : Cursor) :
    Produced (Option ((List Word × Word × List Char) × Cursor)) :=
  ctx.withContent c fun content =>
    match takeCodes maxCodes content with
    | some found => (.ok (some (found, c.move content.length)), ctx)
    | none =>
      if c.pos < 0 then (.error (.inFront c.pos), ctx)
      else (.ok none, ctx.fail ⟨.noDuration, Span.ofLength c.pos.toNat content.length⟩)

/-- An entry by its parts, one behind the other. A duration that is no number is reported in the end,
it is no failure. -/
def entryByParts (ctx : Context) (c : Cursor) : Produced (Option (Entry × Cursor)) :=
  (ctx.dash c).andThen fun lead ctx =>
  (ctx.blanks .afterDash lead).andThen fun first ctx =>
  (ctx.time first).andThen fun (start, middle) ctx =>
  (ctx.rangeDash middle).andThen fun second ctx =>
  (ctx.time second).andThen fun (stop, gap) ctx =>
  (ctx.blanks .afterRange gap).andThen fun third ctx =>
  (ctx.fields third).andThen fun ((codes, duration, activity), last) ctx =>
  let t : EntryText := ⟨lead.sliceTo first.pos, start.toList, stop.toList, gap.sliceTo third.pos,
    codes, duration, activity⟩
  let (item, fault) := t.toEntry c.pos.toNat
  (.ok (some (item, last)), ctx.report fault.toList)

section Parts

variable (ctx : Context) {c : Cursor} {pos : ℕ} {s : List Char} (h : c.Sees pos s)
include h

theorem withContent_eq {α : Type} (read : List Char → Produced α) :
    ctx.withContent c read = read s := by
  rw [withContent, h.content_eq]

theorem failAt_eq {α : Type} (cause : ParseCause) :
    (ctx.failAt cause c s : Produced (Option α)) =
      (.ok none, ctx.fail (EntryText.faultAt cause pos s)) := by
  rw [failAt, h.pos_eq, if_neg (by omega), Int.toNat_natCast]

theorem blanks_eq (gap : Gap) : ctx.blanks gap c =
    if (s.takeWhile isBlank).isEmpty then
      (.ok none, ctx.fail (EntryText.faultAt (.noBlank gap) pos s))
    else (.ok (some (c.move (s.takeWhile isBlank).length)), ctx) := by
  rw [blanks, ctx.withContent_eq h, ctx.failAt_eq h]

theorem time_of_none (htime : takeTime s = none) :
    ctx.time c = (.ok none, ctx.fail (EntryText.faultAt .malformedTime pos s)) := by
  rw [time, ctx.withContent_eq h, htime]
  exact ctx.failAt_eq h _

theorem time_of_some {token rest : List Char} (htime : takeTime s = some (token, rest)) :
    ctx.time c = (.ok (some (String.ofList token, c.move token.length)), ctx) := by
  rw [← takeTime_chars htime] at h
  rw [time, ctx.withContent_eq h, takeTime_chars htime, htime]
  dsimp only
  rw [h.sliceTo_move]

theorem rangeDash_of_ne (hs : ∀ r, s ≠ '-' :: r) :
    ctx.rangeDash c = (.ok none, ctx.fail (EntryText.faultAt .noRangeDash pos s)) := by
  rw [rangeDash, ctx.withContent_eq h]
  split
  · exact absurd rfl (hs _)
  · exact ctx.failAt_eq h _

theorem fields_of_none (htake : takeCodes maxCodes s = none) :
    ctx.fields c = (.ok none, ctx.fail ⟨.noDuration, Span.ofLength pos s.length⟩) := by
  rw [fields, ctx.withContent_eq h, htake]
  dsimp only
  rw [h.pos_eq, if_neg (by omega), Int.toNat_natCast]

theorem fields_of_some {found : List Word × Word × List Char}
    (htake : takeCodes maxCodes s = some found) :
    ctx.fields c = (.ok (some (found, c.move s.length)), ctx) := by
  rw [fields, ctx.withContent_eq h, htake]

theorem dash_of_cons {r : List Char} (hs : s = '-' :: r) :
    ctx.dash c = (.ok (some (c.move 1)), ctx) := by
  rw [dash, ctx.withContent_eq h, hs]
  rfl

theorem rangeDash_of_cons {r : List Char} (hs : s = '-' :: r) :
    ctx.rangeDash c = (.ok (some (c.move 1)), ctx) := by
  rw [rangeDash, ctx.withContent_eq h, hs]
  rfl

end Parts

/-- The steps from part to part go through the whole line. -/
theorem length_parts {r start s₃ stop s₄ : List Char}
    (hstart : takeTime (r.dropWhile isBlank) = some (start, '-' :: s₃))
    (hstop : takeTime s₃ = some (stop, s₄)) :
    1 + (r.takeWhile isBlank).length + start.length + 1 + stop.length +
      (s₄.takeWhile isBlank).length + (s₄.dropWhile isBlank).length = ('-' :: r).length := by
  have hr := congrArg List.length (List.takeWhile_append_dropWhile (p := isBlank) (l := r))
  have hs₁ := congrArg List.length (takeTime_chars hstart)
  have hs₃ := congrArg List.length (takeTime_chars hstop)
  have hs₄ := congrArg List.length (List.takeWhile_append_dropWhile (p := isBlank) (l := s₄))
  simp only [List.length_append, List.length_cons] at hr hs₁ hs₃ hs₄ ⊢
  omega

/-- Behind its dash an entry is read part by part like in one go. -/
theorem entryByParts_of_cons (ctx : Context) {c : Cursor} {pos : ℕ} {r : List Char}
    (h : c.Sees pos ('-' :: r)) : ctx.entryByParts c =
      match EntryText.readAfterDash pos r with
      | .ok t => (.ok (some ((t.toEntry pos).1, c.move ('-' :: r).length)),
          ctx.report (t.toEntry pos).2.toList)
      | .error fault => (.ok none, ctx.fail fault) := by
  have hlead := List.takeWhile_append_dropWhile (p := isBlank) (l := r) ▸ h.tail
  -- where a part fails both ways end with its fault, otherwise the rest is seen behind it
  unfold entryByParts EntryText.readAfterDash
  rw [ctx.dash_of_cons h rfl, Produced.andThen_some, ctx.blanks_eq h.tail]
  dsimp only
  split_ifs
  · rfl
  have hfirst := hlead.move
  rw [Produced.andThen_some]
  rcases hstart : takeTime (r.dropWhile isBlank) with _ | ⟨start, s₂⟩
  · rw [ctx.time_of_none hfirst hstart]
    rfl
  rw [ctx.time_of_some hfirst hstart, Produced.andThen_some]
  have hmiddle := (takeTime_chars hstart ▸ hfirst).move
  dsimp only
  by_cases hdash : ∃ s₃, s₂ = '-' :: s₃
  case neg =>
    have hne := not_exists.mp hdash
    rw [ctx.rangeDash_of_ne hmiddle hne, Produced.andThen_none]
    simp only
  obtain ⟨s₃, rfl⟩ := hdash
  have hsecond := hmiddle.tail
  rw [ctx.rangeDash_of_cons hmiddle rfl, Produced.andThen_some]
  simp only
  rcases hstop : takeTime s₃ with _ | ⟨stop, s₄⟩
  · rw [ctx.time_of_none hsecond hstop]
    rfl
  rw [ctx.time_of_some hsecond hstop, Produced.andThen_some]
  have hgap := (takeTime_chars hstop ▸ hsecond).move
  dsimp only
  rw [ctx.blanks_eq hgap]
  split_ifs
  · rfl
  rw [← List.takeWhile_append_dropWhile (p := isBlank) (l := s₄)] at hgap
  have hthird := hgap.move
  rw [Produced.andThen_some]
  rcases htake : takeCodes maxCodes (s₄.dropWhile isBlank) with _ | found
  · rw [ctx.fields_of_none hthird htake]
    rfl
  rw [ctx.fields_of_some hthird htake, Produced.andThen_some]
  dsimp only
  rw [hlead.sliceTo_move, hgap.sliceTo_move, String.toList_ofList, String.toList_ofList,
    h.pos_eq, Int.toNat_natCast]
  simp only [Cursor.move_move, length_parts hstart hstop]

/-- **An entry is read part by part like in one go**, so it fails with the failure of the first part
that fails. -/
theorem entry_eq_entryByParts (ctx : Context) (text : List Char) (pos : ℕ) :
    ctx.entry ⟨text, pos⟩ = ctx.entryByParts ⟨text, pos⟩ := by
  have hsees := Cursor.sees_natCast text pos
  unfold entry
  rw [ctx.withContent_eq hsees, if_neg (Int.not_lt.mpr (Int.natCast_nonneg pos))]
  by_cases hdash : ∃ r, contentOf (text.drop pos) = '-' :: r
  case neg =>
    have hne := not_exists.mp hdash
    unfold entryByParts dash
    rw [ctx.withContent_eq hsees]
    simp only
    rcases (⟨text, pos⟩ : Cursor).spanTo _ with fault | span
    · rfl
    · rfl
  obtain ⟨r, hr⟩ := hdash
  rw [entryByParts_of_cons ctx (hr ▸ hsees), hr]
  rfl

/-! ### Every production records its failure -/

/-- If the production fails, it fails in every context, and records the same failure in all of them.
-/
def RecordsFailure {α : Type} (production : Context → Produced (Option α)) : Prop :=
  ∀ ctx ctx', production ctx = (.ok none, ctx') → ∃ faults fault, ∀ ctx₀ : Context,
    production ctx₀ = (.ok none, (ctx₀.report faults).fail fault)

theorem report_nil (ctx : Context) : ctx.report [] = ctx := by
  rw [report, List.append_nil]

theorem recordsFailure_of_or {α : Type} {production : Context → Produced (Option α)}
    (h : (∃ faults fault, ∀ ctx, production ctx = (.ok none, (ctx.report faults).fail fault)) ∨
      ∀ ctx, (production ctx).1 ≠ .ok none) : RecordsFailure production := by
  intro ctx ctx' hnone
  rcases h with hfail | hsome
  · exact hfail
  · exact absurd (congrArg Prod.fst hnone) (hsome ctx)

theorem recordsFailure_withContent {α : Type} {read : Context → List Char → Produced (Option α)}
    (h : ∀ content, RecordsFailure fun ctx => read ctx content) (c : Cursor) :
    RecordsFailure fun ctx => ctx.withContent c (read ctx) := by
  unfold withContent
  rcases c.content with fault | content
  · exact recordsFailure_of_or (Or.inr fun ctx => nofun)
  · exact h content

/-- A failure over a word is recorded, unless the word begins in front of the text. -/
theorem recordsFailure_failAt {α : Type} (cause : ParseCause) (c : Cursor) (content : List Char) :
    RecordsFailure fun ctx => (ctx.failAt cause c content : Produced (Option α)) := by
  apply recordsFailure_of_or
  unfold failAt
  split_ifs
  · exact Or.inr fun ctx => nofun
  · exact Or.inl ⟨[], _, fun ctx => by rw [report_nil]⟩

theorem recordsFailure_dash (c : Cursor) : RecordsFailure fun ctx => ctx.dash c := by
  refine recordsFailure_withContent (fun content => recordsFailure_of_or ?_) c
  split
  · exact Or.inr fun ctx => nofun
  · rcases c.spanTo (c.advance 1).pos with fault | span
    · exact Or.inr fun ctx => nofun
    · exact Or.inl ⟨[], _, fun ctx => by rw [report_nil]⟩

theorem recordsFailure_blanks (gap : Gap) (c : Cursor) :
    RecordsFailure fun ctx => ctx.blanks gap c := by
  refine recordsFailure_withContent (fun content => ?_) c
  dsimp only
  split_ifs
  · exact recordsFailure_failAt _ c content
  · exact recordsFailure_of_or (Or.inr fun ctx => nofun)

theorem recordsFailure_time (c : Cursor) : RecordsFailure fun ctx => ctx.time c := by
  refine recordsFailure_withContent (fun content => ?_) c
  split
  · exact recordsFailure_of_or (Or.inr fun ctx => nofun)
  · exact recordsFailure_failAt _ c content

theorem recordsFailure_rangeDash (c : Cursor) : RecordsFailure fun ctx => ctx.rangeDash c := by
  refine recordsFailure_withContent (fun content => ?_) c
  split
  · exact recordsFailure_of_or (Or.inr fun ctx => nofun)
  · exact recordsFailure_failAt _ c content

theorem recordsFailure_fields (c : Cursor) : RecordsFailure fun ctx => ctx.fields c := by
  refine recordsFailure_withContent (fun content => recordsFailure_of_or ?_) c
  split
  · exact Or.inr fun ctx => nofun
  · split_ifs
    · exact Or.inr fun ctx => nofun
    · exact Or.inl ⟨[], _, fun ctx => by rw [report_nil]⟩

theorem entryInFront_cases (start : Int) (content : List Char) :
    (∃ fault, ∀ ctx : Context, ctx.entryInFront start content = (.ok (), ctx.fail fault)) ∨
      ∃ halt, ∀ ctx : Context, (ctx.entryInFront start content).1 = .error halt := by
  unfold entryInFront
  split
  · rename_i r
    rcases EntryText.readAfterDash 0 r with fault | t
    · dsimp only
      by_cases hplace : start + fault.span.start < 0
      · exact Or.inr ⟨_, fun ctx => by rw [if_pos hplace]⟩
      · exact Or.inl ⟨_, fun ctx => by rw [if_neg hplace]⟩
    · dsimp only
      by_cases hplace : start + t.codesAt 0 < 0
      · exact Or.inr ⟨_, fun ctx => by rw [if_pos hplace]⟩
      · exact Or.inr ⟨_, fun ctx => by rw [if_neg hplace]⟩
  · exact Or.inr ⟨_, fun ctx => rfl⟩

/-- **An entry that fails records why**, wherever the cursor is. -/
theorem recordsFailure_entry (c : Cursor) : RecordsFailure fun ctx => ctx.entry c := by
  apply recordsFailure_of_or
  unfold entry withContent
  rcases c.content with fault | content
  · exact Or.inr fun ctx => nofun
  dsimp only
  by_cases hpos : c.pos < 0
  · simp only [if_pos hpos]
    rcases entryInFront_cases c.pos content with ⟨fault, hfail⟩ | ⟨halt, hhalt⟩
    · exact Or.inl ⟨[], fault, fun ctx => by rw [hfail, report_nil]; rfl⟩
    · exact Or.inr fun ctx => by rw [hhalt]; exact nofun
  simp only [if_neg hpos]
  split
  · rename_i r
    rcases EntryText.readAfterDash c.pos.toNat r with fault | t
    · exact Or.inl ⟨[], fault, fun ctx => by rw [report_nil]⟩
    · exact Or.inr fun ctx => nofun
  · rcases c.spanTo (c.advance 1).pos with fault | span
    · exact Or.inr fun ctx => nofun
    · exact Or.inl ⟨[], _, fun ctx => by rw [report_nil]⟩

/-- **A front matter that fails records why**, behind the faults of the lines it came across. -/
theorem recordsFailure_frontMatter (c : Cursor) : RecordsFailure fun ctx => ctx.frontMatter c := by
  apply recordsFailure_of_or
  unfold frontMatter
  rcases c.ahead with fault | s
  · exact Or.inr fun ctx => nofun
  dsimp only
  by_cases hpos : c.pos < 0
  · simp only [if_pos hpos]
    exact Or.inr fun ctx => nofun
  simp only [if_neg hpos]
  rcases (Block.ofLines c.pos.toNat c.text.length (lines c.pos.toNat s)).outcome with fault | block
  · exact Or.inl ⟨_, fault, fun ctx => rfl⟩
  · exact Or.inr fun ctx => nofun

end Context

end TimeJournal
