import Mathlib.Data.Nat.Notation
import TimeJournal.Journal.Production
import TimeJournal.Proofs.Text.Piece

/-! # Reading the body line by line

`Journal.read` cuts a text into lines first; the productions step through it with a cursor that
never knows where the next line begins. Both see the same lines: what is left of a line at its
beginning is its content, and the step over it goes to the beginning of the next one.

* `Context.line_of_isWhole`: one step reads one line of a cut.
* `Context.ReadsBody`: the loop that reads lines until no character is left.
* `Context.exists_readsBody`: the loop goes through all lines of a text, to its end. A text has
  lines from every offset on, so the loop ends wherever it begins
  (`Context.exists_readsBody_max`). -/

namespace TimeJournal

open Text

/-! ### The rest of a line -/

namespace Text

theorem atLineEnd_cons {c : Char} {s : List Char} (hf : c ≠ '\n')
    (hr : c = '\r' → s ≠ [] ∧ s.head? ≠ some '\n') : atLineEnd (c :: s) = false := by
  unfold atLineEnd
  split
  · rename_i h; cases h
  · rename_i h; obtain ⟨rfl, rfl⟩ := List.cons.inj h; exact absurd rfl (hr rfl).1
  · rename_i r h; obtain ⟨rfl, rfl⟩ := List.cons.inj h; exact absurd rfl (hr rfl).2
  · rename_i r h; exact absurd (List.cons.inj h).1 hf
  · rfl

theorem contentOf_go_append {content rest : List Char} (hf : '\n' ∉ content)
    (hr : content.getLast? = some '\r' → rest ≠ [] ∧ rest.head? ≠ some '\n')
    (hrest : atLineEnd rest = true) (seen : List Char) :
    contentOf.go seen (content ++ rest) = seen.reverse ++ content := by
  induction content generalizing seen with
  | nil =>
    rw [List.nil_append, List.append_nil]
    rcases rest with _ | ⟨c, rest⟩
    · rfl
    · rw [contentOf.go, if_pos hrest]
  | cons c content ih =>
    have hc : c ≠ '\n' := fun h => hf (h ▸ List.mem_cons_self)
    have hf' : '\n' ∉ content := fun h => hf (List.mem_cons_of_mem _ h)
    have hr' : content.getLast? = some '\r' → rest ≠ [] ∧ rest.head? ≠ some '\n' := by
      intro h
      exact hr (by rw [List.getLast?_cons, h]; rfl)
    have hinside : atLineEnd (c :: (content ++ rest)) = false := by
      refine atLineEnd_cons hc ?_
      rintro rfl
      rcases content with _ | ⟨d, content⟩
      · exact hr rfl
      · refine ⟨List.cons_ne_nil _ _, fun h => hf' ?_⟩
        rw [List.cons_append, List.head?_cons, Option.some.injEq] at h
        exact h ▸ List.mem_cons_self
    rw [List.cons_append, contentOf.go, if_neg (by rw [hinside]; decide), ih hf' hr',
      List.reverse_cons, List.append_assoc, List.singleton_append]

section Whole

variable {l : Line} {more : List Char}

/-- At the beginning of a line its content is what is left of the line. -/
theorem contentOf_of_isWhole (hw : l.IsWhole) (hlast : l.ending.IsFinal → more = []) :
    contentOf (l.chars ++ more) = l.content := by
  have hend : atLineEnd (l.ending.chars ++ more) = true := by
    cases hending : l.ending with
    | lf => rfl
    | crlf => rfl
    | cr => rw [hending] at hlast; rw [hlast trivial]; rfl
    | eof => rw [hending] at hlast; rw [hlast trivial]; rfl
  rw [Line.chars, List.append_assoc, contentOf,
    contentOf_go_append hw.noFeed (fun hret => hw.rest_of_return hret more) hend]
  rfl

/-- Behind its content stands its ending. -/
theorem endingLength_chars (hlast : l.ending.IsFinal → more = []) :
    endingLength (l.ending.chars ++ more) = l.ending.chars.length := by
  cases hending : l.ending with
  | lf => rfl
  | crlf => rfl
  | cr => rw [hending] at hlast; rw [hlast trivial]; rfl
  | eof => rw [hending] at hlast; rw [hlast trivial]; rfl

end Whole

/-- At an offset the cursor sees the rest of the text. -/
theorem Cursor.ahead_natCast (text : List Char) (pos : ℕ) :
    (⟨text, pos⟩ : Cursor).ahead = .ok (text.drop pos) := by
  unfold ahead
  rw [if_pos (Int.natCast_nonneg pos)]
  rfl

end Text

/-! ### One line -/

namespace Context

variable (ctx : Context) {text : List Char}

/-- What a line is read as is looked at nowhere else, and its fault is collected. -/
theorem lineAt_eq (start : ℕ) (content : List Char) :
    (ctx.lineAt start content).1 = (BodyLine.read start content).1 ∧
      (ctx.lineAt start content).2.faults =
        ctx.faults ++ (BodyLine.read start content).2.toList := by
  rcases hread : BodyLine.read start content with ⟨item, fault⟩
  unfold lineAt
  rw [hread]
  rcases item with e | c | k
  · exact ⟨rfl, rfl⟩
  · exact ⟨rfl, rfl⟩
  · rcases fault with _ | fault
    · exact ⟨rfl, rfl⟩
    · exact ⟨rfl, rfl⟩

/-- The production never fails in a text, and goes past the ending of the line. -/
theorem line_eq (pos : ℕ) : ctx.line ⟨text, pos⟩ =
    (.ok ((BodyLine.read pos (contentOf (text.drop pos))).1,
      ⟨text, (pos + ((contentOf (text.drop pos)).length +
        endingLength ((text.drop pos).drop (contentOf (text.drop pos)).length)) : ℕ)⟩),
      (ctx.lineAt pos (contentOf (text.drop pos))).2) := by
  have hpos : ¬ ((pos : Int) < 0) := by omega
  rw [← (ctx.lineAt_eq pos _).1]
  unfold line
  rw [Cursor.ahead_natCast]
  dsimp only
  rw [if_neg hpos]
  rfl

/-- **One step reads one line.** -/
theorem line_of_isWhole {l : Line} {more : List Char} (hw : l.IsWhole)
    (hlast : l.ending.IsFinal → more = []) (htext : text.drop l.start = l.chars ++ more) :
    ∃ ctx', ctx.line ⟨text, l.start⟩ =
        (.ok ((BodyLine.read l.start l.content).1, ⟨text, (l.start + l.chars.length : ℕ)⟩), ctx') ∧
      ctx'.faults = ctx.faults ++ (BodyLine.read l.start l.content).2.toList := by
  refine ⟨_, ?_, (ctx.lineAt_eq l.start l.content).2⟩
  have hcontent := contentOf_of_isWhole hw hlast
  have hdrop : (l.chars ++ more).drop l.content.length = l.ending.chars ++ more := by
    rw [Line.chars, List.append_assoc, List.drop_left]
  rw [line_eq, htext, hcontent, hdrop, endingLength_chars hlast, ← List.length_append]
  rfl

/-! ### All lines -/

/-- The loop over the lines of a body: a line is read as long as a character is left. -/
inductive ReadsBody : Context → Cursor → List BodyLine → Context → Cursor → Prop
  | done {ctx : Context} {c : Cursor} (h : c.isEof = true) : ReadsBody ctx c [] ctx c
  | line {ctx ctx₁ ctx₂ : Context} {c c₁ c₂ : Cursor} {item : BodyLine} {items : List BodyLine}
      (h : c.isEof = false) (hline : ctx.line c = (.ok (item, c₁), ctx₁))
      (hrest : ReadsBody ctx₁ c₁ items ctx₂ c₂) : ReadsBody ctx c (item :: items) ctx₂ c₂

variable {ctx}

theorem isEof_eq_false {pos : ℕ} (h : text.drop pos ≠ []) :
    (⟨text, pos⟩ : Cursor).isEof = false := by
  have hlt : pos < text.length := Nat.lt_of_not_le fun hle => h (List.drop_eq_nil_of_le hle)
  unfold Cursor.isEof
  simp only [decide_eq_false_iff_not]
  omega

/-- **The loop reads the lines of a text**, one in each step, to its end. -/
theorem exists_readsBody (ctx : Context) {ls : List Line} {pos : ℕ} (h : AreLines text pos ls) :
    ∃ ctx', ReadsBody ctx ⟨text, pos⟩ (ls.map fun l => (BodyLine.read l.start l.content).1) ctx'
        ⟨text, text.length⟩ ∧
      ctx'.faults = ctx.faults ++ ls.filterMap fun l => (BodyLine.read l.start l.content).2 := by
  induction ls generalizing ctx pos with
  | nil =>
    refine ⟨ctx, ?_, (List.append_nil _).symm⟩
    rw [h.eq_length]
    exact .done (by simp [Cursor.isEof])
  | cons l ls ih =>
    obtain ⟨rfl, hw, -, -⟩ := h.cut
    have htext := h.drop_eq
    rw [List.flatMap_cons] at htext
    have hne : text.drop l.start ≠ [] := by
      rw [htext]
      exact fun hnil => hw.chars_ne_nil (List.append_eq_nil_iff.mp hnil).1
    obtain ⟨ctx₁, hline, hfaults₁⟩ := ctx.line_of_isWhole hw h.rest_eq_nil htext
    obtain ⟨ctx₂, hbody, hfaults₂⟩ := ih ctx₁ h.tail
    refine ⟨ctx₂, .line (isEof_eq_false hne) hline hbody, ?_⟩
    rw [hfaults₂, hfaults₁, List.append_assoc, List.filterMap_cons]
    cases (BodyLine.read l.start l.content).2 <;> rfl

/-- **The loop ends, wherever it begins in a text**, and has gone through all of it. -/
theorem exists_readsBody_max (ctx : Context) (text : List Char) (pos : ℕ) :
    ∃ items ctx', ReadsBody ctx ⟨text, pos⟩ items ctx' ⟨text, (max pos text.length : ℕ)⟩ := by
  by_cases hpos : pos ≤ text.length
  · obtain ⟨ctx', hbody, -⟩ := exists_readsBody ctx (areLines_lines hpos)
    rw [Nat.max_eq_right hpos]
    exact ⟨_, ctx', hbody⟩
  · rw [Nat.max_eq_left (by omega)]
    refine ⟨[], ctx, .done ?_⟩
    unfold Cursor.isEof
    dsimp only
    exact decide_eq_true (by omega)

end Context

end TimeJournal
