import Mathlib.Data.List.Infix

/-! # Cutting a text at a separator

`cutAt` looks for a separator in a text from left to right and gives the texts between its
occurrences; `occurrences` counts the places where it begins, those that overlap included.

* `cutAt_cases`: a text without the separator is its only piece, and otherwise the first piece ends
  where the separator begins for the first time. Everything else follows by induction on this.
* `intercalate_cutAt`, `not_infix_of_mem_cutAt`: the pieces make up the text again, and the separator
  is in none of them.
* `cutAt_intercalate`, `occurrences_intercalate`: texts are got back from what they make up, if no
  occurrence of the separator reaches into them (`IsSeparable`).
* `isSeparable_intercalate`: lines that are not empty make up a text that empty lines separate. -/

namespace TimeJournal.Text

/-- The texts between the occurrences of a separator. `piece` holds the characters of the first one
that have been seen, backwards; the first `skip` characters belong to an occurrence. -/
def cutAt.go (sep piece : List Char) (skip : ℕ) : List Char → List (List Char)
  | [] => [piece.reverse]
  | c :: r =>
    match skip with
    | k + 1 => cutAt.go sep piece k r
    | 0 =>
      if sep.isPrefixOf (c :: r) then piece.reverse :: cutAt.go sep [] (sep.length - 1) r
      else cutAt.go sep (c :: piece) 0 r

/-- The texts between the occurrences of a separator in a text, looked for from left to right. -/
def cutAt (sep s : List Char) : List (List Char) := cutAt.go sep [] 0 s

/-- The number of places in a text where a separator begins. -/
def occurrences (sep : List Char) : List Char → ℕ
  | [] => 0
  | c :: r => (if sep.isPrefixOf (c :: r) then 1 else 0) + occurrences sep r

variable {sep : List Char}

/-! ### The first occurrence -/

/-- Up to its first occurrence in `t ++ sep ++ r`, the separator begins nowhere. -/
theorem not_prefix_of_absent {c : Char} {t r : List Char}
    (h : ¬ sep <:+: c :: t ++ sep.dropLast) : ¬ sep <+: c :: (t ++ (sep ++ r)) := by
  intro hprefix
  have hfront : c :: t ++ sep.dropLast <+: c :: (t ++ (sep ++ r)) :=
    (List.prefix_cons_inj c).mpr ((List.prefix_append_right_inj t).mpr
      (sep.dropLast_prefix.trans (List.prefix_append sep r)))
  refine h (List.prefix_of_prefix_length_le hprefix hfront ?_).isInfix
  rw [List.length_append, List.length_cons, List.length_dropLast]
  omega

theorem not_infix_of_cons {c : Char} {s : List Char} (h : ¬ sep <:+: c :: s) : ¬ sep <:+: s :=
  fun hs => h (List.infix_cons hs)

/-- A separator that is found in a text has a first occurrence. -/
theorem exists_first_occurrence {s : List Char} (hsep : sep ≠ []) (h : sep <:+: s) :
    ∃ t r, s = t ++ (sep ++ r) ∧ ¬ sep <:+: t ++ sep.dropLast := by
  induction s with
  | nil => exact absurd (List.infix_nil.mp h) hsep
  | cons c s ih =>
    by_cases hprefix : sep <+: c :: s
    · obtain ⟨r, hr⟩ := hprefix
      refine ⟨[], r, hr.symm, fun hin => ?_⟩
      have hle := hin.length_le
      have hpos := List.length_pos_of_ne_nil hsep
      rw [List.nil_append, List.length_dropLast] at hle
      omega
    · obtain ⟨t, r, rfl, ht⟩ := ih ((List.infix_cons_iff.mp h).resolve_left hprefix)
      refine ⟨c :: t, r, rfl, fun hin => ?_⟩
      rcases List.infix_cons_iff.mp hin with hhead | htail
      · exact hprefix (hhead.trans ((List.prefix_cons_inj c).mpr
          ((List.prefix_append_right_inj t).mpr
            (sep.dropLast_prefix.trans (List.prefix_append sep r)))))
      · exact ht htail

namespace cutAt

theorem go_skip (piece t r : List Char) : go sep piece t.length (t ++ r) = go sep piece 0 r := by
  induction t with
  | nil => rfl
  | cons c t ih => exact ih

/-- The separator is walked up to, and past. -/
theorem go_occurrence (hsep : sep ≠ []) {piece t r : List Char}
    (h : ¬ sep <:+: t ++ sep.dropLast) :
    go sep piece 0 (t ++ (sep ++ r)) = (piece.reverse ++ t) :: go sep [] 0 r := by
  induction t generalizing piece with
  | nil =>
    obtain ⟨c, tail, rfl⟩ := List.exists_cons_of_ne_nil hsep
    have hprefix : (c :: tail).isPrefixOf (c :: (tail ++ r)) = true :=
      List.isPrefixOf_iff_prefix.mpr ⟨r, rfl⟩
    rw [List.nil_append, List.cons_append, go, if_pos hprefix, List.append_nil, List.length_cons,
      Nat.add_sub_cancel, go_skip]
  | cons c t ih =>
    have hprefix : ¬ sep.isPrefixOf (c :: (t ++ (sep ++ r))) = true := fun hp =>
      not_prefix_of_absent h (List.isPrefixOf_iff_prefix.mp hp)
    rw [List.cons_append, go, if_neg hprefix, ih (not_infix_of_cons h), List.reverse_cons,
      List.append_assoc]
    rfl

theorem go_of_absent {piece s : List Char} (h : ¬ sep <:+: s) :
    go sep piece 0 s = [piece.reverse ++ s] := by
  induction s generalizing piece with
  | nil => rw [List.append_nil]; rfl
  | cons c s ih =>
    have hprefix : ¬ sep.isPrefixOf (c :: s) = true := fun hp =>
      h (List.isPrefixOf_iff_prefix.mp hp).isInfix
    rw [go, if_neg hprefix, ih (not_infix_of_cons h), List.reverse_cons, List.append_assoc]
    rfl

end cutAt

/-- A text without the separator is its only piece. -/
theorem cutAt_of_absent {s : List Char} (h : ¬ sep <:+: s) : cutAt sep s = [s] :=
  cutAt.go_of_absent h

/-- The first piece of any other text ends where the separator begins for the first time. -/
theorem cutAt_append (hsep : sep ≠ []) {t : List Char} (h : ¬ sep <:+: t ++ sep.dropLast)
    (r : List Char) : cutAt sep (t ++ (sep ++ r)) = t :: cutAt sep r :=
  cutAt.go_occurrence hsep h

/-- **The first piece of a text.** -/
theorem cutAt_cases (hsep : sep ≠ []) (s : List Char) :
    (¬ sep <:+: s ∧ cutAt sep s = [s]) ∨ ∃ t r, s = t ++ (sep ++ r) ∧ r.length < s.length ∧
      ¬ sep <:+: t ++ sep.dropLast ∧ cutAt sep s = t :: cutAt sep r := by
  by_cases h : sep <:+: s
  · obtain ⟨t, r, rfl, ht⟩ := exists_first_occurrence hsep h
    have hpos := List.length_pos_of_ne_nil hsep
    refine Or.inr ⟨t, r, rfl, ?_, ht, cutAt_append hsep ht r⟩
    rw [List.length_append, List.length_append]
    omega
  · exact Or.inl ⟨h, cutAt_of_absent h⟩

/-! ### The pieces of a text -/

theorem cutAt_ne_nil (hsep : sep ≠ []) (s : List Char) : cutAt sep s ≠ [] := by
  rcases cutAt_cases hsep s with ⟨-, hcut⟩ | ⟨t, r, -, -, -, hcut⟩
  · rw [hcut]; exact List.cons_ne_nil _ _
  · rw [hcut]; exact List.cons_ne_nil _ _

/-- **The pieces make up the text again.** -/
theorem intercalate_cutAt (hsep : sep ≠ []) (s : List Char) :
    sep.intercalate (cutAt sep s) = s := by
  induction hn : s.length using Nat.strong_induction_on generalizing s with
  | _ n ih =>
    rcases cutAt_cases hsep s with ⟨-, hcut⟩ | ⟨t, r, hs, hlt, -, hcut⟩
    · rw [hcut, List.intercalate_singleton]
    · rw [hcut, List.intercalate_cons_of_ne_nil (cutAt_ne_nil hsep r), ih _ (hn ▸ hlt) r rfl,
        List.append_assoc, ← hs]

/-- **The separator is in none of the pieces.** -/
theorem not_infix_of_mem_cutAt (hsep : sep ≠ []) {s p : List Char} (h : p ∈ cutAt sep s) :
    ¬ sep <:+: p := by
  induction hn : s.length using Nat.strong_induction_on generalizing s with
  | _ n ih =>
    rcases cutAt_cases hsep s with ⟨hs, hcut⟩ | ⟨t, r, -, hlt, ht, hcut⟩
    · rw [hcut, List.mem_singleton] at h
      rwa [h]
    · rw [hcut] at h
      rcases List.mem_cons.mp h with rfl | h
      · exact fun hp => ht (hp.trans (List.prefix_append _ _).isInfix)
      · exact ih _ (hn ▸ hlt) h rfl

/-! ### Texts that a separator separates -/

/-- No occurrence of the separator lies in a text or reaches into it, not even where the text stands
between two separators. -/
def IsSeparable (sep p : List Char) : Prop := ¬ sep <:+: sep.tail ++ p ++ sep.dropLast

namespace IsSeparable

variable {p : List Char}

theorem not_infix_concat (h : IsSeparable sep p) : ¬ sep <:+: p ++ sep.dropLast := fun hp =>
  h (by rw [List.append_assoc]; exact hp.trans (List.suffix_append _ _).isInfix)

theorem absent (h : IsSeparable sep p) : ¬ sep <:+: p := fun hp =>
  h.not_infix_concat (hp.trans (List.prefix_append _ _).isInfix)

end IsSeparable

/-- **Texts that a separator separates are got back** from what they make up. -/
theorem cutAt_intercalate (hsep : sep ≠ []) {ps : List (List Char)} (hne : ps ≠ [])
    (h : ∀ p ∈ ps, IsSeparable sep p) : cutAt sep (sep.intercalate ps) = ps := by
  induction ps with
  | nil => exact absurd rfl hne
  | cons p ps ih =>
    have hp := h p List.mem_cons_self
    rcases ps with _ | ⟨q, ps⟩
    · rw [List.intercalate_singleton]
      exact cutAt_of_absent hp.absent
    · rw [List.intercalate_cons_cons, List.append_assoc,
        cutAt_append hsep hp.not_infix_concat, ih (List.cons_ne_nil _ _) fun x hx =>
          h x (List.mem_cons_of_mem _ hx)]

theorem occurrences_of_absent {s : List Char} (h : ¬ sep <:+: s) : occurrences sep s = 0 := by
  induction s with
  | nil => rfl
  | cons c s ih =>
    have hprefix : ¬ sep.isPrefixOf (c :: s) = true := fun hp =>
      h (List.isPrefixOf_iff_prefix.mp hp).isInfix
    rw [occurrences, if_neg hprefix, ih (not_infix_of_cons h)]

theorem occurrences_append {t : List Char} (h : ¬ sep <:+: t ++ sep.dropLast) (r : List Char) :
    occurrences sep (t ++ (sep ++ r)) = occurrences sep (sep ++ r) := by
  induction t with
  | nil => rfl
  | cons c t ih =>
    have hprefix : ¬ sep.isPrefixOf (c :: (t ++ (sep ++ r))) = true := fun hp =>
      not_prefix_of_absent h (List.isPrefixOf_iff_prefix.mp hp)
    rw [List.cons_append, occurrences, if_neg hprefix, ih (not_infix_of_cons h), Nat.zero_add]

/-- **Between texts that it separates a separator begins once**, and it begins nowhere else. -/
theorem occurrences_intercalate (hsep : sep ≠ []) {ps : List (List Char)} (hne : ps ≠ [])
    (h : ∀ p ∈ ps, IsSeparable sep p) : occurrences sep (sep.intercalate ps) + 1 = ps.length := by
  obtain ⟨c, tail, rfl⟩ := List.exists_cons_of_ne_nil hsep
  -- what is behind the first character of an occurrence is walked over together with the next text
  have hbehind : ∀ ps : List (List Char), ps ≠ [] → (∀ p ∈ ps, IsSeparable (c :: tail) p) →
      occurrences (c :: tail) (tail ++ (c :: tail).intercalate ps) + 1 = ps.length := by
    intro ps
    induction ps with
    | nil => exact fun hne => absurd rfl hne
    | cons p ps ih =>
      intro _ hps
      have hp : ¬ (c :: tail) <:+: tail ++ p ++ (c :: tail).dropLast := hps p List.mem_cons_self
      rcases ps with _ | ⟨q, ps⟩
      · have htail : ¬ (c :: tail) <:+: tail ++ p := fun hin =>
          hp (hin.trans (List.prefix_append _ _).isInfix)
        rw [List.intercalate_singleton, occurrences_of_absent htail]
        rfl
      · have hprefix : (c :: tail).isPrefixOf
            (c :: (tail ++ (c :: tail).intercalate (q :: ps))) = true :=
          List.isPrefixOf_iff_prefix.mpr ⟨_, rfl⟩
        have hrest := ih (List.cons_ne_nil _ _) fun x hx => hps x (List.mem_cons_of_mem _ hx)
        rw [List.intercalate_cons_cons, List.append_assoc, ← List.append_assoc tail,
          occurrences_append hp, List.cons_append, occurrences, if_pos hprefix, List.length_cons,
          ← hrest, Nat.add_comm 1]
  rcases ps with _ | ⟨p, ps⟩
  · exact absurd rfl hne
  have hp := h p List.mem_cons_self
  rcases ps with _ | ⟨q, ps⟩
  · rw [List.intercalate_singleton, occurrences_of_absent hp.absent]
    rfl
  · have hprefix : (c :: tail).isPrefixOf
        (c :: (tail ++ (c :: tail).intercalate (q :: ps))) = true :=
      List.isPrefixOf_iff_prefix.mpr ⟨_, rfl⟩
    have hrest := hbehind (q :: ps) (List.cons_ne_nil _ _) fun x hx =>
      h x (List.mem_cons_of_mem _ hx)
    rw [List.intercalate_cons_cons, List.append_assoc, occurrences_append hp.not_infix_concat,
      List.cons_append, occurrences, if_pos hprefix, List.length_cons, ← hrest, Nat.add_comm 1]

/-! ### Lines -/

theorem isSeparable_singleton {c : Char} {p : List Char} : IsSeparable [c] p ↔ c ∉ p := by
  unfold IsSeparable
  rw [List.tail_cons, List.dropLast_singleton, List.nil_append, List.append_nil,
    List.singleton_infix_iff]

/-- **Lines that are not empty make up a text that empty lines separate.** -/
theorem isSeparable_intercalate {c : Char} {rows : List (List Char)} (hne : rows ≠ [])
    (h : ∀ row ∈ rows, row ≠ [] ∧ c ∉ row) : IsSeparable [c, c] ([c].intercalate rows) := by
  show ¬ [c, c] <:+: c :: ([c].intercalate rows ++ [c])
  induction rows with
  | nil => exact absurd rfl hne
  | cons row rows ih =>
    obtain ⟨hrow, hc⟩ := h row List.mem_cons_self
    obtain ⟨d, more, rfl⟩ := List.exists_cons_of_ne_nil hrow
    have hd : c ≠ d := fun heq => hc (heq ▸ List.mem_cons_self)
    obtain ⟨rest, hrest, hnot⟩ : ∃ rest,
        [c].intercalate ((d :: more) :: rows) ++ [c] = (d :: more) ++ rest ∧
          ¬ [c, c] <:+: rest := by
      rcases rows with _ | ⟨next, rows⟩
      · exact ⟨[c], by rw [List.intercalate_singleton], fun hin => by
          have hle := hin.length_le
          simp at hle⟩
      · refine ⟨_, by rw [List.intercalate_cons_cons, List.append_assoc, List.append_assoc], ?_⟩
        exact ih (List.cons_ne_nil _ _) fun row hrow => h row (List.mem_cons_of_mem _ hrow)
    rw [hrest, List.infix_cons_iff, List.infix_append_iff, not_or, not_or, not_or]
    refine ⟨fun hprefix => ?_, fun hmem => ?_, hnot, ?_⟩
    · exact hd (List.cons_prefix_cons.mp (List.cons_prefix_cons.mp hprefix).2).1
    · exact hc (hmem.subset List.mem_cons_self)
    · rintro ⟨l₁, l₂, hsplit, hsuffix, hprefix⟩
      rcases List.append_eq_cons_iff.mp hsplit.symm with ⟨rfl, rfl⟩ | ⟨l, rfl, -⟩
      · exact hnot hprefix.isInfix
      · exact hc (hsuffix.subset List.mem_cons_self)

end TimeJournal.Text
