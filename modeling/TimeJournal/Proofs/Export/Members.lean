import Mathlib.Data.List.Basic
import TimeJournal.Export.Format
import TimeJournal.Proofs.Text.Digits

/-! # The members of a record

A record is looked at through the names of its members. These are the columns of a table with as
many code columns as the record has codes (`Record.keys_members`), all different
(`Record.nodup_header`), so each of them names one value.

* `Record.value?_codeKey`: under the name of a code column stands the code with this number, if there
  is one; `Record.value?_start` and its siblings: what stands under the other names.
* `Record.codeColumns_le_iff`: the number of code columns is the largest number of codes;
  `Record.countP_codeMembers`: a record has as many codes as names that begin with `code`. -/

namespace TimeJournal

namespace Record

open Text

/-! ### The names of the code columns -/

theorem toList_codeKey (n : ℕ) : (codeKey n).toList = "code".toList ++ (Nat.repr n).toList := by
  show ("code" ++ Nat.repr n).toList = _
  exact String.toList_append

theorem codeKey_injective : Function.Injective codeKey := by
  intro m n h
  have hdigits := congrArg String.toList h
  rw [toList_codeKey, toList_codeKey] at hdigits
  rw [← digitsValue_repr m, ← digitsValue_repr n, List.append_cancel_left hdigits]

/-- No other member has the name of a code column: such a name begins with `c`. -/
theorem codeKey_ne {n : ℕ} {key : String} (h : key.toList.head? ≠ some 'c') : codeKey n ≠ key := by
  rintro rfl
  rw [toList_codeKey] at h
  exact h rfl

theorem keys_codeMembers (n : ℕ) (codes : List String) :
    (codeMembers n codes).map Prod.fst = (List.range' n codes.length).map codeKey := by
  induction codes generalizing n with
  | nil => rfl
  | cons code codes ih =>
    rw [codeMembers, List.map_cons, ih, List.length_cons, List.range'_succ]
    rfl

/-- **The names of the members are the columns** of a table that the record fills. -/
theorem keys_members (r : Record) : r.members.map Prod.fst = header r.codes.length := by
  unfold members header
  rw [List.map_append, List.map_append, keys_codeMembers]
  rfl

theorem nodup_header (columns : ℕ) : (header columns).Nodup := by
  have hcodes : ((List.range' 1 columns).map codeKey).Nodup :=
    (List.nodup_map_iff codeKey_injective).mpr List.nodup_range'
  have hapart : List.Disjoint ["activity", "start_time", "end_time", "duration"]
      ((List.range' 1 columns).map codeKey) := by
    intro key hkey hmem
    obtain ⟨n, -, rfl⟩ := List.mem_map.mp hmem
    simp only [List.mem_cons, List.not_mem_nil, or_false] at hkey
    rcases hkey with h | h | h | h <;> exact codeKey_ne (by decide) h
  have hnodup := List.nodup_append'.mpr ⟨by decide, hcodes, hapart⟩
  exact List.nodup_append_comm.mpr hnodup

theorem mem_header_iff {columns : ℕ} {key : String} : key ∈ header columns ↔
    key ∈ ["start_time", "end_time", "duration", "activity"] ∨
      ∃ n, 1 ≤ n ∧ n ≤ columns ∧ codeKey n = key := by
  have hrange : ∀ n, n ∈ List.range' 1 columns ↔ 1 ≤ n ∧ n ≤ columns := by
    intro n
    rw [List.mem_range'_1]
    omega
  unfold header
  simp only [List.mem_append, List.mem_map, hrange, List.mem_cons, List.not_mem_nil, or_false,
    and_assoc]
  rw [or_right_comm]
  simp only [or_assoc]

/-- The columns of a smaller table are those of a larger one. -/
theorem mem_header_of_le {m n : ℕ} (h : m ≤ n) {key : String} (hkey : key ∈ header m) :
    key ∈ header n := by
  rw [mem_header_iff] at hkey ⊢
  exact hkey.imp_right fun ⟨k, hk, hle, heq⟩ => ⟨k, hk, hle.trans h, heq⟩

/-! ### Values -/

/-- The value of a record under a name. -/
def value? (r : Record) (key : String) : Option Json := r.members.lookup key

theorem lookup_eq_some_iff_mem {α : Type} {l : List (String × α)} (h : (l.map Prod.fst).Nodup)
    {key : String} {v : α} : l.lookup key = some v ↔ (key, v) ∈ l := by
  induction l with
  | nil => simp
  | cons m l ih =>
    obtain ⟨k, w⟩ := m
    rw [List.map_cons, List.nodup_cons] at h
    obtain ⟨hnew, hrest⟩ := h
    rw [List.lookup_cons, List.mem_cons, Prod.mk.injEq]
    by_cases hkey : key = k
    · subst hkey
      have hbehind : (key, v) ∉ l := fun hmem => hnew (List.mem_map.mpr ⟨_, hmem, rfl⟩)
      rw [beq_self_eq_true]
      simp [hbehind, eq_comm]
    · rw [beq_eq_false_iff_ne.mpr hkey]
      simpa [hkey] using ih hrest

theorem value?_eq_some_iff {r : Record} {key : String} {v : Json} :
    r.value? key = some v ↔ (key, v) ∈ r.members :=
  lookup_eq_some_iff_mem (by rw [keys_members]; exact nodup_header _)

theorem value?_eq_none_iff {r : Record} {key : String} :
    r.value? key = none ↔ key ∉ header r.codes.length := by
  unfold value?
  rw [List.lookup_eq_none_iff, ← keys_members, List.mem_map, not_exists]
  simp only [bne_iff_ne, not_and]
  exact forall₂_congr fun m _ => ne_comm

theorem lookup_codeMembers (m n : ℕ) (codes : List String) :
    (codeMembers m codes).lookup (codeKey (m + n)) = codes[n]?.map Json.string := by
  induction codes generalizing m n with
  | nil => rfl
  | cons code codes ih =>
    rw [codeMembers, List.lookup_cons]
    cases n with
    | zero =>
      rw [Nat.add_zero, beq_self_eq_true]
      rfl
    | succ n =>
      have hne : (codeKey (m + (n + 1)) == codeKey m) = false := by
        rw [beq_eq_false_iff_ne]
        exact fun h => by have := codeKey_injective h; omega
      rw [hne, ← Nat.add_assoc, Nat.add_right_comm]
      exact ih (m + 1) n

/-- **Under the name of a code column stands the code with this number.** -/
theorem value?_codeKey (r : Record) (n : ℕ) :
    r.value? (codeKey (n + 1)) = r.codes[n]?.map Json.string := by
  have hother : ∀ l : List (String × Json), (∀ m ∈ l, m.1.toList.head? ≠ some 'c') →
      l.lookup (codeKey (n + 1)) = none := by
    intro l hl
    rw [List.lookup_eq_none_iff]
    exact fun m hm => bne_iff_ne.mpr (codeKey_ne (hl m hm))
  have hcodes := lookup_codeMembers 1 n r.codes
  rw [Nat.add_comm] at hcodes
  unfold value? members
  rw [List.lookup_append, List.lookup_append, hcodes,
    hother [("start_time", _), ("end_time", _), ("duration", _)] (by simp),
    hother [("activity", _)] (by simp), Option.none_or, Option.or_none]

theorem value?_start (r : Record) : r.value? "start_time" = some (.string r.start.toIso) :=
  value?_eq_some_iff.mpr (by simp [members])

theorem value?_stop (r : Record) : r.value? "end_time" = some (.string r.stop.toIso) :=
  value?_eq_some_iff.mpr (by simp [members])

theorem value?_duration (r : Record) : r.value? "duration" = some (.number r.seconds) :=
  value?_eq_some_iff.mpr (by simp [members])

theorem value?_activity (r : Record) : r.value? "activity" = some (.string r.activity) :=
  value?_eq_some_iff.mpr (by simp [members])

/-! ### The number of code columns -/

theorem foldl_max_le_iff {l : List ℕ} {m n : ℕ} :
    l.foldl max m ≤ n ↔ m ≤ n ∧ ∀ k ∈ l, k ≤ n := by
  induction l generalizing m with
  | nil => simp
  | cons k l ih => rw [List.foldl_cons, ih, Nat.max_le, List.forall_mem_cons, and_assoc]

/-- **There are as many code columns as the record with the most codes needs.** -/
theorem codeColumns_le_iff {rs : List Record} {n : ℕ} :
    codeColumns rs ≤ n ↔ ∀ r ∈ rs, r.codes.length ≤ n := by
  unfold codeColumns
  rw [foldl_max_le_iff, List.forall_mem_map]
  exact and_iff_right (Nat.zero_le n)

/-- **The codes of a record are counted by the names of its members.** -/
theorem countP_codeMembers (r : Record) :
    r.members.countP (fun m => "code".toList.isPrefixOf m.1.toList) = r.codes.length := by
  have hkeys : r.members.countP (fun m => "code".toList.isPrefixOf m.1.toList) =
      (header r.codes.length).countP fun key => "code".toList.isPrefixOf key.toList := by
    rw [← keys_members, List.countP_map]
    rfl
  have hcodes : ∀ key ∈ (List.range' 1 r.codes.length).map codeKey,
      "code".toList.isPrefixOf key.toList = true := by
    intro key hkey
    obtain ⟨n, -, rfl⟩ := List.mem_map.mp hkey
    rw [toList_codeKey, List.isPrefixOf_iff_prefix]
    exact List.prefix_append _ _
  rw [hkeys, header, List.countP_append, List.countP_append, List.countP_eq_length.mpr hcodes,
    List.length_map, List.length_range']
  have hfront : ["start_time", "end_time", "duration"].countP
      (fun key => "code".toList.isPrefixOf key.toList) = 0 := by decide
  have hback : ["activity"].countP (fun key => "code".toList.isPrefixOf key.toList) = 0 := by
    decide
  rw [hfront, hback, Nat.zero_add, Nat.add_zero]

end Record

end TimeJournal
