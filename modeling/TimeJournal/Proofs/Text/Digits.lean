import Mathlib.Algebra.Group.Nat.Defs
import Mathlib.Data.Nat.Digits.Lemmas
import TimeJournal.Text.Blank
import TimeJournal.Text.Decimal

/-! # Written numbers

The digits of a number are read back as the number, with any number of zeros in front of them, and
they are no blanks.

* `digitsValue_padded`: what `padded` writes is read back.
* `padded_digitsValue`: what is read is written back, with as many digits.
* `length_padded`: a number below a power of ten fills exactly the width that is asked for. -/

namespace TimeJournal.Text

/-! ### Digits -/

theorem toNat_of_isDigit {c : Char} (h : c.isDigit = true) : 48 ≤ c.toNat ∧ c.toNat ≤ 57 := by
  simp only [Char.isDigit, Bool.and_eq_true, decide_eq_true_eq] at h
  exact ⟨UInt32.le_iff_toNat_le.mp h.1, UInt32.le_iff_toNat_le.mp h.2⟩

/-- A digit is no white space. -/
theorem isSpace_of_isDigit {c : Char} (h : c.isDigit = true) : isSpace c = false := by
  have hc := toNat_of_isDigit h
  simp only [isSpace, Bool.or_eq_false_iff, Bool.and_eq_false_iff, decide_eq_false_iff_not,
    beq_eq_false_iff_ne]
  omega

theorem isBlank_of_isDigit {c : Char} (h : c.isDigit = true) : isBlank c = false := by
  rw [isBlank, isSpace_of_isDigit h, Bool.false_and, Bool.false_and]

/-! ### The digits of a number -/

theorem isDigit_of_mem_repr {n : Nat} {c : Char} (h : c ∈ (Nat.repr n).toList) :
    c.isDigit = true := by
  rw [Nat.toList_repr] at h
  exact Nat.isDigit_of_mem_toDigits (by omega) (by omega) h

theorem digitsValue_eq (s : List Char) : digitsValue s = Nat.ofDigitChars 10 s 0 := rfl

theorem digitsValue_repr (n : Nat) : digitsValue (Nat.repr n).toList = n := by
  rw [Nat.toList_repr, digitsValue_eq]
  exact Nat.ofDigitChars_ten_toDigits

theorem digitsValue_append (s t : List Char) :
    digitsValue (s ++ t) = 10 ^ t.length * digitsValue s + digitsValue t := by
  rw [digitsValue_eq, Nat.ofDigitChars_append, Nat.ofDigitChars_eq_ofDigitChars_zero]
  rfl

/-! ### Zeros in front -/

theorem isDigit_of_mem_padded {width n : Nat} {c : Char} (h : c ∈ padded width n) :
    c.isDigit = true := by
  unfold padded at h
  rcases List.mem_append.mp h with h | h
  · obtain rfl := List.eq_of_mem_replicate h
    decide
  · exact isDigit_of_mem_repr h

/-- **What is written with zeros in front is read back.** -/
theorem digitsValue_padded (width n : Nat) : digitsValue (padded width n) = n := by
  unfold padded
  rw [digitsValue_append, digitsValue_repr, digitsValue_eq, Nat.ofDigitChars_replicate_zero,
    Nat.mul_zero, Nat.mul_zero, Nat.zero_add]

theorem length_padded {width n : Nat} (hw : 0 < width) (hn : n < 10 ^ width) :
    (padded width n).length = width := by
  have hle : (Nat.repr n).toList.length ≤ width := by
    rw [Nat.toList_repr]
    exact (Nat.length_toDigits_le_iff (by omega) hw).mpr hn
  unfold padded
  rw [List.length_append, List.length_replicate]
  omega

theorem padded_ne_nil (width n : ℕ) : padded width n ≠ [] := by
  unfold padded
  rw [Nat.toList_repr]
  exact List.append_ne_nil_of_right_ne_nil _ Nat.toDigits_ne_nil

/-- A text of ASCII digits, at least one. -/
def IsNumeral (s : List Char) : Prop := s ≠ [] ∧ ∀ c ∈ s, c.isDigit = true

theorem isNumber_iff {s : List Char} : isNumber s = true ↔ IsNumeral s := by
  simp [isNumber, IsNumeral]

theorem isNumber_padded (width n : ℕ) : isNumber (padded width n) = true :=
  isNumber_iff.mpr ⟨padded_ne_nil width n, fun _ => isDigit_of_mem_padded⟩

/-! ### Digits of one width -/

theorem digitValue_lt {c : Char} (h : c.isDigit = true) : digitValue c < 10 := by
  have hc := toNat_of_isDigit h
  show c.toNat - 48 < 10
  omega

theorem eq_of_digitValue_eq {c d : Char} (hc : c.isDigit = true) (hd : d.isDigit = true)
    (h : digitValue c = digitValue d) : c = d := by
  have hcn := toNat_of_isDigit hc
  have hdn := toNat_of_isDigit hd
  have hsub : c.toNat - 48 = d.toNat - 48 := h
  exact Char.toNat_inj.mp (by omega)

/-- The digits, the last one first. -/
theorem digitsValue_eq_ofDigits (s : List Char) :
    digitsValue s = Nat.ofDigits 10 (s.reverse.map digitValue) := by
  induction s using List.reverseRecOn with
  | nil => rfl
  | append_singleton s c ih =>
    rw [digitsValue_append, List.reverse_append, List.reverse_singleton, List.singleton_append,
      List.map_cons, Nat.ofDigits_cons, ← ih, Nat.add_comm]
    show 10 * 0 + digitValue c + _ = _
    rw [Nat.mul_zero, Nat.zero_add]
    rfl

theorem digit_lt_of_mem {s : List Char} (h : ∀ c ∈ s, c.isDigit = true) :
    ∀ n ∈ s.reverse.map digitValue, n < 10 := by
  intro n hn
  obtain ⟨c, hc, rfl⟩ := List.mem_map.mp hn
  exact digitValue_lt (h c (List.mem_reverse.mp hc))

theorem digitsValue_lt {s : List Char} (h : ∀ c ∈ s, c.isDigit = true) :
    digitsValue s < 10 ^ s.length := by
  have hlt := Nat.ofDigits_lt_base_pow_length (by decide) (digit_lt_of_mem h)
  rw [List.length_map, List.length_reverse] at hlt
  rwa [digitsValue_eq_ofDigits]

/-- Digits of one width write different numbers if they are different. -/
theorem digitsValue_inj {s t : List Char} (hs : ∀ c ∈ s, c.isDigit = true)
    (ht : ∀ c ∈ t, c.isDigit = true) (hlength : s.length = t.length)
    (h : digitsValue s = digitsValue t) : s = t := by
  rw [digitsValue_eq_ofDigits, digitsValue_eq_ofDigits] at h
  have hreverse : s.reverse.map digitValue = t.reverse.map digitValue :=
    Nat.ofDigits_inj_of_len_eq (by decide) (by simpa using hlength) (digit_lt_of_mem hs)
      (digit_lt_of_mem ht) h
  rw [List.map_reverse, List.map_reverse, List.reverse_inj] at hreverse
  refine List.ext_getElem hlength fun i hi hi' => ?_
  have hdigit := List.getElem_of_eq hreverse (i := i) (by rwa [List.length_map])
  rw [List.getElem_map, List.getElem_map] at hdigit
  exact eq_of_digitValue_eq (hs _ (List.getElem_mem hi)) (ht _ (List.getElem_mem hi')) hdigit

/-- **What is read is written back**, with as many digits. -/
theorem padded_digitsValue {s : List Char} {width : Nat} (hw : 0 < width)
    (hlength : s.length = width) (hs : ∀ c ∈ s, c.isDigit = true) :
    padded width (digitsValue s) = s := by
  subst hlength
  exact digitsValue_inj (fun _ => isDigit_of_mem_padded) hs (length_padded hw (digitsValue_lt hs))
    (digitsValue_padded _ _)

end TimeJournal.Text
