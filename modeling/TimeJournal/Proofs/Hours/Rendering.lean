import Mathlib.Data.List.TakeWhile
import TimeJournal.Proofs.Hours.Rounding
import TimeJournal.Proofs.Text.Digits

/-! # Reading rendered hours

A rendered number of seconds is a literal with a dot, of hundredths of an hour, and is read back as
exactly 36 seconds for each hundredth. So for whole minutes it is off by at most 12 seconds: a
hundredth of an hour is three fifths of a minute.

* `isDecimal_render`: what is rendered is a literal with a dot.
* `exists_seconds?_render`: fewer than 2³⁸ whole minutes are read back up to 12 seconds.
* `render_minutes`: they are rendered as their hours, rounded to two decimals. -/

namespace TimeJournal.Hours

open Text

/-! ### Literals of hundredths -/

/-- Hundredths of an hour as a literal. -/
def literal (hundredths : ℕ) : List Char :=
  (Nat.repr (hundredths / 100)).toList ++ '.' :: padded 2 (hundredths % 100)

theorem toList_twoDecimals (q : ℚ) :
    (twoDecimals q).toList = literal (roundEven (q * 100)).toNat := by
  simp [twoDecimals, literal]

theorem isDecimal_literal (n : ℕ) : isDecimal (literal n) = true := by
  have hall : (literal n).all isLiteralChar = true := by
    refine List.all_eq_true.mpr fun c hc => ?_
    unfold literal at hc
    rw [List.mem_append, List.mem_cons] at hc
    rcases hc with hc | rfl | hc
    · rw [isLiteralChar, isDigit_of_mem_repr hc, Bool.true_or]
    · decide
    · rw [isLiteralChar, isDigit_of_mem_padded hc, Bool.true_or]
  have hdot : '.' ∈ literal n := List.mem_append_right _ List.mem_cons_self
  unfold isDecimal isShaped
  rw [hall, List.contains_iff_mem.mpr hdot, Bool.true_and, Bool.and_true, Bool.not_eq_true',
    List.isEmpty_eq_false_iff]
  exact List.ne_nil_of_mem hdot

theorem isDecimal_render (seconds : ℕ) : isDecimal (render seconds).toList = true := by
  rw [render, toList_twoDecimals]
  exact isDecimal_literal _

theorem digitsValue_literal (n : ℕ) :
    digitsValue ((Nat.repr (n / 100)).toList ++ padded 2 (n % 100)) = n := by
  have hlen : (padded 2 (n % 100)).length = 2 := length_padded (by omega) (by omega)
  rw [digitsValue_append, digitsValue_repr, digitsValue_padded, hlen]
  omega

theorem span_of_notMem {s : List Char} (h : '.' ∉ s) : s.span (· != '.') = (s, []) := by
  have hall : ∀ c ∈ s, (c != '.') = true := fun c hc => by
    rw [bne_iff_ne]
    rintro rfl
    exact h hc
  rw [List.span_eq_takeWhile_dropWhile, List.takeWhile_eq_self_iff.mpr hall,
    List.dropWhile_eq_nil_iff.mpr hall]

theorem span_dot {whole decimals : List Char} (h : '.' ∉ whole) :
    (whole ++ '.' :: decimals).span (· != '.') = (whole, '.' :: decimals) := by
  have hall : ∀ c ∈ whole, (c != '.') = true := fun c hc => by
    rw [bne_iff_ne]
    rintro rfl
    exact h hc
  rw [List.span_eq_takeWhile_dropWhile, List.takeWhile_append_of_pos hall,
    List.dropWhile_append_of_pos hall]
  simp

theorem value?_literal (n : ℕ) : value? (literal n) = some ((n : ℚ) / 100) := by
  have hdot : '.' ∉ (Nat.repr (n / 100)).toList := fun hc =>
    absurd (isDigit_of_mem_repr hc) (by decide)
  have hlen : (padded 2 (n % 100)).length = 2 := length_padded (by omega) (by omega)
  have hnumber : isNumber ((Nat.repr (n / 100)).toList ++ padded 2 (n % 100)) = true := by
    refine isNumber_iff.mpr ⟨List.append_ne_nil_of_right_ne_nil _ (padded_ne_nil _ _), fun c hc => ?_⟩
    rcases List.mem_append.mp hc with hc | hc
    · exact isDigit_of_mem_repr hc
    · exact isDigit_of_mem_padded hc
  unfold value? literal
  rw [span_dot hdot]
  simp only [hnumber, if_true, digitsValue_literal, hlen]
  norm_num

/-- **A literal of hundredths is read as 36 seconds for each.** -/
theorem toSeconds_literal {n : ℕ} (h : n < 2 ^ 42) : toSeconds ((n : ℚ) / 100) = 36 * n := by
  have hn : (n : ℚ) < 2 ^ 42 := by exact_mod_cast h
  have hn0 : (0 : ℚ) ≤ n := Nat.cast_nonneg n
  have hq : (0 : ℚ) ≤ (n : ℚ) / 100 := by positivity
  have h₁ := abs_le.mp (abs_nearestBinary_sub_le hq)
  have hnn := nearestBinary_nonneg hq
  have h₂ := abs_le.mp (abs_nearestBinary_sub_le (q := nearestBinary ((n : ℚ) / 100) * 3600)
    (by positivity))
  unfold toSeconds
  refine roundEven_eq (abs_lt.mpr ?_)
  push_cast
  constructor <;> linarith

theorem seconds?_literal {n : ℕ} (h : n < 2 ^ 40) : seconds? (literal n) = some (36 * n) := by
  have hs := toSeconds_literal (n := n) (by omega)
  have hle : toSeconds ((n : ℚ) / 100) ≤ maxSeconds := by
    rw [hs]
    unfold maxSeconds
    omega
  unfold seconds?
  rw [value?_literal]
  dsimp only
  rw [if_pos hle, hs]
  rfl

/-! ### Whole minutes -/

/-- The hundredths of an hour that are rendered for whole minutes are less than two thirds off. -/
theorem hundredths_near {m : ℕ} (h : m < 2 ^ 38) :
    ∃ n : ℕ, (render (60 * m)).toList = literal n ∧ n < 2 ^ 40 ∧
      ((36 * n : ℕ) : ℤ) - (60 * m : ℕ) ≤ 12 ∧ -12 ≤ ((36 * n : ℕ) : ℤ) - (60 * m : ℕ) := by
  have hm : (m : ℚ) < 2 ^ 38 := by exact_mod_cast h
  have hm0 : (0 : ℚ) ≤ m := Nat.cast_nonneg m
  set q : ℚ := ((60 * m : ℕ) : ℚ) / 3600 with hq
  have hq' : q = m / 60 := by rw [hq]; push_cast; ring
  have hq0 : 0 ≤ q := by rw [hq']; positivity
  have hbin := abs_le.mp (abs_nearestBinary_sub_le hq0)
  have hnn := nearestBinary_nonneg hq0
  have hround := abs_le.mp (abs_roundEven_sub_le (nearestBinary q * 100))
  set r : ℤ := roundEven (nearestBinary q * 100) with hr
  have hr0 : 0 ≤ r := roundEven_nonneg (by positivity)
  have hlow : (-2 : ℚ) < 3 * r - 5 * m := by linarith
  have hhigh : (3 * r - 5 * m : ℚ) < 2 := by linarith
  have hlow' : -2 < 3 * r - 5 * (m : ℤ) := by exact_mod_cast hlow
  have hhigh' : 3 * r - 5 * (m : ℤ) < 2 := by exact_mod_cast hhigh
  refine ⟨r.toNat, ?_, by omega, by push_cast; omega, by push_cast; omega⟩
  rw [render, toList_twoDecimals]

/-- **Whole minutes are read back up to 12 seconds.** -/
theorem exists_seconds?_render {m : ℕ} (h : m < 2 ^ 38) :
    ∃ s, seconds? (render (60 * m)).toList = some s ∧
      ((s : ℤ) - (60 * m : ℕ)).natAbs ≤ 12 := by
  obtain ⟨n, hn, hlt, hhigh, hlow⟩ := hundredths_near h
  refine ⟨36 * n, ?_, by omega⟩
  rw [hn, seconds?_literal hlt]

/-! ### Whole minutes with two decimals -/

/-- The hundredths of an hour nearest to whole minutes. -/
def hundredths (minutes : ℕ) : ℕ := (roundEven ((minutes : ℚ) / 60 * 100)).toNat

theorem toList_twoDecimals_minutes (m : ℕ) :
    (twoDecimals ((m : ℚ) / 60)).toList = literal (hundredths m) :=
  toList_twoDecimals _

/-- An hour has 100 hundredths and 60 minutes, so whole minutes are five thirds as many hundredths,
and at most a third of one is rounded away. -/
theorem hundredths_bounds (m : ℕ) :
    3 * hundredths m ≤ 5 * m + 1 ∧ 5 * m ≤ 3 * hundredths m + 1 := by
  have hround := abs_le.mp (abs_roundEven_sub_le ((m : ℚ) / 60 * 100))
  have hr0 : 0 ≤ roundEven ((m : ℚ) / 60 * 100) := roundEven_nonneg (by positivity)
  unfold hundredths
  set r : ℤ := roundEven ((m : ℚ) / 60 * 100)
  have hhigh : (3 * r - 5 * m : ℚ) < 2 := by linarith
  have hlow : (-2 : ℚ) < 3 * r - 5 * m := by linarith
  have hhigh' : 3 * r - 5 * (m : ℤ) < 2 := by exact_mod_cast hhigh
  have hlow' : -2 < 3 * r - 5 * (m : ℤ) := by exact_mod_cast hlow
  omega

theorem seconds?_hundredths {m : ℕ} (h : m < 2 ^ 38) :
    seconds? (literal (hundredths m)) = some (36 * hundredths m) := by
  have hbounds := hundredths_bounds m
  exact seconds?_literal (by omega)

/-- **What is rendered for whole minutes is their hours with two decimals**: what is lost in binary
fractions is too little to be rounded to another hundredth. -/
theorem render_minutes {m : ℕ} (h : m < 2 ^ 38) : render (60 * m) = twoDecimals ((m : ℚ) / 60) := by
  obtain ⟨n, hn, -, hhigh, hlow⟩ := hundredths_near h
  have hbounds := hundredths_bounds m
  obtain rfl : n = hundredths m := by omega
  rw [← String.toList_inj, hn, toList_twoDecimals_minutes]

end TimeJournal.Hours
