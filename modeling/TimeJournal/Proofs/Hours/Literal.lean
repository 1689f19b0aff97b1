import TimeJournal.Proofs.Hours.Double
import TimeJournal.Proofs.Hours.Rendering

/-! # Reading literals

A literal is written in ASCII digits with at most one dot among them, and stands for the rational
that its digits have in their places. It is read in doubles: rounded, multiplied, rounded, and
rounded to seconds.

* `value?_eq_some_iff`: which texts are literals, and what they stand for.
* `seconds?_near_iff`: which literals with two decimals are within 18 seconds of whole minutes.
* `seconds?_exact`: which literals are read, and how far the seconds can be from the hours. -/

namespace TimeJournal.Hours

open Text

/-! ### Literals -/

/-- Digits with at most one dot among them, and at least one digit. -/
structure IsLiteral (s : List Char) : Prop where
  char : ∀ c ∈ s, c.isDigit = true ∨ c = '.'
  dots : s.count '.' ≤ 1
  digit : ∃ c ∈ s, c.isDigit = true

/-- What is written before the first dot. -/
def wholePart (s : List Char) : List Char := (s.span (· != '.')).1

/-- What is written after the first dot. -/
def decimalPart (s : List Char) : List Char := (s.span (· != '.')).2.tail

/-- The rational that a literal stands for. -/
def literalValue (s : List Char) : ℚ :=
  digitsValue (wholePart s) + digitsValue (decimalPart s) / 10 ^ (decimalPart s).length

section Literal

variable {s whole decimals : List Char}

theorem isLiteral_iff_of_notMem (h : '.' ∉ s) : IsLiteral s ↔ IsNumeral s := by
  constructor
  · intro hs
    obtain ⟨c, hc, -⟩ := hs.digit
    exact ⟨List.ne_nil_of_mem hc, fun c hc => (hs.char c hc).resolve_right (by rintro rfl; exact h hc)⟩
  · intro hs
    obtain ⟨c, hc⟩ := List.exists_mem_of_ne_nil s hs.1
    exact ⟨fun c hc => .inl (hs.2 c hc), (List.count_eq_zero_of_not_mem h).trans_le zero_le_one,
      c, hc, hs.2 c hc⟩

theorem isLiteral_dot_iff (h : '.' ∉ whole) :
    IsLiteral (whole ++ '.' :: decimals) ↔ IsNumeral (whole ++ decimals) := by
  have hcount : (whole ++ '.' :: decimals).count '.' = decimals.count '.' + 1 := by
    rw [List.count_append, List.count_eq_zero_of_not_mem h, List.count_cons_self, zero_add]
  have hmem : ∀ c, c ∈ whole ++ '.' :: decimals ↔ c = '.' ∨ c ∈ whole ++ decimals := by
    intro c
    simp only [List.mem_append, List.mem_cons]
    tauto
  constructor
  · intro hs
    have hdot : '.' ∉ whole ++ decimals := by
      have := hs.dots
      rw [hcount] at this
      rw [List.mem_append, not_or]
      exact ⟨h, List.count_eq_zero.mp (by omega)⟩
    obtain ⟨c, hc, hdigit⟩ := hs.digit
    have hne : c ≠ '.' := by
      rintro rfl
      exact absurd hdigit (by decide)
    refine ⟨List.ne_nil_of_mem (((hmem c).mp hc).resolve_left hne), fun c hc => ?_⟩
    exact (hs.char c ((hmem c).mpr (.inr hc))).resolve_right (by rintro rfl; exact hdot hc)
  · intro hs
    obtain ⟨c, hc⟩ := List.exists_mem_of_ne_nil _ hs.1
    have hdot : '.' ∉ decimals := fun hc =>
      absurd (hs.2 '.' (List.mem_append_right _ hc)) (by decide)
    refine ⟨fun c hc => ?_, ?_, c, (hmem c).mpr (.inr hc), hs.2 c hc⟩
    · exact ((hmem c).mp hc).symm.imp (hs.2 c) id
    · rw [hcount, List.count_eq_zero_of_not_mem hdot]

theorem dot_cases (s : List Char) :
    '.' ∉ s ∨ ∃ whole decimals, '.' ∉ whole ∧ s = whole ++ '.' :: decimals := by
  by_cases h : '.' ∈ s
  · obtain ⟨whole, decimals, hs, hdot⟩ := List.eq_append_cons_of_mem h
    exact .inr ⟨whole, decimals, hdot, hs⟩
  · exact .inl h

/-- **Which texts are literals**, and what they stand for. -/
theorem value?_eq_some_iff {q : ℚ} : value? s = some q ↔ IsLiteral s ∧ q = literalValue s := by
  unfold value? literalValue wholePart decimalPart
  rcases dot_cases s with hdot | ⟨whole, decimals, hdot, rfl⟩
  · have hvalue : (digitsValue s : ℚ) + digitsValue [] / 10 ^ ([] : List Char).length =
        digitsValue s := by simp [digitsValue]
    rw [span_of_notMem hdot, isLiteral_iff_of_notMem hdot, ← isNumber_iff]
    dsimp only
    rw [Option.ite_none_right_eq_some, Option.some.injEq, List.tail_nil, hvalue, eq_comm (a := q)]
  · have hvalue : (digitsValue whole : ℚ) + digitsValue decimals / 10 ^ decimals.length =
        (digitsValue (whole ++ decimals) : ℚ) / 10 ^ decimals.length := by
      rw [digitsValue_append, Nat.cast_add, add_div]
      simp
    rw [span_dot hdot, isLiteral_dot_iff hdot, ← isNumber_iff]
    dsimp only
    rw [Option.ite_none_right_eq_some, Option.some.injEq, List.tail_cons, hvalue, eq_comm (a := q)]

theorem literalValue_nonneg (s : List Char) : 0 ≤ literalValue s := by
  unfold literalValue
  positivity

/-- With at most two decimals a literal is of hundredths. -/
theorem literalValue_of_length_le (h : (decimalPart s).length ≤ 2) :
    ∃ n : ℕ, literalValue s = n / 100 := by
  refine ⟨100 * digitsValue (wholePart s) +
    digitsValue (decimalPart s) * 10 ^ (2 - (decimalPart s).length), ?_⟩
  unfold literalValue
  interval_cases (decimalPart s).length <;> push_cast <;> ring

end Literal

/-! ### Seconds -/

section Seconds

variable {s s' : List Char} {k : ℕ}

theorem toSeconds_nonneg {q : ℚ} (h : 0 ≤ q) : 0 ≤ toSeconds q :=
  roundEven_nonneg (nearestBinary_nonneg (mul_nonneg (nearestBinary_nonneg h) (by norm_num)))

/-- **Which texts are read**: literals of no more seconds than the longest duration. -/
theorem seconds?_eq_some_iff :
    seconds? s = some k ↔ IsLiteral s ∧ toSeconds (literalValue s) = k ∧ k ≤ maxSeconds := by
  have hnonneg := toSeconds_nonneg (literalValue_nonneg s)
  unfold seconds?
  cases hvalue : value? s with
  | none =>
    refine iff_of_false nofun fun h => ?_
    rw [value?_eq_some_iff.mpr ⟨h.1, rfl⟩] at hvalue
    cases hvalue
  | some q =>
    obtain ⟨hliteral, rfl⟩ := value?_eq_some_iff.mp hvalue
    dsimp only
    rw [Option.ite_none_right_eq_some, Option.some.injEq]
    constructor
    · rintro ⟨hle, rfl⟩
      exact ⟨hliteral, by omega, by omega⟩
    · rintro ⟨-, hk, hle⟩
      exact ⟨by omega, by omega⟩

theorem secondsInDoubles_eq_some_iff {q : ℚ} (hq : 0 ≤ q) (hk : k ≤ maxSeconds) :
    secondsInDoubles q = some (k : ℤ) ↔ toSeconds q = k := by
  rcases secondsInDoubles_eq hq with h | ⟨h, hlt⟩
  · rw [h, Option.some.injEq]
  · rw [h]
    exact iff_of_false nofun (by omega)

/-- What is read is less than a second off: the two roundings lose a part of at most `2 ^ -53` of
the longest duration each, and the last one half a second. -/
theorem abs_toSeconds_sub_lt {q : ℚ} (hq : 0 ≤ q) (h : toSeconds q ≤ maxSeconds) :
    |(toSeconds q : ℚ) - q * 3600| < 1 := by
  have hle : (toSeconds q : ℚ) ≤ 86399999999999 := by exact_mod_cast h
  unfold toSeconds at hle ⊢
  have h₁ := abs_le.mp (abs_nearestBinary_sub_le hq)
  have hnn := nearestBinary_nonneg hq
  have h₂ := abs_le.mp (abs_nearestBinary_sub_le (q := nearestBinary q * 3600) (by positivity))
  have h₃ := abs_le.mp (abs_roundEven_sub_le (nearestBinary (nearestBinary q * 3600)))
  rw [abs_lt]
  constructor <;> linarith

/-- Hundredths of an hour are whole seconds, and all that are not too many are read so. -/
theorem toSeconds_hundredths {n : ℕ} (h : toSeconds ((n : ℚ) / 100) ≤ maxSeconds) :
    toSeconds ((n : ℚ) / 100) = 36 * n := by
  refine toSeconds_literal (not_le.mp fun hge => ?_)
  have hlow : toSeconds (((2 ^ 42 - 1 : ℕ) : ℚ) / 100) ≤ toSeconds ((n : ℚ) / 100) :=
    toSeconds_mono (div_le_div_of_nonneg_right (by exact_mod_cast (by omega)) (by norm_num))
  rw [toSeconds_literal (by norm_num)] at hlow
  unfold maxSeconds at h
  norm_num at hlow
  omega

theorem seconds?_of_le (h : seconds? s = some k) (hs : IsLiteral s')
    (hle : literalValue s' ≤ literalValue s) : ∃ k' ≤ k, seconds? s' = some k' := by
  obtain ⟨-, hk, hmax⟩ := seconds?_eq_some_iff.mp h
  have hmono := toSeconds_mono hle
  have hnonneg := toSeconds_nonneg (literalValue_nonneg s')
  refine ⟨(toSeconds (literalValue s')).toNat, by omega, ?_⟩
  exact seconds?_eq_some_iff.mpr ⟨hs, by omega, by omega⟩

end Seconds

/-! ### The hundredths nearest to whole minutes -/

theorem hundredths_eq_round (m : ℕ) : (hundredths m : ℤ) = round (5 * m / 3 : ℚ) := by
  obtain ⟨hhigh, hlow⟩ := hundredths_bounds m
  have hhigh' : (3 * hundredths m : ℚ) ≤ 5 * m + 1 := by exact_mod_cast hhigh
  have hlow' : (5 * m : ℚ) ≤ 3 * hundredths m + 1 := by exact_mod_cast hlow
  rw [round_eq, eq_comm, Int.floor_eq_iff, Int.cast_natCast]
  constructor <;> linarith

/-- Two decimals write hundredths out. -/
theorem toList_twoDecimals_natCast (n : ℕ) : (twoDecimals ((n : ℚ) / 100)).toList = literal n := by
  have hround : roundEven ((n : ℚ) / 100 * 100) = n := by
    rw [div_mul_cancel₀ _ (by norm_num)]
    exact roundEven_intCast n
  rw [toList_twoDecimals, hround, Int.toNat_natCast]

/-- What is rendered for whole minutes are the nearest hundredths of an hour. -/
theorem render_eq_hundredths {m : ℕ} (h : m < 2 ^ 38) :
    render (60 * m) = twoDecimals ((hundredths m : ℚ) / 100) := by
  rw [render_minutes h, ← String.toList_inj, toList_twoDecimals_minutes, toList_twoDecimals_natCast]

/-- Hundredths are 36 seconds each, so those next to the nearest ones are more than 18 seconds
off. -/
theorem natAbs_hundredths_sub_le_iff (n m : ℕ) :
    (((36 * n : ℕ) : ℤ) - (60 * m : ℕ)).natAbs ≤ 18 ↔ n = hundredths m := by
  obtain ⟨hhigh, hlow⟩ := hundredths_bounds m
  omega

/-- **Which literals with two decimals are within 18 seconds of whole minutes**: those of the nearest
hundredths of an hour. -/
theorem seconds?_near_iff {s : List Char} {m : ℕ} (hs : IsLiteral s)
    (hlength : (decimalPart s).length = 2) (hm : m < 2 ^ 38) :
    (∃ k, seconds? s = some k ∧ ((k : ℤ) - (60 * m : ℕ)).natAbs ≤ 18) ↔
      literalValue s = (hundredths m : ℚ) / 100 := by
  constructor
  · rintro ⟨k, hk, hnear⟩
    obtain ⟨-, heq, hmax⟩ := seconds?_eq_some_iff.mp hk
    obtain ⟨n, hn⟩ := literalValue_of_length_le hlength.le
    rw [hn] at heq ⊢
    have hseconds := toSeconds_hundredths (n := n) (by omega)
    obtain rfl : k = 36 * n := by omega
    rw [(natAbs_hundredths_sub_le_iff n m).mp hnear]
  · intro hvalue
    obtain ⟨hhigh, hlow⟩ := hundredths_bounds m
    refine ⟨36 * hundredths m, seconds?_eq_some_iff.mpr ⟨hs, ?_, ?_⟩, ?_⟩
    · rw [hvalue, toSeconds_literal (by omega)]
      rfl
    · unfold maxSeconds
      omega
    · exact (natAbs_hundredths_sub_le_iff _ m).mpr rfl

/-! ### Reading -/

/-- **Literals are read correctly.** A text is read exactly if it is a literal of no more seconds
than the longest duration, the seconds being the nearest double, times 3600 in doubles, rounded.
What is read is less than a second off, exact for at most two decimals, and a literal of a smaller or
equal value is read too, as no more seconds. -/
theorem seconds?_exact (s : List Char) :
    (∀ k : ℕ, seconds? s = some k ↔
      IsLiteral s ∧ secondsInDoubles (literalValue s) = some (k : ℤ) ∧ k ≤ maxSeconds) ∧
    ∀ k : ℕ, seconds? s = some k →
      |(k : ℚ) - literalValue s * 3600| < 1 ∧
      ((decimalPart s).length ≤ 2 → (k : ℚ) = literalValue s * 3600) ∧
      ∀ s', IsLiteral s' → literalValue s' ≤ literalValue s → ∃ k' ≤ k, seconds? s' = some k' := by
  have hvalue := literalValue_nonneg s
  refine ⟨fun k => ?_, fun k hk => ⟨?_, fun hlength => ?_, fun s' => seconds?_of_le hk⟩⟩
  · rw [seconds?_eq_some_iff]
    refine and_congr_right fun _ => ?_
    rw [and_congr_left_iff]
    exact fun hmax => (secondsInDoubles_eq_some_iff hvalue hmax).symm
  · obtain ⟨-, heq, hmax⟩ := seconds?_eq_some_iff.mp hk
    have hlt := abs_toSeconds_sub_lt hvalue (by omega)
    rwa [heq, Int.cast_natCast] at hlt
  · obtain ⟨-, heq, hmax⟩ := seconds?_eq_some_iff.mp hk
    obtain ⟨n, hn⟩ := literalValue_of_length_le hlength
    rw [hn] at heq ⊢
    have hseconds := toSeconds_hundredths (n := n) (by omega)
    obtain rfl : k = 36 * n := by omega
    push_cast
    ring

/-- Three quarters of an hour with two decimals, and a third of one with more. -/
theorem seconds?_exact_threeQuarters : ∃ k k' : ℕ,
    seconds? "0.75".toList = some k ∧ (k : ℚ) = literalValue "0.75".toList * 3600 ∧
    seconds? ".3333".toList = some k' ∧ k' ≤ k ∧
    |(k' : ℚ) - literalValue ".3333".toList * 3600| < 1 := by
  have hk : seconds? "0.75".toList = some 2700 := by decide +kernel
  obtain ⟨-, hread⟩ := seconds?_exact "0.75".toList
  obtain ⟨-, hread'⟩ := seconds?_exact ".3333".toList
  obtain ⟨-, hexact, hmono⟩ := hread 2700 hk
  have hvalue : value? ".3333".toList = some (3333 / 10000) := by decide +kernel
  obtain ⟨hliteral, -⟩ := value?_eq_some_iff.mp hvalue
  obtain ⟨k', hle, hk'⟩ := hmono _ hliteral (by decide +kernel)
  exact ⟨2700, k', hk, hexact (by decide +kernel), hk', hle, (hread' k' hk').1⟩

end TimeJournal.Hours
