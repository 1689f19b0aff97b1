import TimeJournal.Proofs.Hours.Rounding

/-! # Doubles

A double has at most 53 significant bits and an exponent of a bounded range. The arithmetic on hours
leaves the bounds out. Here they are put back: below the range a value is rounded to a multiple of
the least double, above it there is no double.

* `nearestDouble_nearest`, `nearestDouble_eq_none_iff`: what the double nearest to a value is, and
  from where on there is none.
* `secondsInDoubles_eq`: with the bounds the seconds are the same, up to the longest duration and
  far beyond. -/

namespace TimeJournal.Hours

/-! ### Doubles -/

/-- A finite double that is not negative: an integer of at most 53 bits, times a power of two of
the range. -/
def IsDouble (q : ℚ) : Prop :=
  ∃ (n : ℕ) (e : ℤ), n < 2 ^ 53 ∧ -1074 ≤ e ∧ e ≤ 971 ∧ q = n * 2 ^ e

/-- The exponent of the last binary digit of a double near to a value. -/
def lastExponent (q : ℚ) : ℤ := max (leadingExponent q - 52) (-1074)

/-- The double nearest to a value that is not negative; of two equally near ones the one with an even
last bit. Too great a value has none. -/
def nearestDouble (q : ℚ) : Option ℚ :=
  if q ≤ 0 then some 0
  else if roundTo (lastExponent q) q < 2 ^ (1024 : ℤ) then some (roundTo (lastExponent q) q)
  else none

/-- The whole seconds of a number of hours, worked out in doubles. -/
def secondsInDoubles (hours : ℚ) : Option ℤ :=
  ((nearestDouble hours).bind fun h => nearestDouble (h * 3600)).map roundEven

section NearestDouble

variable {q r : ℚ}

theorem nearestDouble_of_pos (h : 0 < q) : nearestDouble q =
    if roundTo (lastExponent q) q < 2 ^ (1024 : ℤ) then some (roundTo (lastExponent q) q) else none :=
  if_neg (not_le.mpr h)

theorem eq_roundTo_of_nearestDouble (hq : 0 < q) (h : nearestDouble q = some r) :
    r = roundTo (lastExponent q) q ∧ r < 2 ^ (1024 : ℤ) := by
  rw [nearestDouble_of_pos hq] at h
  split_ifs at h with hlt
  cases h
  exact ⟨rfl, hlt⟩

theorem lastExponent_of_le (h : -1022 ≤ leadingExponent q) :
    lastExponent q = leadingExponent q - 52 :=
  max_eq_left (by omega)

theorem lastExponent_of_ge (h : leadingExponent q ≤ -1022) : lastExponent q = -1074 :=
  max_eq_right (by omega)

/-- A value has at most 53 binary digits down to the last one of its double. -/
theorem le_zpow_lastExponent (h : 0 < q) : q ≤ (2 : ℚ) ^ (lastExponent q + 53) := by
  refine (lt_zpow_leadingExponent h).le.trans (two_zpow_le_iff.mpr ?_)
  unfold lastExponent
  omega

theorem isDouble_zpow {e : ℤ} (h : -1074 ≤ e) (h' : e ≤ 1023) : IsDouble (2 ^ e) := by
  rcases le_total e 971 with hle | hle
  · exact ⟨1, e, by norm_num, h, hle, by simp⟩
  · refine ⟨2 ^ (e - 971).toNat, 971, ?_, by norm_num, le_rfl, ?_⟩
    · exact Nat.pow_lt_pow_right (by norm_num) (by omega)
    · rw [zpow_eq_mul hle, Int.cast_pow, Nat.cast_pow]
      rfl

/-- **What a value is rounded to is a double.** -/
theorem isDouble_of_nearestDouble (h : nearestDouble q = some r) : IsDouble r := by
  rcases le_or_gt q 0 with hq | hq
  · rw [nearestDouble, if_pos hq] at h
    cases h
    exact ⟨0, 0, by norm_num, by norm_num, by norm_num, by simp⟩
  obtain ⟨hr, hlt⟩ := eq_roundTo_of_nearestDouble hq h
  have hlow : -1074 ≤ lastExponent q := le_max_right _ _
  have htop : r ≤ 2 ^ (lastExponent q + 53) := by
    rw [hr]
    exact roundTo_le_zpow (by omega) (le_zpow_lastExponent hq)
  rcases htop.eq_or_lt with htop | hbelow
  · -- the last digit is carried through to a power of two
    rw [htop] at hlt ⊢
    have := two_zpow_lt_iff.mp hlt
    exact isDouble_zpow (by omega) (by omega)
  obtain ⟨n, hn⟩ := exists_roundTo_eq (lastExponent q) hq.le
  rw [← hr] at hn
  refine ⟨n, lastExponent q, ?_, hlow, ?_, hn⟩
  · rw [hn, zpow_eq_mul (show lastExponent q ≤ lastExponent q + 53 by omega)] at hbelow
    have := lt_of_mul_lt_mul_right hbelow (by positivity)
    rw [add_sub_cancel_left] at this
    exact_mod_cast this
  · rcases le_total (leadingExponent q) (-1022) with hlead | hlead
    · rw [lastExponent_of_ge hlead]
      norm_num
    · have hlast := lastExponent_of_le hlead
      rw [hr] at hlt
      have := two_zpow_lt_iff.mp
        ((zpow_le_roundTo (by omega) (zpow_leadingExponent_le hq)).trans_lt hlt)
      omega

/-- **No double is nearer**: a double is a multiple of the unit that is rounded to, or is less than
the leading digit of the value, which is a multiple. -/
theorem nearestDouble_nearest (hq : 0 ≤ q) (h : nearestDouble q = some r) {x : ℚ} (hx : IsDouble x) :
    |r - q| ≤ |x - q| := by
  rcases hq.eq_or_lt with rfl | hq
  · cases h
    simp
  obtain ⟨hr, -⟩ := eq_roundTo_of_nearestDouble hq h
  obtain ⟨n, e, hn, he, -, rfl⟩ := hx
  rw [hr]
  rcases le_or_gt (lastExponent q) e with hle | hlt
  · have hmul : (n : ℚ) * 2 ^ e = ((n * 2 ^ (e - lastExponent q).toNat : ℤ) : ℚ) *
        2 ^ lastExponent q := by
      rw [zpow_eq_mul hle]
      push_cast
      ring
    rw [hmul]
    exact abs_roundTo_sub_le_abs _ _ _
  · have hlead : lastExponent q = leadingExponent q - 52 := by
      unfold lastExponent at hlt ⊢
      omega
    have hbelow : (n : ℚ) * 2 ^ e ≤ 2 ^ leadingExponent q := by
      calc (n : ℚ) * 2 ^ e ≤ 2 ^ 53 * 2 ^ e :=
            mul_le_mul_of_nonneg_right (by exact_mod_cast hn.le) (by positivity)
        _ = 2 ^ (e + 53) := by rw [zpow_add₀ two_ne_zero, mul_comm]; rfl
        _ ≤ 2 ^ leadingExponent q := two_zpow_le_iff.mpr (by omega)
    have hle := zpow_leadingExponent_le hq
    have hnear := abs_roundTo_sub_le_abs (lastExponent q) q
      (2 ^ (leadingExponent q - lastExponent q).toNat)
    rw [← zpow_eq_mul (by omega)] at hnear
    refine hnear.trans ?_
    rw [abs_of_nonpos (by linarith), abs_of_nonpos (by linarith)]
    linarith

theorem le_roundTo_iff {n e : ℤ} (h : Even n) :
    n * 2 ^ e ≤ roundTo e q ↔ n * 2 ^ e - 2 ^ e / 2 ≤ q := by
  have hpos : (0 : ℚ) < 2 ^ e := by positivity
  rw [roundTo, mul_le_mul_iff_left₀ hpos, Int.cast_le, le_roundEven_iff h, le_div_iff₀ hpos, sub_mul,
    one_div_mul_eq_div]

/-- **From half a unit above the greatest double there is none.** The greatest one is
`2 ^ 1024 - 2 ^ 971`; half-way to the next multiple, that one is even. -/
theorem nearestDouble_eq_none_iff :
    nearestDouble q = none ↔ (2 : ℚ) ^ (1024 : ℤ) - 2 ^ (971 : ℤ) / 2 ≤ q := by
  have htwice : (2 : ℚ) ^ (1024 : ℤ) = 2 * 2 ^ (1023 : ℤ) := zpow_one_add₀ two_ne_zero 1023
  have hunit : (2 : ℚ) ^ (971 : ℤ) ≤ 2 ^ (1023 : ℤ) := two_zpow_le_iff.mpr (by norm_num)
  have hpos : (0 : ℚ) < 2 ^ (971 : ℤ) := by positivity
  have hthreshold : (2 : ℚ) ^ (1023 : ℤ) ≤ 2 ^ (1024 : ℤ) - 2 ^ (971 : ℤ) / 2 := by
    rw [htwice]
    generalize (2 : ℚ) ^ (1023 : ℤ) = half at hunit
    generalize (2 : ℚ) ^ (971 : ℤ) = unit at hunit hpos
    linarith
  rcases le_or_gt q 0 with hq | hq
  · rw [nearestDouble, if_pos hq]
    exact iff_of_false nofun (not_le.mpr ((hq.trans_lt (by positivity)).trans_le hthreshold))
  rw [nearestDouble_of_pos hq, ite_eq_right_iff, imp_iff_not (Option.some_ne_none _), not_lt]
  rcases lt_trichotomy (leadingExponent q) 1023 with hlead | hlead | hlead
  · have hlt : q < 2 ^ (1023 : ℤ) :=
      (lt_zpow_leadingExponent hq).trans_le (two_zpow_le_iff.mpr (by omega))
    have hlast : lastExponent q ≤ 1023 := by
      unfold lastExponent
      omega
    refine iff_of_false (not_le.mpr ?_) (not_le.mpr (hlt.trans_le hthreshold))
    exact (roundTo_le_zpow hlast hlt.le).trans_lt (two_zpow_lt_iff.mpr (by norm_num))
  · have hlast : lastExponent q = 971 := by
      rw [lastExponent_of_le (by omega), hlead]
      norm_num
    have htop : (2 : ℚ) ^ (1024 : ℤ) = (2 ^ 53 : ℤ) * 2 ^ (971 : ℤ) :=
      zpow_eq_mul (e := 971) (f := 1024) (by norm_num)
    rw [hlast, htop]
    exact le_roundTo_iff (by decide)
  · have hpow : (2 : ℚ) ^ (1024 : ℤ) ≤ 2 ^ leadingExponent q :=
      two_zpow_le_iff.mpr (by omega)
    have hlast := lastExponent_of_le (q := q) (by omega)
    have hlead := zpow_leadingExponent_le hq
    exact iff_of_true (hpow.trans (zpow_le_roundTo (by omega) hlead))
      ((sub_le_self _ (by positivity)).trans (hpow.trans hlead))

/-- Between the ends of the range a double is a binary fraction of 53 significant bits. -/
theorem nearestDouble_cases (hq : 0 ≤ q) :
    (q ≤ 2 ^ (-1022 : ℤ) ∧ ∃ r, nearestDouble q = some r ∧ 0 ≤ r ∧ r ≤ 2 ^ (-1022 : ℤ)) ∨
    (2 ^ (-1022 : ℤ) ≤ q ∧ nearestDouble q = some (nearestBinary q)) ∨
    (2 ^ (1000 : ℤ) ≤ q ∧ nearestDouble q = none) := by
  rcases hq.eq_or_lt with rfl | hpos
  · exact .inl ⟨by positivity, 0, rfl, le_rfl, by positivity⟩
  rcases le_total q (2 ^ (-1022 : ℤ)) with hlow | hlow
  · have hlead := two_zpow_le_iff.mp ((zpow_leadingExponent_le hpos).trans hlow)
    have hlast := lastExponent_of_ge hlead
    have hle : roundTo (-1074) q ≤ 2 ^ (-1022 : ℤ) := roundTo_le_zpow (by norm_num) hlow
    have hlt : roundTo (-1074) q < 2 ^ (1024 : ℤ) :=
      hle.trans_lt (two_zpow_lt_iff.mpr (by norm_num))
    rw [nearestDouble_of_pos hpos, hlast, if_pos hlt]
    exact .inl ⟨hlow, _, rfl, roundTo_nonneg _ hq, hle⟩
  · have hlead := (le_leadingExponent_iff hpos).mpr hlow
    rw [nearestDouble_of_pos hpos, lastExponent_of_le hlead, ← nearestBinary_of_pos hpos]
    split_ifs with hlt
    · exact .inr (.inl ⟨hlow, rfl⟩)
    · refine .inr (.inr ⟨?_, rfl⟩)
      by_contra hgt
      exact hlt ((nearestBinary_le_zpow (not_le.mp hgt).le).trans_lt
        (two_zpow_lt_iff.mpr (by norm_num)))

end NearestDouble

/-! ### Seconds -/

/-- A product of hours with the seconds of one has at most twelve binary digits more. -/
theorem mul_le_zpow {q : ℚ} {e : ℤ} (h : q ≤ 2 ^ e) : q * 3600 ≤ 2 ^ (e + 12) := by
  rw [zpow_add₀ two_ne_zero]
  exact mul_le_mul h (by norm_num) (by norm_num) (by positivity)

theorem roundEven_eq_zero {q : ℚ} (hq : 0 ≤ q) (h : q ≤ 2 ^ (-2 : ℤ)) : roundEven q = 0 := by
  refine roundEven_eq ?_
  rw [Int.cast_zero, sub_zero, abs_of_nonneg hq]
  exact h.trans_lt (by norm_num)

theorem toSeconds_eq_zero {q : ℚ} (hq : 0 ≤ q) (h : q ≤ 2 ^ (-1022 : ℤ)) : toSeconds q = 0 := by
  have hnn := nearestBinary_nonneg hq
  have hsmall := nearestBinary_le_zpow (mul_le_zpow (nearestBinary_le_zpow h))
  refine roundEven_eq_zero (nearestBinary_nonneg (by positivity)) (hsmall.trans ?_)
  exact two_zpow_le_iff.mpr (by norm_num)

theorem maxSeconds_lt_roundEven {q : ℚ} (h : 2 ^ (1000 : ℤ) ≤ q) :
    (maxSeconds : ℤ) < roundEven (nearestBinary q) := by
  have hlow : ((2 ^ 47 : ℤ) : ℚ) ≤ nearestBinary q := by
    have hcast : ((2 ^ 47 : ℤ) : ℚ) = 2 ^ (47 : ℤ) := by norm_num
    rw [hcast]
    exact (two_zpow_le_iff.mpr (by norm_num)).trans (zpow_le_nearestBinary h)
  have hround := roundEven_mono hlow
  rw [roundEven_intCast] at hround
  unfold maxSeconds
  omega

/-- **The bounds of doubles do not matter to seconds**: values below the range are rounded to no
seconds, and values above it are more than the longest duration. -/
theorem secondsInDoubles_eq {q : ℚ} (hq : 0 ≤ q) :
    secondsInDoubles q = some (toSeconds q) ∨
      secondsInDoubles q = none ∧ (maxSeconds : ℤ) < toSeconds q := by
  unfold secondsInDoubles
  rcases nearestDouble_cases hq with ⟨hlow, r, hr, hr0, hrle⟩ | ⟨hlow, hr⟩ | ⟨hhigh, hr⟩
  · left
    rw [hr, toSeconds_eq_zero hq hlow, Option.bind_some]
    have hsmall := mul_le_zpow hrle
    rcases nearestDouble_cases (q := r * 3600) (by positivity) with
      ⟨-, r', hr', hr0', hrle'⟩ | ⟨-, hr'⟩ | ⟨hhigh, -⟩
    · rw [hr', Option.map_some, roundEven_eq_zero hr0' (hrle'.trans ?_)]
      exact two_zpow_le_iff.mpr (by norm_num)
    · rw [hr', Option.map_some, roundEven_eq_zero (nearestBinary_nonneg (by positivity))]
      exact (nearestBinary_le_zpow hsmall).trans (two_zpow_le_iff.mpr (by norm_num))
    · have := two_zpow_le_iff.mp (hhigh.trans hsmall)
      omega
  · have hnn := nearestBinary_nonneg hq
    have hge := zpow_le_nearestBinary hlow
    rw [hr, Option.bind_some]
    rcases nearestDouble_cases (q := nearestBinary q * 3600) (by positivity) with
      ⟨hlow', -⟩ | ⟨-, hr'⟩ | ⟨hhigh, hr'⟩
    · have : (0 : ℚ) < 2 ^ (-1022 : ℤ) := by positivity
      linarith
    · rw [hr']
      exact .inl rfl
    · rw [hr']
      exact .inr ⟨rfl, maxSeconds_lt_roundEven hhigh⟩
  · right
    rw [hr]
    refine ⟨rfl, maxSeconds_lt_roundEven ?_⟩
    have hge := zpow_le_nearestBinary hhigh
    exact hge.trans (le_mul_of_one_le_right (nearestBinary_nonneg hq) (by norm_num))

end TimeJournal.Hours
