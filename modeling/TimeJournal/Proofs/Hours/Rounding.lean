import Mathlib.Algebra.Order.Field.Power
import Mathlib.Algebra.Order.Floor.Ring
import Mathlib.Data.Nat.Log
import Mathlib.Data.Rat.Floor
import Mathlib.Tactic.FieldSimp
import Mathlib.Tactic.Linarith
import Mathlib.Tactic.Positivity
import Mathlib.Tactic.SplitIfs
import TimeJournal.Hours

/-! # Rounding

* `abs_roundEven_sub_le`: rounding to an integer is off by at most a half.
* `abs_nearestBinary_sub_le`: a binary fraction of 53 significant bits is off by at most the 2⁻⁵³-th
  part of the value.
* `roundEven_mono`, `nearestBinary_mono`, `toSeconds_mono`: rounding keeps the order. -/

namespace TimeJournal.Hours

/-! ### Rounding to integers -/

theorem abs_roundEven_sub_le (q : ℚ) : |(roundEven q : ℚ) - q| ≤ 1 / 2 := by
  have hlo : (q.floor : ℚ) ≤ q := Rat.floor_le q
  have hhi : q < (q.floor : ℚ) + 1 := by
    have := Rat.lt_floor_add_one q
    push_cast at this
    exact this
  unfold roundEven
  dsimp only
  rw [abs_le]
  split_ifs with h₁ h₂ h₃
  · constructor <;> linarith
  · push_cast; constructor <;> linarith
  · constructor <;> linarith
  · push_cast; constructor <;> linarith

/-- An integer within less than one of a rounded value is that value. -/
theorem roundEven_eq {q : ℚ} {n : ℤ} (h : |q - n| < 1 / 2) : roundEven q = n := by
  have hr := abs_le.mp (abs_roundEven_sub_le q)
  have hq := abs_lt.mp h
  have hlt : (roundEven q : ℚ) < n + 1 := by linarith
  have hgt : (n : ℚ) - 1 < roundEven q := by linarith
  have hlt' : roundEven q < n + 1 := by exact_mod_cast hlt
  have hgt' : n - 1 < roundEven q := by exact_mod_cast hgt
  omega

theorem roundEven_nonneg {q : ℚ} (h : 0 ≤ q) : 0 ≤ roundEven q := by
  have hr := abs_le.mp (abs_roundEven_sub_le q)
  have hgt : (-1 : ℚ) < roundEven q := by linarith
  have hgt' : -1 < roundEven q := by exact_mod_cast hgt
  omega

theorem roundEven_intCast (n : ℤ) : roundEven n = n :=
  roundEven_eq (by simp)

theorem roundEven_mono {p q : ℚ} (h : p ≤ q) : roundEven p ≤ roundEven q := by
  by_contra hlt
  have hp := abs_le.mp (abs_roundEven_sub_le p)
  have hq := abs_le.mp (abs_roundEven_sub_le q)
  have hstep : (roundEven q : ℚ) + 1 ≤ roundEven p := by exact_mod_cast not_le.mp hlt
  -- the two are half-way between the same integers
  obtain rfl : p = q := by linarith
  exact hlt le_rfl

/-- No integer is nearer. -/
theorem abs_roundEven_sub_le_abs (q : ℚ) (n : ℤ) : |(roundEven q : ℚ) - q| ≤ |(n : ℚ) - q| := by
  have hround := abs_roundEven_sub_le q
  rcases eq_or_ne (roundEven q) n with heq | hne
  · rw [heq]
  have hone : (1 : ℚ) ≤ |(roundEven q : ℚ) - n| := by
    exact_mod_cast Int.one_le_abs (sub_ne_zero.mpr hne)
  have htriangle := abs_sub_le (roundEven q : ℚ) q n
  rw [abs_sub_comm q n] at htriangle
  linarith

/-- Half-way to an even integer is rounded to it. -/
theorem roundEven_sub_half {n : ℤ} (h : Even n) : roundEven (n - 1 / 2) = n := by
  have hlow : ((n - 1 / 2 : ℚ).floor : ℚ) ≤ n - 1 / 2 := Rat.floor_le _
  have hhigh : (n - 1 / 2 : ℚ) < (n - 1 / 2 : ℚ).floor + 1 := by exact_mod_cast Rat.lt_floor_add_one _
  have hfloor : (n - 1 / 2 : ℚ).floor = n - 1 := by
    have h₁ : ((n - 1 / 2 : ℚ).floor : ℚ) < n := by linarith
    have h₂ : (n : ℚ) < (n - 1 / 2 : ℚ).floor + 2 := by linarith
    have h₁' : (n - 1 / 2 : ℚ).floor < n := by exact_mod_cast h₁
    have h₂' : n < (n - 1 / 2 : ℚ).floor + 2 := by exact_mod_cast h₂
    omega
  have hexcess : (n - 1 / 2 : ℚ) - (n - 1 : ℤ) = 1 / 2 := by push_cast; ring
  have hodd : ¬ (n - 1) % 2 = 0 := by
    have := Int.even_iff.mp h
    omega
  unfold roundEven
  rw [hfloor]
  dsimp only
  rw [hexcess, if_neg (lt_irrefl _), if_neg (lt_irrefl _), if_neg hodd]
  omega

theorem le_roundEven_iff {n : ℤ} {q : ℚ} (h : Even n) : n ≤ roundEven q ↔ n - 1 / 2 ≤ q := by
  constructor
  · intro hle
    have hround := abs_le.mp (abs_roundEven_sub_le q)
    have : (n : ℚ) ≤ roundEven q := by exact_mod_cast hle
    linarith
  · intro hle
    rw [← roundEven_sub_half h]
    exact roundEven_mono hle

/-! ### Rounding to multiples of a power of two -/

theorem two_zpow_le_iff {e f : ℤ} : (2 : ℚ) ^ e ≤ 2 ^ f ↔ e ≤ f :=
  zpow_le_zpow_iff_right₀ one_lt_two

theorem two_zpow_lt_iff {e f : ℤ} : (2 : ℚ) ^ e < 2 ^ f ↔ e < f :=
  zpow_lt_zpow_iff_right₀ one_lt_two

/-- The multiple of a power of two nearest to `q`; of two equally near ones the even one. -/
def roundTo (e : ℤ) (q : ℚ) : ℚ := roundEven (q / 2 ^ e) * 2 ^ e

section RoundTo

variable (e : ℤ) {f : ℤ} {q : ℚ}

theorem roundTo_mono {p q : ℚ} (h : p ≤ q) : roundTo e p ≤ roundTo e q := by
  have hround : roundEven (p / 2 ^ e) ≤ roundEven (q / 2 ^ e) :=
    roundEven_mono (div_le_div_of_nonneg_right h (by positivity))
  exact mul_le_mul_of_nonneg_right (by exact_mod_cast hround) (by positivity)

theorem exists_roundTo_eq (h : 0 ≤ q) : ∃ n : ℕ, roundTo e q = n * 2 ^ e := by
  have hround : 0 ≤ roundEven (q / 2 ^ e) := roundEven_nonneg (by positivity)
  obtain ⟨n, hn⟩ := Int.eq_ofNat_of_zero_le hround
  exact ⟨n, by rw [roundTo, hn]; rfl⟩

theorem roundTo_nonneg (h : 0 ≤ q) : 0 ≤ roundTo e q := by
  obtain ⟨n, hn⟩ := exists_roundTo_eq e h
  rw [hn]
  positivity

theorem roundTo_mul (n : ℤ) : roundTo e (n * 2 ^ e) = n * 2 ^ e := by
  rw [roundTo, mul_div_cancel_right₀ _ (by positivity), roundEven_intCast]

/-- A greater power of two is a multiple. -/
theorem zpow_eq_mul {e f : ℤ} (h : e ≤ f) : (2 : ℚ) ^ f = ((2 ^ (f - e).toNat : ℤ) : ℚ) * 2 ^ e := by
  have hnat : ((f - e).toNat : ℤ) = f - e := Int.toNat_of_nonneg (by omega)
  push_cast
  rw [← zpow_natCast, hnat, ← zpow_add₀ two_ne_zero, sub_add_cancel]

theorem roundTo_zpow (h : e ≤ f) : roundTo e (2 ^ f) = 2 ^ f := by
  rw [zpow_eq_mul h, roundTo_mul]

variable {e} in
/-- A power of two that is a multiple is not passed from above, -/
theorem zpow_le_roundTo (h : e ≤ f) (hq : 2 ^ f ≤ q) : 2 ^ f ≤ roundTo e q := by
  rw [← roundTo_zpow e h]
  exact roundTo_mono e hq

variable {e} in
/-- nor from below. -/
theorem roundTo_le_zpow (h : e ≤ f) (hq : q ≤ 2 ^ f) : roundTo e q ≤ 2 ^ f := by
  rw [← roundTo_zpow e h]
  exact roundTo_mono e hq

theorem abs_mul_zpow_sub (q : ℚ) (n : ℚ) :
    |n * 2 ^ e - q| = |n - q / 2 ^ e| * 2 ^ e := by
  have hpos : (0 : ℚ) < 2 ^ e := by positivity
  rw [← abs_of_pos hpos, ← abs_mul, abs_of_pos hpos, sub_mul, div_mul_cancel₀ _ hpos.ne']

theorem abs_roundTo_sub_le (q : ℚ) : |roundTo e q - q| ≤ 2 ^ e / 2 := by
  have hround := abs_roundEven_sub_le (q / 2 ^ e)
  rw [roundTo, abs_mul_zpow_sub, div_eq_mul_one_div ((2 : ℚ) ^ e), mul_comm ((2 : ℚ) ^ e)]
  exact mul_le_mul_of_nonneg_right hround (by positivity)

/-- No multiple is nearer. -/
theorem abs_roundTo_sub_le_abs (q : ℚ) (n : ℤ) : |roundTo e q - q| ≤ |n * 2 ^ e - q| := by
  rw [roundTo, abs_mul_zpow_sub, abs_mul_zpow_sub]
  exact mul_le_mul_of_nonneg_right (abs_roundEven_sub_le_abs _ n) (by positivity)

end RoundTo

/-! ### The leading binary digit -/

theorem natAbs_num_div_den {q : ℚ} (h : 0 < q) : (q.num.natAbs : ℚ) / q.den = q := by
  have hcast : ((q.num.natAbs : ℤ) : ℚ) = q.num := by
    rw [Int.natAbs_of_nonneg (Rat.num_pos.mpr h).le]
  rw [← Int.cast_natCast, hcast, Rat.num_div_den]

theorem zpow_natCast_sub (m n : ℕ) :
    (2 : ℚ) ^ ((m : ℤ) - n) = ((2 ^ m : ℕ) : ℚ) / ((2 ^ n : ℕ) : ℚ) := by
  rw [zpow_sub₀ two_ne_zero]
  push_cast
  norm_cast

/-- The leading binary digit of a value is worth no more than the value. -/
theorem zpow_leadingExponent_le {q : ℚ} (h : 0 < q) : (2 : ℚ) ^ leadingExponent q ≤ q := by
  unfold leadingExponent
  dsimp only
  split_ifs with hguess
  · exact hguess
  · have hnum : q.num.natAbs ≠ 0 := by
      have := Rat.num_pos.mpr h
      omega
    have hlow : ((2 ^ q.num.natAbs.log2 : ℕ) : ℚ) ≤ (q.num.natAbs : ℚ) := by
      exact_mod_cast Nat.log2_self_le hnum
    have hhigh : (q.den : ℚ) ≤ ((2 ^ (q.den.log2 + 1) : ℕ) : ℚ) := by
      exact_mod_cast Nat.lt_log2_self.le
    have hden : (0 : ℚ) < q.den := by exact_mod_cast q.den_pos
    calc (2 : ℚ) ^ ((q.num.natAbs.log2 : ℤ) - q.den.log2 - 1)
        = (2 : ℚ) ^ ((q.num.natAbs.log2 : ℤ) - (q.den.log2 + 1 : ℕ)) := by rw [sub_sub]; rfl
      _ = ((2 ^ q.num.natAbs.log2 : ℕ) : ℚ) / ((2 ^ (q.den.log2 + 1) : ℕ) : ℚ) :=
        zpow_natCast_sub _ _
      _ ≤ (q.num.natAbs : ℚ) / q.den := div_le_div₀ (by positivity) hlow hden hhigh
      _ = q := natAbs_num_div_den h

/-- The next binary digit is worth more. -/
theorem lt_zpow_leadingExponent {q : ℚ} (h : 0 < q) : q < (2 : ℚ) ^ (leadingExponent q + 1) := by
  unfold leadingExponent
  dsimp only
  split_ifs with hguess
  · have hhigh : (q.num.natAbs : ℚ) < ((2 ^ (q.num.natAbs.log2 + 1) : ℕ) : ℚ) := by
      exact_mod_cast Nat.lt_log2_self
    have hlow : ((2 ^ q.den.log2 : ℕ) : ℚ) ≤ (q.den : ℚ) := by
      exact_mod_cast Nat.log2_self_le q.den_pos.ne'
    calc q = (q.num.natAbs : ℚ) / q.den := (natAbs_num_div_den h).symm
      _ < ((2 ^ (q.num.natAbs.log2 + 1) : ℕ) : ℚ) / ((2 ^ q.den.log2 : ℕ) : ℚ) :=
        div_lt_div₀ hhigh hlow (by positivity) (by positivity)
      _ = (2 : ℚ) ^ (((q.num.natAbs.log2 + 1 : ℕ) : ℤ) - q.den.log2) := (zpow_natCast_sub _ _).symm
      _ = (2 : ℚ) ^ ((q.num.natAbs.log2 : ℤ) - q.den.log2 + 1) := by rw [sub_add_eq_add_sub]; rfl
  · rw [sub_add_cancel]
    exact not_le.mp hguess

theorem le_leadingExponent_iff {q : ℚ} (h : 0 < q) {e : ℤ} :
    e ≤ leadingExponent q ↔ (2 : ℚ) ^ e ≤ q := by
  constructor
  · intro he
    exact (two_zpow_le_iff.mpr he).trans (zpow_leadingExponent_le h)
  · intro he
    have hlt := he.trans_lt (lt_zpow_leadingExponent h)
    have := two_zpow_lt_iff.mp hlt
    omega

/-! ### Binary fractions of 53 significant bits -/

section NearestBinary

variable {q : ℚ} {e : ℤ}

theorem nearestBinary_of_pos (h : 0 < q) :
    nearestBinary q = roundTo (leadingExponent q - 52) q :=
  if_neg (not_le.mpr h)

theorem nearestBinary_of_nonpos (h : q ≤ 0) : nearestBinary q = 0 :=
  if_pos h

/-- **A binary fraction of 53 significant bits is off by at most the 2⁻⁵³-th part of the value.** -/
theorem abs_nearestBinary_sub_le (h : 0 ≤ q) : |nearestBinary q - q| ≤ q / 2 ^ 53 := by
  rcases h.eq_or_lt with rfl | hq
  · simp [nearestBinary]
  have hunit : (2 : ℚ) ^ (leadingExponent q - 52) * 2 ^ 52 ≤ q := by
    have heq : (2 : ℚ) ^ (leadingExponent q - 52) * 2 ^ 52 = 2 ^ leadingExponent q := by
      rw [← zpow_natCast, ← zpow_add₀ two_ne_zero]
      norm_num
    rw [heq]
    exact zpow_leadingExponent_le hq
  rw [nearestBinary_of_pos hq]
  exact (abs_roundTo_sub_le _ q).trans (by linarith)

theorem nearestBinary_nonneg (h : 0 ≤ q) : 0 ≤ nearestBinary q := by
  have hr := abs_le.mp (abs_nearestBinary_sub_le h)
  linarith

/-- A power of two is not passed from above, -/
theorem zpow_le_nearestBinary (h : (2 : ℚ) ^ e ≤ q) : (2 : ℚ) ^ e ≤ nearestBinary q := by
  have hq : 0 < q := lt_of_lt_of_le (by positivity) h
  have he := (le_leadingExponent_iff hq).mpr h
  rw [nearestBinary_of_pos hq]
  calc (2 : ℚ) ^ e ≤ 2 ^ leadingExponent q := two_zpow_le_iff.mpr he
    _ ≤ roundTo (leadingExponent q - 52) q :=
      zpow_le_roundTo (by omega) (zpow_leadingExponent_le hq)

/-- nor from below. -/
theorem nearestBinary_le_zpow (h : q ≤ (2 : ℚ) ^ e) : nearestBinary q ≤ (2 : ℚ) ^ e := by
  rcases le_or_gt q 0 with hq | hq
  · rw [nearestBinary_of_nonpos hq]
    positivity
  have he := two_zpow_le_iff.mp ((zpow_leadingExponent_le hq).trans h)
  rw [nearestBinary_of_pos hq]
  exact roundTo_le_zpow (by omega) h

/-- **Binary fractions are rounded to in order.** With the same leading digit the values are rounded
to multiples of the same unit, otherwise there is a power of two between them. -/
theorem nearestBinary_mono {p q : ℚ} (h : p ≤ q) : nearestBinary p ≤ nearestBinary q := by
  rcases le_or_gt p 0 with hp | hp
  · rw [nearestBinary_of_nonpos hp]
    rcases le_total q 0 with hq | hq
    · rw [nearestBinary_of_nonpos hq]
    · exact nearestBinary_nonneg hq
  have hq := hp.trans_le h
  have hle : leadingExponent p ≤ leadingExponent q :=
    (le_leadingExponent_iff hq).mpr ((zpow_leadingExponent_le hp).trans h)
  rcases hle.eq_or_lt with heq | hlt
  · rw [nearestBinary_of_pos hp, nearestBinary_of_pos hq, heq]
    exact roundTo_mono _ h
  · calc nearestBinary p ≤ 2 ^ (leadingExponent p + 1) :=
          nearestBinary_le_zpow (lt_zpow_leadingExponent hp).le
      _ ≤ nearestBinary q := zpow_le_nearestBinary ((le_leadingExponent_iff hq).mp (by omega))

theorem toSeconds_mono {p q : ℚ} (h : p ≤ q) : toSeconds p ≤ toSeconds q :=
  roundEven_mono (nearestBinary_mono
    (mul_le_mul_of_nonneg_right (nearestBinary_mono h) (by norm_num)))

end NearestBinary

end TimeJournal.Hours
