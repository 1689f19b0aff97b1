import TimeJournal.Calendar.TimeToken
import TimeJournal.Proofs.Calendar.Days
import TimeJournal.Proofs.Journal.Grammar
import TimeJournal.Proofs.Text.Digits

/-! # The meaning of a time

What a time token means against a date, said without the steps in which it is worked out: the token
is cut at its colons, each kind of fault has a condition of its own on the fields, and a token that
no kind applies to is so many minutes after midnight, which is an hour and a minute of the day that
the calendar has so many days later.

* `TimeToken.resolve_eq_ok_iff`, `TimeToken.resolve_eq_error_iff`: when a token has a meaning, which
  one, and why not otherwise.
* `TimeToken.resolve_exact`: both together, and the order of two instants of one date. -/

namespace TimeJournal

open Text

/-! ### Digits -/

theorem not_isNumber_iff {s : List Char} : (!isNumber s) = true ↔ ¬ IsNumeral s := by
  rw [Bool.not_eq_true', ← Bool.not_eq_true, isNumber_iff]

theorem notMem_of_isNumeral {s : List Char} (h : IsNumeral s) : ':' ∉ s :=
  fun hc => absurd (h.2 _ hc) (by decide)

/-- The value of digits is at least that of the first one in its place. -/
theorem le_digitsValue_cons {c : Char} {s : List Char} (hc : c.isDigit = true) (hzero : c ≠ '0') :
    10 ^ s.length ≤ digitsValue (c :: s) := by
  have hdigit := toNat_of_isDigit hc
  have hne : c.toNat ≠ 48 := fun h => hzero (Char.toNat_inj.mp h)
  have hone : 1 ≤ digitsValue [c] := by
    show 1 ≤ 10 * 0 + (c.toNat - 48)
    omega
  rw [← List.singleton_append, digitsValue_append]
  exact (Nat.le_mul_of_pos_right _ hone).trans (Nat.le_add_right _ _)

theorem digitsValue_dropWhile_zeros (s : List Char) :
    digitsValue (s.dropWhile (· == '0')) = digitsValue s := by
  induction s with
  | nil => rfl
  | cons c s ih =>
    by_cases hc : c = '0'
    · subst hc
      rw [List.dropWhile_cons_of_pos (by decide), ih, ← List.singleton_append, digitsValue_append]
      exact (Nat.zero_add _).symm
    · rw [List.dropWhile_cons_of_neg (by simpa using hc)]

/-- **A minute is read if its value is at most 59**, with any number of zeros in front. -/
theorem TimeToken.minute?_eq {s : List Char} (h : IsNumeral s) :
    minute? s = if digitsValue s ≤ 59 then some (digitsValue s) else none := by
  unfold minute?
  dsimp only
  rw [digitsValue_dropWhile_zeros]
  by_cases hvalue : digitsValue s ≤ 59
  · have hlength : (s.dropWhile (· == '0')).length ≤ 2 := by
      rcases hdrop : s.dropWhile (· == '0') with _ | ⟨c, r⟩
      · exact Nat.zero_le _
      have hmem : c ∈ s := (List.dropWhile_suffix _).subset (hdrop ▸ List.mem_cons_self)
      have hzero : c ≠ '0' := by
        have hhead := List.head?_dropWhile_not (· == '0') s
        rw [hdrop] at hhead
        simpa using hhead
      have hle := le_digitsValue_cons (s := r) (h.2 c hmem) hzero
      rw [← hdrop, digitsValue_dropWhile_zeros] at hle
      by_contra hlt
      have hpow : 10 ^ 2 ≤ 10 ^ r.length := by
        refine Nat.pow_le_pow_right (by decide) ?_
        rw [List.length_cons] at hlt
        omega
      omega
    rw [if_pos ⟨hlength, hvalue⟩, if_pos hvalue]
  · rw [if_neg (fun h => hvalue h.2), if_neg hvalue]

/-! ### Fields -/

/-- The texts between the colons of a token. -/
def TimeToken.fields (t : TimeToken) : List (List Char) := t.raw.toList.splitOn ':'

/-- A token has two parts if it has two fields. -/
theorem TimeToken.split?_eq (s : List Char) : split? s =
    match s.splitOn ':' with
    | [hour, minute] => some (hour, minute)
    | _ => none := by
  have hne : ∀ {r : List Char}, ':' ∉ r → ∀ c ∈ r, (c != ':') = true := fun hr c hc => by
    rw [bne_iff_ne]
    exact fun h => hr (h ▸ hc)
  unfold split?
  rw [List.span_eq_takeWhile_dropWhile]
  by_cases hs : ':' ∈ s
  · obtain ⟨hour, rest, rfl, hhour⟩ := List.eq_append_cons_of_mem hs
    have hstop : ∀ c ∈ (':' :: rest).head?, (c != ':') = false := by simp
    rw [takeWhile_append_stop (hne hhour) hstop, dropWhile_append_stop (hne hhour) hstop,
      List.splitOn_append_cons_self_of_not_mem hhour]
    by_cases hrest : ':' ∈ rest
    · obtain ⟨minute, more, rfl, hminute⟩ := List.eq_append_cons_of_mem hrest
      rw [List.splitOn_append_cons_self_of_not_mem hminute]
      rcases hmore : more.splitOn ':' with _ | ⟨x, xs⟩
      · exact absurd hmore (List.splitOn_ne_nil _ _)
      · simp
    · rw [List.splitOn_eq_singleton hrest]
      simp [hrest]
  · rw [List.dropWhile_eq_nil_iff.mpr (hne hs), List.splitOn_eq_singleton hs]

/-- The token is written `HOUR:MINUTE`, in digits. -/
structure TimeToken.IsClock (t : TimeToken) (hour minute : List Char) : Prop where
  raw : t.raw.toList = hour ++ ':' :: minute
  hour_isNumeral : IsNumeral hour
  minute_isNumeral : IsNumeral minute

theorem TimeToken.isClock_iff {t : TimeToken} {hour minute : List Char} :
    t.IsClock hour minute ↔ t.fields = [hour, minute] ∧ IsNumeral hour ∧ IsNumeral minute := by
  constructor
  · rintro ⟨hraw, hhour, hminute⟩
    refine ⟨?_, hhour, hminute⟩
    rw [fields, hraw, List.splitOn_append_cons_self_of_not_mem (notMem_of_isNumeral hhour),
      List.splitOn_eq_singleton (notMem_of_isNumeral hminute)]
  · rintro ⟨hfields, hhour, hminute⟩
    refine ⟨?_, hhour, hminute⟩
    have hjoin : [':'].intercalate t.fields = t.raw.toList := List.intercalate_splitOn ':'
    rw [hfields] at hjoin
    rw [← hjoin]
    simp [List.intercalate]

/-- A token is written in one way. -/
theorem TimeToken.IsClock.eq_and_eq {t : TimeToken} {hour minute hour' minute' : List Char}
    (h : t.IsClock hour minute) (h' : t.IsClock hour' minute') :
    hour = hour' ∧ minute = minute' := by
  have hfields := (isClock_iff.mp h).1.symm.trans (isClock_iff.mp h').1
  rw [List.cons.injEq, List.cons.injEq] at hfields
  exact ⟨hfields.1, hfields.2.1⟩

/-! ### Faults -/

namespace TimeFault.Kind

/-- The condition of a kind of fault, for the fields of a token and a date. Only the last kind knows
of the date: its condition is about the calendar behind it. -/
def Applies (d : Date) : List (List Char) → Kind → Prop
  | [hour, _], .nonNumericHour => ¬ IsNumeral hour
  | [_, minute], .nonNumericMinute => ¬ IsNumeral minute
  | [_, minute], .minuteOutOfRange => 59 < digitsValue minute
  | [hour, _], .dateOverflow text reference => text = String.ofList hour ∧ reference = d ∧
      (4300 < hour.length ∨ d.after? (digitsValue hour / 24) = none)
  | fields, .notTwoFields => fields.length ≠ 2
  | _, _ => False

/-- The place of a kind in the order in which they are looked for. -/
def rank : Kind → ℕ
  | .notTwoFields => 0
  | .nonNumericHour => 1
  | .nonNumericMinute => 2
  | .minuteOutOfRange => 3
  | .dateOverflow _ _ => 4

/-- A kind is the first one that applies. -/
def IsFirst (d : Date) (fields : List (List Char)) (k : Kind) : Prop :=
  k.Applies d fields ∧ ∀ k' : Kind, k'.rank < k.rank → ¬ k'.Applies d fields

variable {d : Date} {fields : List (List Char)} {k k' : Kind}

/-- The last kind says which hour is out of range for which date. -/
theorem Applies.eq_of_dateOverflow {text : String} {reference : Date}
    (h : (dateOverflow text reference).Applies d fields) :
    ∃ hour minute, fields = [hour, minute] ∧ text = String.ofList hour ∧ reference = d := by
  rcases fields with _ | ⟨hour, _ | ⟨minute, _ | ⟨more, rest⟩⟩⟩
  · exact h.elim
  · exact h.elim
  · exact ⟨hour, minute, rfl, h.1, h.2.1⟩
  · exact h.elim

/-- Kinds of one rank that apply are the same. -/
theorem Applies.unique (h : k.Applies d fields) (h' : k'.Applies d fields)
    (hrank : k.rank = k'.rank) : k = k' := by
  cases k with
  | dateOverflow text reference =>
    cases k' with
    | dateOverflow text' reference' =>
      obtain ⟨hour, minute, hfields, rfl, rfl⟩ := h.eq_of_dateOverflow
      obtain ⟨hour', minute', hfields', rfl, rfl⟩ := h'.eq_of_dateOverflow
      rw [hfields] at hfields'
      rw [(List.cons.inj hfields').1]
    | _ => cases hrank
  | _ =>
    cases k' with
    | dateOverflow text' reference' => cases hrank
    | _ => first | rfl | cases hrank

theorem IsFirst.unique (h : k.IsFirst d fields) (h' : k'.IsFirst d fields) : k = k' := by
  refine h.1.unique h'.1 (le_antisymm ?_ ?_)
  · exact not_lt.mp fun hlt => h.2 k' hlt h'.1
  · exact not_lt.mp fun hlt => h'.2 k hlt h.1

section Fields

variable {hour minute : List Char}

theorem isFirst_nonNumericHour (h : ¬ IsNumeral hour) :
    nonNumericHour.IsFirst d [hour, minute] := by
  refine ⟨h, fun k' hk => ?_⟩
  cases k' <;> simp_all [rank, Applies]

theorem isFirst_nonNumericMinute (hhour : IsNumeral hour) (h : ¬ IsNumeral minute) :
    nonNumericMinute.IsFirst d [hour, minute] := by
  refine ⟨h, fun k' hk => ?_⟩
  cases k' <;> simp_all [rank, Applies]

theorem isFirst_minuteOutOfRange (hhour : IsNumeral hour) (hminute : IsNumeral minute)
    (h : 59 < digitsValue minute) : minuteOutOfRange.IsFirst d [hour, minute] := by
  refine ⟨h, fun k' hk => ?_⟩
  cases k' <;> simp_all [rank, Applies]

theorem isFirst_dateOverflow (hhour : IsNumeral hour) (hminute : IsNumeral minute)
    (hvalue : digitsValue minute ≤ 59)
    (h : 4300 < hour.length ∨ d.after? (digitsValue hour / 24) = none) :
    (dateOverflow (String.ofList hour) d).IsFirst d [hour, minute] := by
  refine ⟨⟨rfl, rfl, h⟩, fun k' hk => ?_⟩
  cases k' <;> simp_all [rank, Applies]

end Fields

end TimeFault.Kind

/-! ### Resolution -/

namespace TimeToken

open TimeFault (Kind)

variable {t : TimeToken} {d day : Date} {hour minute : List Char}

/-- Against a date the token is a time of a day: its minute is one of an hour, its hour is not too
long to be read, and the calendar has a day so many days behind the date. -/
structure IsTimeOf (t : TimeToken) (d : Date) (hour minute : List Char) (day : Date) : Prop where
  isClock : t.IsClock hour minute
  minute_le : digitsValue minute ≤ 59
  length_le : hour.length ≤ 4300
  day_eq : d.after? (digitsValue hour / 24) = some day

/-- No kind of fault applies to a time of a day. -/
theorem IsTimeOf.not_applies (h : t.IsTimeOf d hour minute day) (k : Kind) :
    ¬ k.Applies d t.fields := by
  obtain ⟨hclock, hvalue, hlength, hday⟩ := h
  obtain ⟨hfields, hhour, hminute⟩ := isClock_iff.mp hclock
  rw [hfields]
  cases k <;> simp_all [Kind.Applies]

/-- The minutes of a time and the date give its instant. -/
def instantOf (d : Date) (hour minute : List Char) : Instant :=
  ⟨(Instant.midnight d).minutes + (60 * digitsValue hour + digitsValue minute)⟩

/-- **All that the resolution of a token comes to**: the first kind of fault that applies, or an
instant. -/
inductive Outcome (t : TimeToken) (d : Date) : Except TimeFault Instant → Prop
  | fault (k : Kind) (h : k.IsFirst d t.fields) : Outcome t d (.error ⟨t, k⟩)
  | instant (hour minute : List Char) (day : Date) (h : t.IsTimeOf d hour minute day) :
      Outcome t d (.ok (instantOf d hour minute))

/-- A token that does not have two fields has no meaning. -/
theorem outcome_of_length (h : t.fields.length ≠ 2) : Outcome t d (t.resolve d) := by
  have hsplit : split? t.raw.toList = none := by
    rw [split?_eq]
    split
    · rename_i hfields
      exact absurd (congrArg List.length hfields) h
    · rfl
  have happlies : Kind.notTwoFields.Applies d t.fields := by
    unfold Kind.Applies
    split <;> simp_all
  simp only [resolve, hsplit]
  exact .fault _ ⟨happlies, fun k' hk => absurd hk (Nat.not_lt_zero _)⟩

/-- The conditions are looked at in the order of the kinds, so at each step those of the kinds before
do not hold. -/
theorem outcome_resolve (t : TimeToken) (d : Date) : Outcome t d (t.resolve d) := by
  by_cases htwo : t.fields.length = 2
  swap
  · exact outcome_of_length htwo
  obtain ⟨hour, minute, hfields⟩ := List.length_eq_two.mp htwo
  have hsplit : split? t.raw.toList = some (hour, minute) := by
    rw [split?_eq, show t.raw.toList.splitOn ':' = _ from hfields]
  have hfault : ∀ k : Kind, k.IsFirst d [hour, minute] → Outcome t d (.error ⟨t, k⟩) :=
    fun k h => .fault k (hfields ▸ h)
  simp only [resolve, hsplit]
  by_cases hhour : IsNumeral hour
  swap
  · rw [if_pos (not_isNumber_iff.mpr hhour)]
    exact hfault _ (Kind.isFirst_nonNumericHour hhour)
  rw [if_neg (mt not_isNumber_iff.mp (not_not.mpr hhour))]
  by_cases hminute : IsNumeral minute
  swap
  · rw [if_pos (not_isNumber_iff.mpr hminute)]
    exact hfault _ (Kind.isFirst_nonNumericMinute hhour hminute)
  rw [if_neg (mt not_isNumber_iff.mp (not_not.mpr hminute)), minute?_eq hminute]
  by_cases hvalue : digitsValue minute ≤ 59
  swap
  · rw [if_neg hvalue]
    exact hfault _ (Kind.isFirst_minuteOutOfRange hhour hminute (not_le.mp hvalue))
  rw [if_pos hvalue]
  dsimp only
  by_cases hbound : hour.length ≤ maxHourDigits ∧ d.dayNumber + digitsValue hour / 24 ≤ lastDayNumber
  · obtain ⟨day, hday⟩ := Date.exists_after? hbound.2
    rw [if_pos hbound, Nat.add_assoc]
    exact .instant hour minute day
      ⟨isClock_iff.mpr ⟨hfields, hhour, hminute⟩, hvalue, hbound.1, hday⟩
  · rw [if_neg hbound]
    refine hfault _ (Kind.isFirst_dateOverflow hhour hminute hvalue ?_)
    rw [Date.after?_eq_none_iff]
    unfold maxHourDigits at hbound
    omega

/-- **A token resolves exactly if it is a time of a day**, and to its minutes after midnight. -/
theorem resolve_eq_ok_iff {i : Instant} : t.resolve d = .ok i ↔
    ∃ hour minute day, t.IsTimeOf d hour minute day ∧ i = instantOf d hour minute := by
  have houtcome := outcome_resolve t d
  constructor
  · intro h
    rw [h] at houtcome
    cases houtcome with
    | instant hour minute day hof => exact ⟨hour, minute, day, hof, rfl⟩
  · rintro ⟨hour, minute, day, h, rfl⟩
    generalize t.resolve d = r at houtcome
    cases houtcome with
    | fault k hk => exact absurd hk.1 (h.not_applies k)
    | instant hour' minute' day' h' =>
      obtain ⟨rfl, rfl⟩ := h.isClock.eq_and_eq h'.isClock
      rfl

theorem eq_instantOf {i : Instant} (h : t.resolve d = .ok i) (hclock : t.IsClock hour minute) :
    i = instantOf d hour minute := by
  obtain ⟨hour', minute', day, hof, rfl⟩ := resolve_eq_ok_iff.mp h
  obtain ⟨rfl, rfl⟩ := hof.isClock.eq_and_eq hclock
  rfl

/-- **A token does not resolve exactly if a kind of fault applies**, and then for the first one. -/
theorem resolve_eq_error_iff {f : TimeFault} :
    t.resolve d = .error f ↔ f.token = t ∧ f.kind.IsFirst d t.fields := by
  have houtcome := outcome_resolve t d
  constructor
  · intro h
    rw [h] at houtcome
    cases houtcome with
    | fault k hk => exact ⟨rfl, hk⟩
  · rintro ⟨rfl, hk⟩
    generalize f.token.resolve d = r at houtcome
    cases houtcome with
    | fault k hk' => rw [hk'.unique hk]
    | instant hour minute day h => exact absurd hk.1 (h.not_applies _)

end TimeToken

/-! ### Instants of a day -/

/-- An hour and a minute of a day, as an instant is written. -/
def isoText (day : Date) (hour minute : ℕ) : String :=
  String.ofList (day.toString.toList ++ 'T' :: padded 2 hour ++ ':' :: padded 2 minute ++
    ":00+00:00".toList)

/-- **The instant of a time is an hour and a minute of its day.** -/
theorem TimeToken.IsTimeOf.toIso_instantOf {t : TimeToken} {d day : Date} {hour minute : List Char}
    (h : t.IsTimeOf d hour minute day) :
    (instantOf d hour minute).toIso = isoText day (digitsValue hour % 24) (digitsValue minute) := by
  have hvalue := h.minute_le
  have hday := Date.after?_eq_some_iff.mp h.day_eq
  have hminutes : (instantOf d hour minute).minutes =
      1440 * day.dayNumber + (60 * (digitsValue hour % 24) + digitsValue minute) := by
    show 1440 * d.dayNumber + (60 * digitsValue hour + digitsValue minute) = _
    omega
  have h₁ : (instantOf d hour minute).minutes / 1440 = day.dayNumber := by omega
  have h₂ : (instantOf d hour minute).minutes % 1440 / 60 = digitsValue hour % 24 := by omega
  have h₃ : (instantOf d hour minute).minutes % 60 = digitsValue minute := by omega
  unfold Instant.toIso isoText
  rw [h₁, h₂, h₃, Date.civil_dayNumber, Date.toList_toString]
  rfl

/-- **The meaning of a time is exact.** Against a date a token resolves exactly if it is written as
an hour and a minute in digits, with a minute of at most 59 and an hour of at most 4300 digits whose
whole days do not lead out of the calendar; it then is that hour and minute of the day that is
reached, so many minutes after the midnight of the date. Otherwise it is refused for the first kind
of fault that applies. Two tokens that resolve against a date come in the order of their minutes. -/
theorem TimeToken.resolve_exact (t : TimeToken) (d : Date) :
    (∀ i, t.resolve d = .ok i ↔ ∃ hour minute day, t.IsTimeOf d hour minute day ∧
      i.minutes = (Instant.midnight d).minutes + (60 * digitsValue hour + digitsValue minute) ∧
      i.toIso = isoText day (digitsValue hour % 24) (digitsValue minute)) ∧
    (∀ f, t.resolve d = .error f ↔ f.token = t ∧ f.kind.IsFirst d t.fields) ∧
    ∀ (t' : TimeToken) (i i' : Instant) (hour minute hour' minute' : List Char),
      t.resolve d = .ok i → t'.resolve d = .ok i' →
      t.IsClock hour minute → t'.IsClock hour' minute' →
      compare i.minutes i'.minutes = compare (60 * digitsValue hour + digitsValue minute)
        (60 * digitsValue hour' + digitsValue minute') := by
  refine ⟨fun i => ?_, fun f => resolve_eq_error_iff, ?_⟩
  · rw [resolve_eq_ok_iff]
    refine exists_congr fun hour => exists_congr fun minute => exists_congr fun day => ?_
    refine and_congr_right fun h => ?_
    constructor
    · rintro rfl
      exact ⟨rfl, h.toIso_instantOf⟩
    · rintro ⟨hminutes, -⟩
      exact Instant.ext hminutes
  · intro t' i i' hour minute hour' minute' hi hi' hclock hclock'
    rw [eq_instantOf hi hclock, eq_instantOf hi' hclock']
    unfold instantOf
    rw [← cmp_eq_compare, ← cmp_eq_compare, cmp_add_left]

/-- Two tokens in the last night of a leap year's February, one of them with zeros in front. -/
theorem TimeToken.resolve_exact_leapNight :
    ∃ (d day : Date) (i i' : Instant), d.toString = "2024-02-28" ∧ day.toString = "2024-02-29" ∧
      (⟨"024:005"⟩ : TimeToken).resolve d = .ok i ∧ (⟨"23:59"⟩ : TimeToken).resolve d = .ok i' ∧
      i.toIso = "2024-02-29T00:05:00+00:00" ∧ compare i.minutes i'.minutes = .gt := by
  let d : Date := ⟨2024, 2, 28, by decide, by decide, by decide⟩
  let day : Date := ⟨2024, 2, 29, by decide, by decide, by decide⟩
  have hclock : (⟨"024:005"⟩ : TimeToken).IsClock "024".toList "005".toList :=
    ⟨by decide +kernel, isNumber_iff.mp (by decide +kernel), isNumber_iff.mp (by decide +kernel)⟩
  have hclock' : (⟨"23:59"⟩ : TimeToken).IsClock "23".toList "59".toList :=
    ⟨by decide +kernel, isNumber_iff.mp (by decide +kernel), isNumber_iff.mp (by decide +kernel)⟩
  obtain ⟨hok, -, hcompare⟩ := resolve_exact ⟨"024:005"⟩ d
  obtain ⟨hok', -, -⟩ := resolve_exact ⟨"23:59"⟩ d
  have hi := (hok (instantOf d "024".toList "005".toList)).mpr
    ⟨_, _, day, ⟨hclock, by decide, by decide, by decide⟩, rfl, by decide +kernel⟩
  have hi' := (hok' (instantOf d "23".toList "59".toList)).mpr
    ⟨_, _, d, ⟨hclock', by decide, by decide, by decide⟩, rfl, by decide +kernel⟩
  refine ⟨d, day, _, _, by decide +kernel, by decide +kernel, hi, hi', by decide +kernel, ?_⟩
  rw [hcompare _ _ _ _ _ _ _ hi hi' hclock hclock']
  decide

end TimeJournal
