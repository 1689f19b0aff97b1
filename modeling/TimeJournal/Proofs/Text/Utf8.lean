import Mathlib.Data.Nat.Notation
import Mathlib.Tactic.SplitIfs
import TimeJournal.Text.Utf8

/-! # Reading what is written in UTF-8

* `Utf8.encode_eq`: characters are written as the strings of the core library hold them.
* `Utf8.exists_encode`: what is written for a character is read as the character, whatever follows it.
* `Utf8.decodeLossy_flatMap_encode`: a text comes back from its bytes. -/

namespace TimeJournal.Text.Utf8

/-- A character is no surrogate and has a number in the range of the standard. -/
theorem toNat_bounds (c : Char) : c.toNat < 0xD800 ∨ 0xDFFF < c.toNat ∧ c.toNat < 0x110000 :=
  c.valid

theorem toNat_toUInt8 {n : ℕ} (h : n < 256) : n.toUInt8.toNat = n :=
  UInt8.toNat_ofNat_of_lt' h

/-- **Characters are written in UTF-8.** -/
theorem encode_eq (c : Char) : encode c = String.utf8EncodeChar c := by
  have hbounds := toNat_bounds c
  have hone : c.toNat ≤ 0x7F ↔ c.toNat < 0x80 := by omega
  have htwo : c.toNat ≤ 0x7FF ↔ c.toNat < 0x800 := by omega
  have hthree : c.toNat ≤ 0xFFFF ↔ c.toNat < 0x10000 := by omega
  unfold encode String.utf8EncodeChar
  simp only [show c.val.toNat = c.toNat from rfl, hone, htwo, hthree]
  split_ifs with h₁ h₂ h₃
  · rfl
  · rw [Nat.mod_eq_of_lt (by omega : c.toNat / 64 < 32), Nat.add_comm 0xC0, Nat.add_comm 0x80]
  · rw [Nat.mod_eq_of_lt (by omega : c.toNat / 4096 < 16), Nat.add_comm 0xE0, Nat.add_comm 0x80,
      Nat.add_comm 0x80]
  · rw [Nat.mod_eq_of_lt (by omega : c.toNat / 262144 < 8), Nat.add_comm 0xF0, Nat.add_comm 0x80,
      Nat.add_comm 0x80, Nat.add_comm 0x80]

/-! ### One character -/

/-- A byte that continues a character gives the character six more bits. -/
theorem follow_cons {count low high bits length n : ℕ} {rest : List UInt8} (hlow : low ≤ 0x80 + n)
    (hhigh : 0x80 + n ≤ high) (hn : n < 64) :
    follow (count + 1) low high bits length ((0x80 + n).toUInt8 :: rest) =
      follow count 0x80 0xBF (64 * bits + n) (length + 1) rest := by
  rw [follow, toNat_toUInt8 (by omega), if_pos ⟨hlow, hhigh⟩]
  congr 2
  omega

/-- The first byte of a character of two bytes. -/
theorem lead_two {n : ℕ} (hlow : 0x80 ≤ n) (hhigh : n < 0x800) :
    lead (0xC0 + n / 64).toUInt8 = some ⟨1, 0x80, 0xBF, n / 64⟩ := by
  unfold lead
  dsimp only
  rw [toNat_toUInt8 (by omega), if_neg (by omega), if_pos (by omega), Nat.add_sub_cancel_left]

/-- The first byte of a character of three bytes, and what the second one may be: the numbers that
have two bytes and the surrogates are left out. -/
theorem exists_lead_three {n : ℕ} (hlow : 0x800 ≤ n) (hhigh : n < 0x10000)
    (hscalar : n < 0xD800 ∨ 0xDFFF < n) : ∃ low high,
      lead (0xE0 + n / 4096).toUInt8 = some ⟨2, low, high, n / 4096⟩ ∧
        low ≤ 0x80 + n / 64 % 64 ∧ 0x80 + n / 64 % 64 ≤ high := by
  unfold lead
  dsimp only
  rw [toNat_toUInt8 (by omega), if_neg (by omega), if_neg (by omega)]
  by_cases hfirst : n / 4096 = 0
  · rw [hfirst]
    exact ⟨_, _, rfl, by omega, by omega⟩
  rw [if_neg (by omega)]
  by_cases hsurrogates : n / 4096 = 0xD
  · rw [hsurrogates]
    exact ⟨_, _, rfl, by omega, by omega⟩
  rw [if_neg (by omega), if_pos (by omega), Nat.add_sub_cancel_left]
  exact ⟨_, _, rfl, by omega, by omega⟩

/-- The first byte of a character of four bytes, and what the second one may be: the numbers that have
three bytes and those beyond the last character are left out. -/
theorem exists_lead_four {n : ℕ} (hlow : 0x10000 ≤ n) (hhigh : n < 0x110000) : ∃ low high,
    lead (0xF0 + n / 262144).toUInt8 = some ⟨3, low, high, n / 262144⟩ ∧
      low ≤ 0x80 + n / 4096 % 64 ∧ 0x80 + n / 4096 % 64 ≤ high := by
  unfold lead
  dsimp only
  rw [toNat_toUInt8 (by omega), if_neg (by omega), if_neg (by omega), if_neg (by omega),
    if_neg (by omega), if_neg (by omega)]
  by_cases hfirst : n / 262144 = 0
  · rw [hfirst]
    exact ⟨_, _, rfl, by omega, by omega⟩
  rw [if_neg (by omega)]
  by_cases hlast : n / 262144 = 4
  · rw [hlast]
    exact ⟨_, _, rfl, by omega, by omega⟩
  rw [if_pos (by omega), Nat.add_sub_cancel_left]
  exact ⟨_, _, rfl, by omega, by omega⟩

/-- **A character is read as it was written**, whatever follows it. -/
theorem exists_encode (c : Char) : ∃ first rest, encode c = first :: rest ∧
    ∀ more, next first (rest ++ more) = .char c (rest.length + 1) := by
  have hscalar := toNat_bounds c
  unfold encode next
  dsimp only
  by_cases h₁ : c.toNat < 0x80
  · rw [if_pos h₁]
    refine ⟨_, _, rfl, fun more => ?_⟩
    have hlead : lead c.toNat.toUInt8 = some ⟨0, 0x80, 0xBF, c.toNat⟩ := by
      unfold lead
      dsimp only
      rw [toNat_toUInt8 (by omega), if_pos h₁]
    rw [hlead]
    exact congrArg (Sequence.char · 1) (Char.ofNat_toNat c)
  rw [if_neg h₁]
  by_cases h₂ : c.toNat < 0x800
  · rw [if_pos h₂]
    refine ⟨_, _, rfl, fun more => ?_⟩
    rw [lead_two (by omega) h₂]
    simp only [List.cons_append, List.nil_append]
    rw [follow_cons (by omega) (by omega) (by omega), follow]
    exact congrArg (Sequence.char · 2) (by rw [Nat.div_add_mod, Char.ofNat_toNat])
  rw [if_neg h₂]
  by_cases h₃ : c.toNat < 0x10000
  · rw [if_pos h₃]
    refine ⟨_, _, rfl, fun more => ?_⟩
    obtain ⟨low, high, hlead, hlow, hhigh⟩ := exists_lead_three (by omega) h₃ (by omega)
    rw [hlead]
    simp only [List.cons_append, List.nil_append]
    rw [follow_cons hlow hhigh (by omega), follow_cons (by omega) (by omega) (by omega), follow]
    refine congrArg (Sequence.char · 3) ?_
    rw [show 64 * (64 * (c.toNat / 4096) + c.toNat / 64 % 64) + c.toNat % 64 = c.toNat by omega,
      Char.ofNat_toNat]
  · rw [if_neg h₃]
    refine ⟨_, _, rfl, fun more => ?_⟩
    obtain ⟨low, high, hlead, hlow, hhigh⟩ := exists_lead_four (n := c.toNat) (by omega) (by omega)
    rw [hlead]
    simp only [List.cons_append, List.nil_append]
    rw [follow_cons hlow hhigh (by omega), follow_cons (by omega) (by omega) (by omega),
      follow_cons (by omega) (by omega) (by omega), follow]
    refine congrArg (Sequence.char · 4) ?_
    rw [show 64 * (64 * (64 * (c.toNat / 262144) + c.toNat / 4096 % 64) + c.toNat / 64 % 64) +
      c.toNat % 64 = c.toNat by omega, Char.ofNat_toNat]

/-! ### A text -/

/-- The bytes of a sequence that has been read are passed over. -/
theorem decodeLossy_go_skip (done : List Char) (read rest : List UInt8) :
    decodeLossy.go done read.length (read ++ rest) = decodeLossy.go done 0 rest := by
  induction read with
  | nil => rfl
  | cons b read ih =>
    rw [List.length_cons, List.cons_append, decodeLossy.go]
    exact ih

theorem decodeLossy_go_encode (done : List Char) (c : Char) (rest : List UInt8) :
    decodeLossy.go done 0 (encode c ++ rest) = decodeLossy.go (c :: done) 0 rest := by
  obtain ⟨first, read, hencode, hnext⟩ := exists_encode c
  rw [hencode, List.cons_append, decodeLossy.go, hnext]
  exact decodeLossy_go_skip (c :: done) read rest

/-- **A text comes back from its bytes.** -/
theorem decodeLossy_flatMap_encode (s : List Char) : decodeLossy (s.flatMap encode) = s := by
  have hgo : ∀ (s done : List Char), decodeLossy.go done 0 (s.flatMap encode) = done.reverse ++ s := by
    intro s
    induction s with
    | nil => exact fun done => (List.append_nil _).symm
    | cons c s ih =>
      intro done
      rw [List.flatMap_cons, decodeLossy_go_encode, ih, List.reverse_cons, List.append_assoc]
      rfl
  exact hgo s []

end TimeJournal.Text.Utf8
