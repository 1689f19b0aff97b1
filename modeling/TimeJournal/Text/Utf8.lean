/-! # UTF-8

The first byte of a character says how many bytes follow it and which values the first of those may
have (`lead`). `next` reads one character or reports the fault there; a faulty sequence is as long
as the part of it that could still have become a character, and at least one byte.

* `decode` reads a whole text and reports its first fault; `decodeLossy` puts U+FFFD for each faulty
  sequence and goes on.
* `encode` writes a character. -/

namespace TimeJournal.Text.Utf8

/-- Why bytes are no UTF-8. -/
inductive Reason where
  | invalidStart
  | invalidContinuation
  | unexpectedEnd
  deriving DecidableEq, Repr

/-- The wording of a reason. -/
def Reason.message : Reason → String
  | .invalidStart => "invalid start byte"
  | .invalidContinuation => "invalid continuation byte"
  | .unexpectedEnd => "unexpected end of data"

/-- A faulty sequence: its first byte, its place, its length and what is wrong. -/
structure Fault where
  byte : UInt8
  start : Nat
  length : Nat
  reason : Reason
  deriving DecidableEq, Repr

/-- What follows the first byte of a character: the number of bytes, the least and the greatest
value of the first of them, and the bits that the first byte contributes. -/
structure Lead where
  count : Nat
  low : Nat
  high : Nat
  bits : Nat
  deriving DecidableEq, Repr

/-- The lead of a first byte; there is none for a byte that starts no character. -/
def lead (byte : UInt8) : Option Lead :=
  let b := byte.toNat
  if b < 0x80 then some ⟨0, 0x80, 0xBF, b⟩
  else if 0xC2 ≤ b ∧ b ≤ 0xDF then some ⟨1, 0x80, 0xBF, b - 0xC0⟩
  else if b = 0xE0 then some ⟨2, 0xA0, 0xBF, 0⟩
  else if b = 0xED then some ⟨2, 0x80, 0x9F, 0xD⟩
  else if 0xE1 ≤ b ∧ b ≤ 0xEF then some ⟨2, 0x80, 0xBF, b - 0xE0⟩
  else if b = 0xF0 then some ⟨3, 0x90, 0xBF, 0⟩
  else if 0xF1 ≤ b ∧ b ≤ 0xF3 then some ⟨3, 0x80, 0xBF, b - 0xF0⟩
  else if b = 0xF4 then some ⟨3, 0x80, 0x8F, 4⟩
  else none

/-- What reading one sequence gives: a character, or what is wrong, and the length of the sequence.
-/
inductive Sequence where
  | char (c : Char) (length : Nat)
  | fault (reason : Reason) (length : Nat)
  deriving DecidableEq, Repr

/-- Reads the bytes after the first one: `count` are still due, the next one lies between `low` and
`high`, `bits` is the number so far and `length` the number of bytes read. -/
def follow : (count low high bits length : Nat) → List UInt8 → Sequence
  | 0, _, _, bits, length, _ => .char (Char.ofNat bits) length
  | _ + 1, _, _, _, length, [] => .fault .unexpectedEnd length
  | count + 1, low, high, bits, length, b :: r =>
    if low ≤ b.toNat ∧ b.toNat ≤ high then
      follow count 0x80 0xBF (64 * bits + b.toNat % 64) (length + 1) r
    else .fault .invalidContinuation length

/-- Reads one sequence. -/
def next (first : UInt8) (rest : List UInt8) : Sequence :=
  match lead first with
  | none => .fault .invalidStart 1
  | some l => follow l.count l.low l.high l.bits 1 rest

/-- The length of a sequence. -/
def Sequence.length : Sequence → Nat
  | .char _ n => n
  | .fault _ n => n

/-- The text of the bytes from offset `at_` on, after `done`, which is kept backwards. The first
`skip` bytes belong to a sequence that has been read. -/
def decode.go (done : List Char) (at_ skip : Nat) : List UInt8 → Except Fault (List Char)
  | [] => .ok done.reverse
  | b :: r =>
    match skip with
    | k + 1 => decode.go done (at_ + 1) k r
    | 0 =>
      match next b r with
      | .char c n => decode.go (c :: done) (at_ + 1) (n - 1) r
      | .fault reason n => .error ⟨b, at_, n, reason⟩

/-- The text of some bytes, or their first fault. -/
def decode (bytes : List UInt8) : Except Fault (List Char) := decode.go [] 0 0 bytes

/-- The text of some bytes with U+FFFD for each faulty sequence. The first `skip` bytes belong to a
sequence that has been read. -/
def decodeLossy.go (done : List Char) (skip : Nat) : List UInt8 → List Char
  | [] => done.reverse
  | b :: r =>
    match skip with
    | k + 1 => decodeLossy.go done k r
    | 0 =>
      match next b r with
      | .char c n => decodeLossy.go (c :: done) (n - 1) r
      | .fault _ n => decodeLossy.go ('\uFFFD' :: done) (n - 1) r

/-- The text of some bytes with U+FFFD for each faulty sequence. -/
def decodeLossy (bytes : List UInt8) : List Char := decodeLossy.go [] 0 bytes

/-- The bytes of a character. -/
def encode (c : Char) : List UInt8 :=
  let n := c.toNat
  if n < 0x80 then [n.toUInt8]
  else if n < 0x800 then [(0xC0 + n / 64).toUInt8, (0x80 + n % 64).toUInt8]
  else if n < 0x10000 then
    [(0xE0 + n / 4096).toUInt8, (0x80 + n / 64 % 64).toUInt8, (0x80 + n % 64).toUInt8]
  else
    [(0xF0 + n / 262144).toUInt8, (0x80 + n / 4096 % 64).toUInt8, (0x80 + n / 64 % 64).toUInt8,
      (0x80 + n % 64).toUInt8]

end TimeJournal.Text.Utf8
