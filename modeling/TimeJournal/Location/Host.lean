import TimeJournal.Text.Decimal
import TimeJournal.Text.Hexadecimal
import TimeJournal.Text.Quoted

/-! # Hosts in brackets

A URI writes a host between brackets where the host has colons of its own: an IPv6 address, or a
literal of a later version, which begins with a small `v`. `Host.check` says whether a text may
stand between brackets.

* `isIPv4`: four numbers below 256 between dots.
* `isIPv6`: eight groups of hexadecimal digits between colons, with an optional zone at the end. A
  run of zero groups may be left out once, where two colons meet (`eq_append_of_cutAtGap`), and the
  last two groups may be written as an IPv4 address. -/

namespace TimeJournal.Location

/-- Why a text may not stand between the brackets of a host. -/
inductive HostFault where
  | malformedLiteral
  | versionFour
  | notAnAddress (host : List Char)
  deriving DecidableEq, Repr

/-- The wording of a fault. -/
def HostFault.message : HostFault → String
  | .malformedLiteral => "IPvFuture address is invalid"
  | .versionFour => "An IPv4 address cannot be in brackets"
  | .notAnAddress host =>
    let shown := Text.showQuoted (String.ofList host)
    s!"{shown} does not appear to be an IPv4 or IPv6 address"

namespace Host

/-! ### Addresses -/

/-- Whether a text is a number below 256, without zeros in front. -/
def isOctet (s : List Char) : Bool :=
  Text.isNumber s && s.length ≤ 3 && (s.length == 1 || s.head? != some '0')
    && Text.digitsValue s < 256

/-- Whether a text is an IPv4 address. -/
def isIPv4 (s : List Char) : Bool :=
  let octets := s.splitOn '.'
  octets.length == 4 && octets.all isOctet

/-- Whether a character is a hexadecimal digit. -/
def isHexDigit (c : Char) : Bool := (Text.hexValue? c).isSome

/-- Whether a text is a group of an IPv6 address: one to four hexadecimal digits. -/
def isGroup (s : List Char) : Bool := !s.isEmpty && s.length ≤ 4 && s.all isHexDigit

/-- The texts between the colons of a text, none if it is empty. -/
def groups (s : List Char) : List (List Char) := if s.isEmpty then [] else s.splitOn ':'

/-- How many groups are written at the end of an IPv6 address. The last one may be an IPv4 address,
which stands for two. -/
def endingCount? : List (List Char) → Option Nat
  | [] => some 0
  | [last] => if isGroup last then some 1 else if isIPv4 last then some 2 else none
  | group :: r => if isGroup group then (endingCount? r).map (· + 1) else none

/-- What stands on each side of the first two colons in a row, which leave out a run of groups. -/
def cutAtGap : List Char → Option (List Char × List Char)
  | [] => none
  | ':' :: ':' :: r => some ([], r)
  | c :: r => (cutAtGap r).map fun cut => (c :: cut.1, cut.2)

/-- A cut loses nothing but the two colons. -/
theorem eq_append_of_cutAtGap {s front ending : List Char}
    (h : cutAtGap s = some (front, ending)) : s = front ++ ':' :: ':' :: ending := by
  fun_induction cutAtGap s generalizing front with
  | case1 => simp at h
  | case2 r => simp_all
  | case3 c r _ ih =>
    obtain ⟨cut, hcut, heq⟩ := Option.map_eq_some_iff.1 h
    obtain ⟨rfl, rfl⟩ := Prod.mk.inj heq
    rw [ih hcut, List.cons_append]

/-- Whether a text is an IPv6 address without a zone. A gap stands for one group at least. -/
def isUnzonedIPv6 (s : List Char) : Bool :=
  match cutAtGap s with
  | none => endingCount? (groups s) == some 8
  | some (front, ending) =>
    (groups front).all isGroup
      && (endingCount? (groups ending)).any fun count => (groups front).length + count < 8

/-- Whether a text is an IPv6 address. A zone follows a percent sign and is not empty. -/
def isIPv6 (s : List Char) : Bool :=
  match s.span (· != '%') with
  | (address, []) => isUnzonedIPv6 address
  | (address, _ :: zone) => !zone.isEmpty && !zone.contains '%' && isUnzonedIPv6 address

/-! ### Literals -/

/-- Whether what follows the `v` of a literal is a version in hexadecimal digits, a dot and a
text. -/
def isVersioned (s : List Char) : Bool :=
  match s.span isHexDigit with
  | (_ :: _, '.' :: _ :: _) => true
  | _ => false

/-- Whether a text may stand between the brackets of a host, or why it may not. -/
def check : List Char → Except HostFault Unit
  | 'v' :: r => if isVersioned r then .ok () else .error .malformedLiteral
  | s =>
    if isIPv4 s then .error .versionFour
    else if isIPv6 s then .ok ()
    else .error (.notAnAddress s)

end Host

end TimeJournal.Location
