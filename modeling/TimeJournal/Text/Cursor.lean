import TimeJournal.Span
import TimeJournal.Text.Blank
import TimeJournal.Text.Line

/-! # Cursors

A `Cursor` is a place in a text. It may stand past the end, where nothing follows it; a step forward
from there comes back to the end. It may also stand in front of the text: the position `-k` is the
one of the `k`-th character from the end, and after the last character the text begins. Nothing can
be read further in front than the text is long.

* `ahead` is the text from the cursor on.
* The scans go over what is left of the current line: `skipBlanks`, `skipToken` and `skipToLineEnd`
  never cross a line end, and `skipLineEnd` goes past one. -/

namespace TimeJournal.Text

/-- A place in a text. -/
structure Cursor where
  text : List Char
  pos : Int
  deriving DecidableEq, Repr

/-- Why nothing can be read at a place: no character is left, or it is further in front of the text
than the text is long. -/
inductive ReadingFault where
  | exhausted (pos : Int)
  | outside
  deriving DecidableEq, Repr

/-- The wording of the fault. -/
def ReadingFault.message : ReadingFault → String
  | .exhausted pos => s!"Unexpected EOF at position {pos}"
  | .outside => "string index out of range"

/-- The offset that a position stands for as the end of a slice of a text of `size` characters. -/
def sliceOffset (size : Nat) (pos : Int) : Nat :=
  if pos < 0 then (size + pos).toNat else min pos.toNat size

namespace Cursor

/-- The cursor `count` places further. -/
def move (c : Cursor) (count : Nat) : Cursor := { c with pos := c.pos + count }

/-- The characters from the cursor on. -/
def ahead (c : Cursor) : Except ReadingFault (List Char) :=
  if 0 ≤ c.pos then .ok (c.text.drop c.pos.toNat)
  else if 0 ≤ c.text.length + c.pos then .ok (c.text.drop (c.text.length + c.pos).toNat ++ c.text)
  else .error .outside

/-- What is left of the line from the cursor on. -/
def content (c : Cursor) : Except ReadingFault (List Char) := c.ahead.map contentOf

/-- Whether no character is left. -/
def isEof (c : Cursor) : Bool := c.text.length ≤ c.pos

/-- Whether the cursor stands at the end of a line. -/
def isLineEnd (c : Cursor) : Except ReadingFault Bool := c.ahead.map atLineEnd

/-- The character at the cursor. -/
def current (c : Cursor) : Except ReadingFault Char :=
  match c.ahead with
  | .ok (ch :: _) => .ok ch
  | .ok [] => .error (.exhausted c.pos)
  | .error fault => .error fault

/-- The character `offset` places after the cursor, if there is one before the end. -/
def peek (c : Cursor) (offset : Int) : Except ReadingFault (Option Char) :=
  ({ c with pos := c.pos + offset } : Cursor).ahead.map List.head?

/-- The cursor `count` places on, or at the end of the text. -/
def advance (c : Cursor) (count : Int) : Cursor :=
  { c with pos := min (c.pos + count) c.text.length }

/-- The characters from the cursor up to a position, without going past the end of the text. -/
def sliceTo (c : Cursor) (stop : Int) : List Char :=
  let first := sliceOffset c.text.length c.pos
  (c.text.drop first).take (sliceOffset c.text.length stop - first)

/-- The span from the cursor to an offset. -/
def spanTo (c : Cursor) (stop : Int) : Except Span.Fault Span := Span.ofInts c.pos stop

/-- The cursor past `ch`, if that is the character at the cursor. -/
def expect (c : Cursor) (ch : Char) : Except ReadingFault (Option Cursor) :=
  c.ahead.map fun s => if s.head? = some ch then some (c.move 1) else none

/-- The cursor past the characters in a class. -/
def skipWhile (c : Cursor) (p : Char → Bool) : Except ReadingFault Cursor :=
  c.ahead.map fun s => c.move (s.takeWhile p).length

/-- The cursor past the blanks. -/
def skipBlanks (c : Cursor) : Except ReadingFault Cursor := c.skipWhile isBlank

/-- The cursor at the first blank or at the end of the line. -/
def skipToken (c : Cursor) : Except ReadingFault Cursor :=
  c.content.map fun s => c.move (s.takeWhile fun ch => !isBlank ch).length

/-- The cursor at the end of the line. -/
def skipToLineEnd (c : Cursor) : Except ReadingFault Cursor :=
  c.content.map fun s => c.move s.length

/-- The cursor past the line ending it stands on. -/
def skipLineEnd (c : Cursor) : Except ReadingFault Cursor :=
  c.ahead.map fun s => c.move (endingLength s)

end Cursor

end TimeJournal.Text
