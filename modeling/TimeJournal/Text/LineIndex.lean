import TimeJournal.Span

/-! # Line index

A `LineIndex` translates character offsets of a text into positions, a line and a character of that
line, both counted from 0, and back. Lines are what line feeds separate, so a carriage return before
a line feed stays at the end of its line.

* `position` clamps an offset past the end of the text to the end; `offset` clamps a line past the
  last one to the end of the text, and a character past the end of its line to the end of that line.
* The operations on integers (`position?`, `offset?`, `lineText?`, `toRange?`, `toSpan?`) refuse
  what lies outside with a `LineIndex.Fault`. -/

namespace TimeJournal.Text

/-- A line and a character of that line, both counted from 0. -/
structure Position where
  line : Nat
  character : Nat
  deriving DecidableEq, Repr

/-- A pair of positions; the second one is not included. -/
structure Range where
  start : Position
  stop : Position
  deriving DecidableEq, Repr

/-- A text together with the offsets where its lines begin. -/
structure LineIndex where
  text : List Char
  starts : List Nat
  deriving Repr

/-- The offsets that follow the line feeds of a text at offset `at_`, after those in `done`, which
are kept backwards. -/
def lineStarts.go (done : List Nat) (at_ : Nat) : List Char → List Nat
  | [] => done.reverse
  | c :: r => lineStarts.go (if c = '\n' then (at_ + 1) :: done else done) (at_ + 1) r

/-- The offsets where the lines of a text begin. -/
def lineStarts (text : List Char) : List Nat := lineStarts.go [0] 0 text

namespace LineIndex

/-- The index of a text. -/
def ofText (text : List Char) : LineIndex := ⟨text, lineStarts text⟩

/-- What is wrong with an offset, a position or a line number. -/
inductive Fault where
  | negativeOffset (offset : Int)
  | negativePosition (line character : Int)
  | noSuchLine (line : Int) (last : Nat)
  | span (fault : Span.Fault)
  deriving DecidableEq, Repr

/-- The wording of a fault. -/
def Fault.message : Fault → String
  | .negativeOffset offset => s!"Offset must be >= 0, got {offset}"
  | .negativePosition line character =>
    s!"Position components must be >= 0, got Position(line={line}, character={character})"
  | .noSuchLine line last => s!"Line {line} out of range (0..{last})"
  | .span fault => fault.message

/-- The number of lines; the text after the last line feed counts as a line. -/
def lineCount (ix : LineIndex) : Nat := ix.starts.length

/-- The position of an offset. -/
def position (ix : LineIndex) (offset : Nat) : Position :=
  let o := min offset ix.text.length
  let before := ix.starts.takeWhile (· ≤ o)
  ⟨before.length - 1, o - before.getLastD 0⟩

/-- The offset just after the content of a line. -/
def contentStop (ix : LineIndex) (line : Nat) : Nat :=
  match ix.starts[line + 1]? with
  | some next => next - 1
  | none => ix.text.length

/-- The offset of a position. -/
def offset (ix : LineIndex) (p : Position) : Nat :=
  match ix.starts[p.line]? with
  | some start => min (start + p.character) (ix.contentStop p.line)
  | none => ix.text.length

/-- The content of a line, without the carriage returns at its end; nothing past the last line. -/
def lineText (ix : LineIndex) (line : Nat) : List Char :=
  match ix.starts[line]? with
  | some start =>
    let content := (ix.text.drop start).take (ix.contentStop line - start)
    (content.reverse.dropWhile (· == '\r')).reverse
  | none => []

/-- The range of a span. -/
def toRange (ix : LineIndex) (s : Span) : Range := ⟨ix.position s.start, ix.position s.stop⟩

/-! ### Operations on integers -/

/-- The position of an offset that is not negative. -/
def position? (ix : LineIndex) (offset : Int) : Except Fault Position :=
  if offset < 0 then .error (.negativeOffset offset) else .ok (ix.position offset.toNat)

/-- The offset of a line and a character neither of which is negative. -/
def offset? (ix : LineIndex) (line character : Int) : Except Fault Nat :=
  if line < 0 ∨ character < 0 then .error (.negativePosition line character)
  else .ok (ix.offset ⟨line.toNat, character.toNat⟩)

/-- The content of a line of the text. -/
def lineText? (ix : LineIndex) (line : Int) : Except Fault (List Char) :=
  if 0 ≤ line ∧ line < ix.lineCount then .ok (ix.lineText line.toNat)
  else .error (.noSuchLine line (ix.lineCount - 1))

/-- The range between two offsets. -/
def toRange? (ix : LineIndex) (start stop : Int) : Except Fault Range :=
  match Span.ofInts start stop with
  | .ok s => .ok (ix.toRange s)
  | .error fault => .error (.span fault)

/-- The span between two positions, each given as a line and a character. -/
def toSpan? (ix : LineIndex) (start stop : Int × Int) : Except Fault Span := do
  let first ← ix.offset? start.1 start.2
  let last ← ix.offset? stop.1 stop.2
  match Span.ofInts first last with
  | .ok s => .ok s
  | .error fault => .error (.span fault)

end LineIndex

end TimeJournal.Text
