/-! # Lines of a text

A line is its content and its ending. A line feed ends a line, and so does a carriage return that
comes just before a line feed or is the last character of the text; any other carriage return is
content.

* `lines` cuts a text into lines, each with the offset where it begins, and `lines_flatten` says
  that nothing is lost. A text that ends in a line feed has no empty line after it.
* `contentOf` is what remains of the current line at some place in a text, and `afterEnding` goes
  past the ending there. -/

namespace TimeJournal.Text

/-- How a line ends: by a line feed, by a carriage return and a line feed, by a carriage return at
the end of the text, or with the text. -/
inductive Ending where
  | lf
  | crlf
  | cr
  | eof
  deriving DecidableEq, Repr

/-- The characters of an ending. -/
def Ending.chars : Ending → List Char
  | .lf => ['\n']
  | .crlf => ['\r', '\n']
  | .cr => ['\r']
  | .eof => []

/-- A line: the offset where it begins, its content and its ending. -/
structure Line where
  start : Nat
  content : List Char
  ending : Ending
  deriving DecidableEq, Repr

namespace Line

/-- The offset just after the content. -/
def stop (l : Line) : Nat := l.start + l.content.length

/-- The characters of a line. -/
def chars (l : Line) : List Char := l.content ++ l.ending.chars

end Line

/-! ### Cutting a text into lines -/

/-- The lines of `s`, which stands at offset `start + current.length`, where `current` holds the
content of the line begun at `start`, backwards, and `done` the lines before it, backwards. -/
def lines.go (done : List Line) (start : Nat) (current : List Char) : List Char → List Line
  | [] => (if current.isEmpty then done else ⟨start, current.reverse, .eof⟩ :: done).reverse
  | ['\r'] => (⟨start, current.reverse, .cr⟩ :: done).reverse
  | '\r' :: '\n' :: r =>
    lines.go (⟨start, current.reverse, .crlf⟩ :: done) (start + current.length + 2) [] r
  | '\n' :: r => lines.go (⟨start, current.reverse, .lf⟩ :: done) (start + current.length + 1) [] r
  | c :: r => lines.go done start (c :: current) r

/-- The lines of a text that begins at offset `start`. -/
def lines (start : Nat) (s : List Char) : List Line := lines.go [] start [] s

theorem lines.go_flatten (done : List Line) (start : Nat) (current s : List Char) :
    ((lines.go done start current s).map Line.chars).flatten =
      (done.reverse.map Line.chars).flatten ++ current.reverse ++ s := by
  fun_induction lines.go done start current s with
  | case1 done start current =>
    cases current <;> simp [Line.chars, Ending.chars]
  | case2 => simp [Line.chars, Ending.chars]
  | case3 done start current r ih => simp [ih, Line.chars, Ending.chars]
  | case4 done start current r ih => simp [ih, Line.chars, Ending.chars]
  | case5 done start current c r _ _ _ ih => simp [ih]

/-- The lines of a text, one after the other, are the text. -/
theorem lines_flatten (start : Nat) (s : List Char) :
    ((lines start s).map Line.chars).flatten = s := by
  simp [lines, lines.go_flatten]

/-! ### The rest of the current line -/

/-- Whether a line ends at the front of `s`. -/
def atLineEnd : List Char → Bool
  | [] => true
  | ['\r'] => true
  | '\r' :: '\n' :: _ => true
  | '\n' :: _ => true
  | _ :: _ => false

/-- The characters of `s` in front of the first line end, after those of `seen`, which is kept
backwards. -/
def contentOf.go (seen : List Char) : List Char → List Char
  | [] => seen.reverse
  | c :: r => if atLineEnd (c :: r) then seen.reverse else contentOf.go (c :: seen) r

/-- The characters of `s` in front of the first line end. -/
def contentOf (s : List Char) : List Char := contentOf.go [] s

/-- The number of characters of the ending at the front of `s`; a carriage return counts as one even
where it ends no line. -/
def endingLength : List Char → Nat
  | '\r' :: '\n' :: _ => 2
  | '\n' :: _ => 1
  | '\r' :: _ => 1
  | _ => 0

end TimeJournal.Text
