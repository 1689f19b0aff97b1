/-! # White space and blanks

`isSpace` is the class of characters that separate words in Unicode text, the line terminators
included; `isBlank` leaves the carriage return and the line feed out, so a run of blanks never
crosses the end of a line. -/

namespace TimeJournal.Text

/-- White space: the characters of bidirectional class WS, B or S, or of general category Zs. -/
def isSpace (c : Char) : Bool :=
  let n := c.toNat
  (0x09 ≤ n && n ≤ 0x0D) || (0x1C ≤ n && n ≤ 0x20) || n == 0x85 || n == 0xA0 || n == 0x1680 ||
    (0x2000 ≤ n && n ≤ 0x200A) || n == 0x2028 || n == 0x2029 || n == 0x202F || n == 0x205F ||
    n == 0x3000

/-- Inline white space: any white space but a carriage return or a line feed. -/
def isBlank (c : Char) : Bool := isSpace c && c != '\r' && c != '\n'

theorem isSpace_of_isBlank {c : Char} (h : isBlank c = true) : isSpace c = true := by
  simp only [isBlank, Bool.and_eq_true] at h; exact h.1.1

@[simp] theorem isBlank_return : isBlank '\r' = false := by decide

@[simp] theorem isBlank_feed : isBlank '\n' = false := by decide

/-- The characters of a text without the white space at its end. -/
def stripEnd (s : List Char) : List Char := (s.reverse.dropWhile isSpace).reverse

/-- The white space at the end of a text. -/
def trailing (s : List Char) : List Char := (s.reverse.takeWhile isSpace).reverse

theorem stripEnd_append_trailing (s : List Char) : stripEnd s ++ trailing s = s := by
  simp only [stripEnd, trailing, ← List.reverse_append, List.takeWhile_append_dropWhile,
    List.reverse_reverse]

end TimeJournal.Text
