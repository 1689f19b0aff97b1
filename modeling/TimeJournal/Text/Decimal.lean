/-! # Decimal text

Reading and writing natural numbers in ASCII decimal digits: `digitsValue` reads, `padded` writes
with at least a given number of digits, `grouped` writes with a comma between groups of three. -/

namespace TimeJournal.Text

/-- Whether a text is a non-empty run of ASCII digits. -/
def isNumber (s : List Char) : Bool := !s.isEmpty && s.all Char.isDigit

/-- The value of a digit. -/
def digitValue (c : Char) : Nat := c.toNat - '0'.toNat

/-- The number that a run of digits writes. -/
def digitsValue (s : List Char) : Nat := s.foldl (fun n c => 10 * n + digitValue c) 0

/-- The digits of a number, with zeros in front up to a width. -/
def padded (width n : Nat) : List Char :=
  let digits := (Nat.repr n).toList
  List.replicate (width - digits.length) '0' ++ digits

/-- Digits with a comma in front of every third one from the end but the first. -/
def grouped.insert : List Char → List Char
  | [] => []
  | [c] => [c]
  | c :: r => if r.length % 3 = 0 then c :: ',' :: grouped.insert r else c :: grouped.insert r

/-- The digits of a number in groups of three. -/
def grouped (n : Nat) : String := String.ofList (grouped.insert (Nat.repr n).toList)

end TimeJournal.Text
