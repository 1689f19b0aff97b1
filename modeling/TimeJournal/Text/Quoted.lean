import TimeJournal.Text.Hexadecimal
import TimeJournal.Text.Printable

/-! # Quoted text

A text between quotation marks in a message: a character that is not printable is shown by its
number, so that the message stays on one line and nothing in it stays out of sight. -/

namespace TimeJournal.Text

/-- How a character is shown between quotation marks `mark`. -/
def showChar (mark c : Char) : List Char :=
  if c = mark ∨ c = '\\' then ['\\', c]
  else if c = '\n' then ['\\', 'n']
  else if c = '\r' then ['\\', 'r']
  else if c = '\t' then ['\\', 't']
  else if isPrintable c then [c]
  else if c.toNat < 0x100 then '\\' :: 'x' :: hexText 2 c.toNat
  else if c.toNat < 0x10000 then '\\' :: 'u' :: hexText 4 c.toNat
  else '\\' :: 'U' :: hexText 8 c.toNat

/-- A text in single quotes, or in double quotes if it has a single quote and no double one. -/
def showQuoted (text : String) : String :=
  let chars := text.toList
  let mark := if chars.contains '\'' && !chars.contains '"' then '"' else '\''
  String.ofList (mark :: (chars.flatMap (showChar mark) ++ [mark]))

end TimeJournal.Text
