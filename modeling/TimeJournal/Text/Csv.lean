/-! # CSV text

Writing rows of cells: commas between cells, a line feed after each row. A cell that holds a comma,
a quotation mark, a line feed or a carriage return is written between quotation marks, with each of
its own doubled. -/

namespace TimeJournal.Text.Csv

/-- Whether a cell has to be quoted for this character. -/
def isSpecial (c : Char) : Bool := c == ',' || c == '"' || c == '\n' || c == '\r'

/-- A text with its quotation marks doubled. -/
def double (s : List Char) : List Char := s.flatMap fun c => if c = '"' then ['"', '"'] else [c]

/-- How a cell is written. -/
def writeCell (cell : List Char) : List Char :=
  if cell.any isSpecial then '"' :: (double cell ++ ['"']) else cell

/-- How a row is written. -/
def writeRow (cells : List (List Char)) : List Char :=
  [','].intercalate (cells.map writeCell) ++ ['\n']

/-- How rows are written. -/
def write (rows : List (List (List Char))) : List Char := rows.flatMap writeRow

end TimeJournal.Text.Csv
