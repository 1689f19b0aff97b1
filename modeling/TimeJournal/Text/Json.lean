import TimeJournal.Text.Hexadecimal

/-! # JSON text

Writing JSON values on one line: a comma and a space between members, a colon and a space after a
key. In a string the quotation mark, the reverse solidus and the control characters below U+0020 are
escaped, and nothing else is. -/

namespace TimeJournal.Text

/-- A JSON value, as far as it is written here. -/
inductive Json where
  | number (value : Nat)
  | string (value : String)
  | array (items : List Json)
  | object (members : List (String × Json))
  deriving Repr

namespace Json

/-- How a character is written in a string. -/
def escape (c : Char) : List Char :=
  if c = '"' then ['\\', '"']
  else if c = '\\' then ['\\', '\\']
  else if c = '\n' then ['\\', 'n']
  else if c = '\r' then ['\\', 'r']
  else if c = '\t' then ['\\', 't']
  else if c = '\x08' then ['\\', 'b']
  else if c = '\x0c' then ['\\', 'f']
  else if c.toNat < 0x20 then '\\' :: 'u' :: hexText 4 c.toNat
  else [c]

/-- A string in quotation marks. -/
def quote (s : String) : List Char := '"' :: (s.toList.flatMap escape ++ ['"'])

mutual

/-- A value on one line. -/
def write : Json → List Char
  | .number n => (Nat.repr n).toList
  | .string s => quote s
  | .array items => '[' :: (writeItems items ++ [']'])
  | .object members => '{' :: (writeMembers members ++ ['}'])

/-- The items of an array. -/
def writeItems : List Json → List Char
  | [] => []
  | [v] => write v
  | v :: w :: r => write v ++ ',' :: ' ' :: writeItems (w :: r)

/-- The members of an object. -/
def writeMembers : List (String × Json) → List Char
  | [] => []
  | [(k, v)] => quote k ++ ':' :: ' ' :: write v
  | (k, v) :: m :: r => quote k ++ ':' :: ' ' :: write v ++ ',' :: ' ' :: writeMembers (m :: r)

end

/-- A value on one line. -/
def render (v : Json) : String := String.ofList v.write

end Json

end TimeJournal.Text
