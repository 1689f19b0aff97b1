/-! # Paths

A path is read as a root and the parts between its slashes; empty parts and parts that are a single
dot mean nothing and are left out. Two slashes at the front are a root of their own, three or more
are one.

* `Path.toString` writes a path with its parts joined by single slashes, and a path without any part
  as a dot.
* `Path.stem` is the last part without its suffix. -/

namespace TimeJournal.Location

/-- A path: the slashes of its root and its parts. -/
structure Path where
  root : List Char
  parts : List (List Char)
  deriving DecidableEq, Repr

/-- The texts between the slashes of a text. -/
def splitSlashes (s : List Char) : List (List Char) := s.splitOn '/'

namespace Path

/-- The root that a text begins with. -/
def rootOf : List Char → List Char
  | '/' :: '/' :: '/' :: _ => ['/']
  | '/' :: '/' :: _ => ['/', '/']
  | '/' :: _ => ['/']
  | _ => []

/-- The path that a text writes. -/
def ofText (s : List Char) : Path :=
  ⟨rootOf s, (splitSlashes s).filter fun part => part != [] && part != ['.']⟩

/-- The text of a path. -/
def toText (p : Path) : List Char :=
  if p.root.isEmpty && p.parts.isEmpty then ['.'] else p.root ++ ['/'].intercalate p.parts

/-- The last part of a path, if it has any. -/
def name (p : Path) : List Char := p.parts.getLastD []

/-- A name without its suffix: the last dot and what follows it, where the dot is neither the first
nor the last character. -/
def stemOf (name : List Char) : List Char :=
  let suffix := name.reverse.takeWhile (· != '.')
  let body := (name.reverse.dropWhile (· != '.')).drop 1
  if suffix.isEmpty || body.isEmpty then name else body.reverse

/-- The last part of a path without its suffix. -/
def stem (p : Path) : List Char := stemOf p.name

end Path

end TimeJournal.Location
