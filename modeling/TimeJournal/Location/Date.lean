import TimeJournal.Calendar.Date
import TimeJournal.Location.Path
import TimeJournal.Location.Uri

/-! # The date in a file name

A journal file may carry its date in its name: `2006-01-02.md`. `Location.date?` finds that date in
a path or in a URI, which is told from a path by `://` in it. -/

namespace TimeJournal.Location

/-- Whether a text holds `://`. -/
def isUri : List Char → Bool
  | [] => false
  | c :: r => ("://".toList).isPrefixOf (c :: r) || isUri r

/-- The date that a file name is, its suffix left out. -/
def dateOfPath (path : List Char) : Option Date :=
  match Date.parse (String.ofList (Path.ofText path).stem) with
  | .ok d => some d
  | .error _ => none

/-- The date in the file name of a document, if it is known by a path or a URI and has one. -/
def date? (location : Option String) : Except UriFault (Option Date) :=
  match location with
  | none => .ok none
  | some text =>
    if isUri text.toList then
      match Uri.path? text.toList with
      | .ok path => .ok (dateOfPath (Uri.percentDecode path))
      | .error fault => .error fault
    else .ok (dateOfPath text.toList)

end TimeJournal.Location
