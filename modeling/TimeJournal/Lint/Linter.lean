import TimeJournal.Journal.Reading
import TimeJournal.Lint.State
import TimeJournal.Location.Date

/-! # Checking a journal

`lint` checks a journal, `check` reads a text and checks it: the faults of the text come first, and
without a journal there is nothing else to report. -/

namespace TimeJournal

/-- What keeps a text from being checked: it is too long, or the identifier of the document is no
URI. -/
inductive CheckFault where
  | size (fault : SizeFault)
  | uri (fault : Location.UriFault)
  deriving DecidableEq, Repr

/-- The wording of a fault. -/
def CheckFault.message : CheckFault → String
  | .size fault => fault.message
  | .uri fault => fault.message

namespace Lint

/-- The settings for a document. -/
def Settings.ofSource (source : Option String) (tolerance : Int) :
    Except Location.UriFault Settings :=
  match Location.date? source with
  | .ok fileDate => .ok ⟨source.getD "", fileDate, tolerance⟩
  | .error fault => .error fault

/-- The state after a whole journal. -/
def finalState (settings : Settings) (j : Journal) : State :=
  match j.walk (visitor settings) State.init with
  | .ok _ s => s
  | .error _ s => s

/-- The findings of a journal under some settings, in the order of the traversal. -/
def findings (settings : Settings) (j : Journal) : List Finding := (finalState settings j).findings

end Lint

/-- The findings of a journal. -/
def lint (source : Option String) (tolerance : Int) (j : Journal) :
    Except Location.UriFault (List Finding) :=
  match Lint.Settings.ofSource source tolerance with
  | .ok settings => .ok (Lint.findings settings j)
  | .error fault => .error fault

/-- A text that was read and checked. -/
structure Checked where
  reading : Reading
  linted : List Finding
  deriving Repr

namespace Checked

/-- The journal of a text, if it has one. -/
def journal (c : Checked) : Option Journal := c.reading.journal

/-- The findings in a text: its faults, then those of the journal. -/
def findings (c : Checked) : List Finding := c.reading.faults.map Finding.ofFault ++ c.linted

end Checked

/-- Reads a text and checks the journal in it. -/
def check (source : Option String) (text : String) : Except CheckFault Checked :=
  match Journal.read text Journal.defaultLimit with
  | .error fault => .error (.size fault)
  | .ok reading =>
    match reading.journal with
    | none => .ok ⟨reading, []⟩
    | some j =>
      match lint source Lint.defaultTolerance j with
      | .ok found => .ok ⟨reading, found⟩
      | .error fault => .error (.uri fault)

end TimeJournal
