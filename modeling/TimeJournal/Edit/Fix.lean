import TimeJournal.Edit.Command
import TimeJournal.Lint.Linter

/-! # Fixing a text

`fix` reads and checks a text, applies the edit of the first finding that has one, and starts again
with the edited text, until there is no such finding or the rounds are used up. What happens on the
way is noted. -/

namespace TimeJournal

/-- What keeps a text from being fixed. -/
inductive FixFault where
  | check (fault : CheckFault)
  | command (fault : CommandFault)
  | edit (fault : TextEdit.Fault)
  deriving DecidableEq, Repr

/-- The wording of a fault. -/
def FixFault.message : FixFault → String
  | .check fault => fault.message
  | .command fault => fault.message
  | .edit fault => fault.message

/-- What is noted while a text is fixed. -/
inductive FixNote where
  | reading (note : ReadingNote)
  | finding (finding : Finding)
  | applying (command : Command) (rule : Rule) (span : Span)
  | stopped (rounds : Nat)
  deriving DecidableEq, Repr

/-- The notes on reading and checking a text. -/
def Checked.notes (c : Checked) : List FixNote :=
  c.reading.notes.map FixNote.reading ++ c.linted.map FixNote.finding

/-- An edit, the command that it comes from and the text after it. -/
structure Repair where
  command : Command
  rule : Rule
  edit : TextEdit
  text : String
  deriving DecidableEq, Repr

/-- The edit that resolves a finding, if it changes the text. -/
def repair? (source : Option String) (text : String) (j : Journal) (f : Finding) :
    Except FixFault (Option Repair) :=
  match Command.ofRule f.rule with
  | none => .ok none
  | some command =>
    match command.execute j f.span source with
    | .error fault => .error (.command fault)
    | .ok none => .ok none
    | .ok (some edit) =>
      match edit.apply text with
      | .error fault => .error (.edit fault)
      | .ok after => .ok (if after = text then none else some ⟨command, f.rule, edit, after⟩)

/-- The edit of the first finding that has one. -/
def firstRepair (source : Option String) (text : String) (j : Journal) :
    List Finding → Except FixFault (Option Repair)
  | [] => .ok none
  | f :: fs =>
    match repair? source text j f with
    | .error fault => .error fault
    | .ok (some r) => .ok (some r)
    | .ok none => firstRepair source text j fs

/-- What fixing has come to: the text, the number of edits and the notes, the newest first. -/
structure Fixing where
  text : String
  applied : Nat
  notes : List FixNote
  deriving Repr

/-- One round: the text after the next edit, or nothing if there is none, and the notes on it. -/
def fixRound (source : Option String) (text : String) :
    List FixNote × Except FixFault (Option Repair) :=
  match check source text with
  | .error fault => ([], .error (.check fault))
  | .ok checked =>
    match checked.journal with
    | none => (checked.notes, .ok none)
    | some j =>
      match firstRepair source text j checked.findings with
      | .error fault => (checked.notes, .error fault)
      | .ok none => (checked.notes, .ok none)
      | .ok (some r) => (checked.notes ++ [.applying r.command r.rule r.edit.span], .ok (some r))

/-- At most `rounds` rounds of the `allowed` ones, and the fault that ended them, if one did. -/
def fixLoop (source : Option String) (allowed : Nat) :
    (rounds : Nat) → Fixing → Fixing × Option FixFault
  | 0, f => ({ f with notes := .stopped allowed :: f.notes }, none)
  | n + 1, f =>
    let (notes, outcome) := fixRound source f.text
    let f := { f with notes := notes.reverse ++ f.notes }
    match outcome with
    | .error fault => (f, some fault)
    | .ok none => (f, none)
    | .ok (some r) => fixLoop source allowed n { f with text := r.text, applied := f.applied + 1 }

/-- The rounds that are allowed unless another number is given. -/
def defaultRounds : Nat := 1000

/-- The text after at most `rounds` edits and their number, or the fault, with the notes. -/
def fix (text : String) (source : Option String) (rounds : Nat) :
    List FixNote × Except FixFault (String × Nat) :=
  match fixLoop source rounds rounds ⟨text, 0, []⟩ with
  | (f, none) => (f.notes.reverse, .ok (f.text, f.applied))
  | (f, some fault) => (f.notes.reverse, .error fault)

end TimeJournal
