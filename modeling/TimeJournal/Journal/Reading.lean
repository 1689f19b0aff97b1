import TimeJournal.Journal.Block
import TimeJournal.Journal.Body

/-! # Reading a journal

`Journal.read` reads a text. Without a front matter there is no journal; a line that cannot be read
is no reason not to have one. The faults come in the order of their spans. -/

namespace TimeJournal

open Text

/-- A text is longer than the limit. -/
structure SizeFault where
  size : Nat
  limit : Nat
  deriving DecidableEq, Repr

/-- The wording of the fault. -/
def SizeFault.message (f : SizeFault) : String :=
  let size := grouped f.size
  let limit := grouped f.limit
  s!"Source size ({size} characters) exceeds maximum ({limit} characters). " ++
    "Configure max_source_size in JournalParser constructor to increase limit."

/-- What is noted while a text is read. -/
inductive ReadingNote where
  | repeatedField (key : FieldKey) (line : Nat)
  | malformedEntry (line : Nat) (cause : ParseCause)
  | noJournal (cause : ParseCause)
  | journal (lines entries faults : Nat)
  deriving DecidableEq, Repr

/-- What reading a text gives: the journal, if there is one, the faults and the notes. -/
structure Reading where
  journal : Option Journal
  faults : List ParseFault
  notes : List ReadingNote
  deriving Repr

namespace Reading

/-- The note on a line of the body. -/
def lineNote? (line : BodyLine × Option ParseFault) : Option ReadingNote :=
  match line with
  | (.junk j, some fault) => some (.malformedEntry j.span.start fault.cause)
  | _ => none

/-- The reading of a text of `size` characters whose lines begin at `start`. -/
def ofLines (start size : Nat) (ls : List Line) : Reading :=
  let block := Block.ofLines start size ls
  let repeats := (repeatedFields [] block.fields).map fun f => .repeatedField f.key f.line
  match block.outcome with
  | .error fault => ⟨none, fault :: block.faults, repeats ++ [.noJournal fault.cause]⟩
  | .ok (frontMatter, _, rest) =>
    let body := rest.map fun l => BodyLine.read l.start l.content
    let journal : Journal := ⟨frontMatter, body.map Prod.fst, Span.ofLength 0 size⟩
    let faults := block.faults ++ body.filterMap Prod.snd
    let summary := .journal journal.lines.length journal.entries.length faults.length
    ⟨some journal, faults, repeats ++ body.filterMap lineNote? ++ [summary]⟩

/-- The character that may stand in front of a text and is no part of its first line. -/
def byteOrderMark : Char := '\uFEFF'

/-- The reading of a text of any length. -/
def ofText (text : List Char) : Reading :=
  match text with
  | [] => ofLines 0 0 []
  | c :: r =>
    if c = byteOrderMark then ofLines 1 (r.length + 1) (lines 1 r)
    else ofLines 0 (r.length + 1) (lines 0 (c :: r))

end Reading

/-- The longest text that is read unless another limit is given: 10 MiB, counted in characters. -/
def Journal.defaultLimit : Nat := 10 * 1024 * 1024

/-- The reading of a text; a limit of 0 is none. -/
def Journal.read (text : String) (limit : Nat) : Except SizeFault Reading :=
  if 0 < limit ∧ limit < text.length then .error ⟨text.length, limit⟩
  else .ok (Reading.ofText text.toList)

end TimeJournal
