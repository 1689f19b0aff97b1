import TimeJournal.Edit.Command
import TimeJournal.Lint.Finding
import TimeJournal.Text.LineIndex

/-! # Editors

What an editor exchanges with the tool: findings and edits at ranges of positions, the commands that
it may offer for a finding, and the edit of a document that a command makes. -/

namespace TimeJournal.Editor

open Text

/-- The name under which findings are shown. -/
def sourceName : String := "journalint"

/-- A number for a severity: 1 for an error, 2 for a warning. -/
def severityNumber : Severity → Nat
  | .error => 1
  | .warning => 2

/-- A place in a document that explains a finding. -/
structure RelatedPlace where
  uri : String
  range : Range
  message : String
  deriving DecidableEq, Repr

/-- A finding at a range of positions. -/
structure Diagnostic where
  range : Range
  severity : Nat
  code : String
  message : String
  related : List RelatedPlace
  suggestion : Option String
  deriving DecidableEq, Repr

/-- The diagnostic of a finding; related places are taken to lie in the same document. -/
def Diagnostic.ofFinding (ix : LineIndex) (f : Finding) : Diagnostic where
  range := ix.toRange f.span
  severity := severityNumber f.severity
  code := f.rule.id
  message := f.message
  related := f.related.map fun other => ⟨other.uri, ix.toRange other.span, other.message⟩
  suggestion := f.suggestion

/-- The identifiers of the commands that an editor may ask for. -/
def commandIds : List String := Command.all.map Command.id

/-- A command that is offered for a range of a document. -/
structure Action (ρ : Type) where
  title : String
  command : String
  uri : String
  range : ρ
  deriving DecidableEq, Repr

/-- The commands that resolve the findings of a rule, for a range of a document. -/
def actionsOfRule {ρ : Type} (uri : String) (range : ρ) (rule : Rule) : List (Action ρ) :=
  (Command.all.filter fun c => c.rule = rule).map fun c => ⟨c.title, c.id, uri, range⟩

/-- The commands that are offered for diagnostics with these codes. A diagnostic without a code, or
with one that names no rule, comes from another tool and is passed over. -/
def actions {ρ : Type} (uri : String) (range : ρ) (codes : List (Option String)) :
    List (Action ρ) :=
  codes.flatMap fun code =>
    match code.map Rule.parse with
    | some (.ok rule) => actionsOfRule uri range rule
    | _ => []

/-! ### Ranges from an editor -/

/-- A position as an editor sends it: either part may be missing. -/
structure SentPosition where
  line : Option Int
  character : Option Int
  deriving DecidableEq, Repr

/-- A range as an editor sends it: either end may be missing. -/
structure SentRange where
  start : Option SentPosition
  stop : Option SentPosition
  deriving DecidableEq, Repr

/-- Why a range that an editor sends has no span. -/
inductive RangeFault where
  | missing (key : String)
  | index (fault : LineIndex.Fault)
  deriving DecidableEq, Repr

/-- The wording of a fault. -/
def RangeFault.message : RangeFault → String
  | .missing key => s!"'{key}'"
  | .index fault => fault.message

/-- A part of a range that has to be there. -/
def required {α : Type} (key : String) : Option α → Except RangeFault α
  | some value => .ok value
  | none => .error (.missing key)

/-- The span of a range that an editor sends. -/
def SentRange.toSpan (r : SentRange) (ix : LineIndex) : Except RangeFault Span := do
  let start ← required "start" r.start
  let stop ← required "end" r.stop
  let startLine ← required "line" start.line
  let startCharacter ← required "character" start.character
  let stopLine ← required "line" stop.line
  let stopCharacter ← required "character" stop.character
  match ix.toSpan? (startLine, startCharacter) (stopLine, stopCharacter) with
  | .ok span => .ok span
  | .error fault => .error (.index fault)

/-! ### Edits -/

/-- An edit of a document, with a title for the user. -/
structure WorkspaceEdit where
  label : String
  uri : String
  range : Range
  newText : String
  deriving DecidableEq, Repr

/-- Why a command makes no edit. -/
inductive ApplyFault where
  | unknownCommand (fault : UnknownCommand)
  | range (fault : RangeFault)
  | command (fault : CommandFault)
  deriving DecidableEq, Repr

/-- The wording of a fault. -/
def ApplyFault.message : ApplyFault → String
  | .unknownCommand fault => fault.message
  | .range fault => fault.message
  | .command fault => fault.message

/-- The edit of the command with an identifier at a range of a document, nothing if the text is as
it should be. -/
def applyCommand (commandId : String) (j : Journal) (ix : LineIndex) (uri : String)
    (range : SentRange) : Except ApplyFault (Option WorkspaceEdit) :=
  match Command.parse commandId with
  | .error fault => .error (.unknownCommand fault)
  | .ok command =>
    match range.toSpan ix with
    | .error fault => .error (.range fault)
    | .ok selection =>
      match command.execute j selection (some uri) with
      | .error fault => .error (.command fault)
      | .ok none => .ok none
      | .ok (some edit) => .ok (some ⟨command.title, uri, ix.toRange edit.span, edit.newText⟩)

end TimeJournal.Editor
