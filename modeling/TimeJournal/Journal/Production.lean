import TimeJournal.Journal.Reading
import TimeJournal.Text.Cursor

/-! # Productions

The grammar of a journal as productions that work at a cursor, for stepping through a text. A
`Context` is carried from one production to the next: it collects the faults that did not stop a
production, and it keeps why the last failed one failed until that is taken.

* A production that fails gives `none` and records its failure; it leaves the collected faults
  alone.
* A production is stopped (`Halt`) where nothing can be read, and where it needs a span that would
  begin in front of the text or run backwards.
* `Context.line` reads a line of the body and never fails. It takes the failure of the entry that it
  could not read, so what was left of an earlier failure does not matter (`line_failure`). -/

namespace TimeJournal

open Text

/-- The faults collected so far, and why the last failed production failed. -/
structure Context where
  faults : List ParseFault
  failure : Option ParseFault
  deriving DecidableEq, Repr

/-- What stops a production. -/
inductive Halt where
  | reading (fault : ReadingFault)
  | span (fault : Span.Fault)
  deriving DecidableEq, Repr

/-- The wording of what stops a production. -/
def Halt.message : Halt → String
  | .reading fault => fault.message
  | .span fault => fault.message

/-- A span would begin in front of the text. -/
def Halt.inFront (place : Int) : Halt := .span (.negativeStart place)

/-- What a production gives, and the context after it. -/
abbrev Produced (α : Type) := Except Halt α × Context

namespace Context

/-- The context of a fresh start. -/
def empty : Context := ⟨[], none⟩

/-- Records why a production failed. -/
def fail (ctx : Context) (fault : ParseFault) : Context := { ctx with failure := some fault }

/-- Collects faults. -/
def report (ctx : Context) (faults : List ParseFault) : Context :=
  { ctx with faults := ctx.faults ++ faults }

/-- Takes the recorded failure, or the fallback if none was recorded. -/
def takeFailure (ctx : Context) (fallback : ParseFault) : ParseFault × Context :=
  (ctx.failure.getD fallback, { ctx with failure := none })

/-- A production that reads what is left of the line. -/
def withContent {α : Type} (ctx : Context) (c : Cursor) (read : List Char → Produced α) :
    Produced α :=
  match c.content with
  | .ok content => read content
  | .error fault => (.error (.reading fault), ctx)

/-- A failure over the word at the cursor, where `content` begins. -/
def failAt {α : Type} (ctx : Context) (cause : ParseCause) (c : Cursor) (content : List Char) :
    Produced (Option α) :=
  if c.pos < 0 then (.error (.inFront c.pos), ctx)
  else (.ok none, ctx.fail (EntryText.faultAt cause c.pos.toNat content))

/-! ### Parts of a line -/

/-- Whether the line from the cursor on looks like an entry. -/
def entryStart (ctx : Context) (c : Cursor) : Produced Bool :=
  ctx.withContent c fun content => (.ok (looksLikeEntry content), ctx)

/-- One or more blanks. -/
def blanks (ctx : Context) (gap : Gap) (c : Cursor) : Produced (Option Cursor) :=
  ctx.withContent c fun content =>
    let run := content.takeWhile isBlank
    if run.isEmpty then ctx.failAt (.noBlank gap) c content
    else (.ok (some (c.move run.length)), ctx)

/-- A time. -/
def time (ctx : Context) (c : Cursor) : Produced (Option (String × Cursor)) :=
  ctx.withContent c fun content =>
    match takeTime content with
    | some (token, _) =>
      let after := c.move token.length
      (.ok (some (String.ofList (c.sliceTo after.pos), after)), ctx)
    | none => ctx.failAt .malformedTime c content

/-- A word; a word that is missing is no failure. -/
def word (ctx : Context) (c : Cursor) : Produced (Option (String × Cursor)) :=
  ctx.withContent c fun content =>
    match takeWord content with
    | some (w, _) =>
      let after := c.move w.text.length
      (.ok (some (String.ofList (c.sliceTo after.pos), after)), ctx)
    | none => (.ok none, ctx)

/-- A line that delimits the front matter; its ending is not taken. -/
def delimiterLine (ctx : Context) (c : Cursor) : Produced (Option Cursor) :=
  ctx.withContent c fun content =>
    (.ok (if isDelimiter content then some (c.move content.length) else none), ctx)

/-! ### In front of the text

A block, an entry or a line that begins in front of the text has no span, so no production gives
one; what is found before the first span is needed is still reported. -/

/-- The faults of the lines after the opening delimiter of a block at `start`, up to the first line
that needs a span in front of the text, and where that span would begin. The lines are counted from
the start of the block. The key of a field has to be in front of the text or in it. -/
def blockInFront (start : Int) : List Line → List ParseFault × Int
  | [] => ([], start)
  | l :: ls =>
    let place := start + l.start
    let (faults, last) := blockInFront start ls
    if isDelimiter l.content then ([], start)
    else if l.content.all isBlank then (faults, last)
    else
      match FieldText.read l.content with
      | some f =>
        let valuePlace := place + f.valueOffset
        if place < 0 ∧ 0 ≤ place + f.key.name.length then ([], place)
        else if valuePlace < 0 then ([], valuePlace)
        else
          let span := Span.ofLength valuePlace.toNat f.value.length
          let found := BlockLine.field ⟨f.key, String.ofList f.value, span, place.toNat⟩
          (found.fault?.toList ++ faults, last)
      | none =>
        if place < 0 then ([], place)
        else
          let found := BlockLine.unexpected (Span.ofLength place.toNat l.content.length)
          (found.fault?.toList ++ faults, last)

/-- A block in front of the text, with `s` from there on. -/
def frontMatterInFront (ctx : Context) (start : Int) (s : List Char) : Halt × Context :=
  match lines 0 s with
  | [] => (.inFront start, ctx)
  | opening :: rest =>
    if isDelimiter opening.content then
      let (faults, place) := blockInFront start rest
      (.inFront place, ctx.report faults)
    else (.inFront start, ctx)

/-- A fault that is counted from `start`, counted from the beginning of the text. -/
def shift (start : Int) (fault : ParseFault) : ParseFault :=
  { fault with span := Span.ofLength (start + fault.span.start).toNat fault.span.length }

/-- An entry in front of the text: it fails if what is wrong with it is in the text, and is stopped
by the first span that is not. -/
def entryInFront (ctx : Context) (start : Int) (content : List Char) : Except Halt Unit × Context :=
  match content with
  | '-' :: r =>
    match EntryText.readAfterDash 0 r with
    | .error fault =>
      let place := start + fault.span.start
      if place < 0 then (.error (.inFront place), ctx) else (.ok (), ctx.fail (shift start fault))
    | .ok t =>
      let codesPlace := start + t.codesAt 0
      if codesPlace < 0 then (.error (.inFront codesPlace), ctx)
      else
        let startPlace := start + t.startAt 0
        let ctx := ctx.report ((t.toEntry 0).2.map (shift start)).toList
        (.error (.inFront (if startPlace < 0 then startPlace else start)), ctx)
  | _ => (.error (.inFront start), ctx)

/-- A line in front of the text. -/
def lineInFront (ctx : Context) (start : Int) (content : List Char) : Halt × Context :=
  if looksLikeEntry content then
    match ctx.entryInFront start content with
    | (.error halt, ctx) => (halt, ctx)
    | (.ok (), ctx) => (.inFront start, ctx)
  else (.inFront start, ctx)

/-! ### Blocks and lines -/

/-- The front matter block; the ending of its last line is not taken. -/
def frontMatter (ctx : Context) (c : Cursor) : Produced (Option (FrontMatter × Cursor)) :=
  match c.ahead with
  | .error fault => (.error (.reading fault), ctx)
  | .ok s =>
    if c.pos < 0 then
      let (halt, ctx) := ctx.frontMatterInFront c.pos s
      (.error halt, ctx)
    else
      let block := Block.ofLines c.pos.toNat c.text.length (lines c.pos.toNat s)
      let ctx := ctx.report block.faults
      match block.outcome with
      | .ok (part, closing, _) => (.ok (some (part, { c with pos := closing.stop })), ctx)
      | .error fault => (.ok none, ctx.fail fault)

/-- An entry; its ending is not taken. Past the end of the text not even the fault of a missing dash
has a span. -/
def entry (ctx : Context) (c : Cursor) : Produced (Option (Entry × Cursor)) :=
  ctx.withContent c fun content =>
    if c.pos < 0 then
      let (result, ctx) := ctx.entryInFront c.pos content
      (result.map fun _ => none, ctx)
    else
      match content with
      | '-' :: r =>
        match EntryText.readAfterDash c.pos.toNat r with
        | .ok t =>
          let (item, fault) := t.toEntry c.pos.toNat
          (.ok (some (item, c.move content.length)), ctx.report fault.toList)
        | .error fault => (.ok none, ctx.fail fault)
      | _ =>
        match c.spanTo (c.advance 1).pos with
        | .ok span => (.ok none, ctx.fail ⟨.noDash, span⟩)
        | .error fault => (.error (.span fault), ctx)

/-- A line of the body in the text. -/
def lineAt (ctx : Context) (start : Nat) (content : List Char) : BodyLine × Context :=
  let (item, fault) := BodyLine.read start content
  match item, fault with
  | .junk _, some fault =>
    let (taken, ctx) := (ctx.fail fault).takeFailure ⟨.malformedEntry, item.span⟩
    (item, ctx.report [taken])
  | _, _ => (item, ctx.report fault.toList)

/-- A line of the body with its ending. -/
def line (ctx : Context) (c : Cursor) : Produced (BodyLine × Cursor) :=
  match c.ahead with
  | .error fault => (.error (.reading fault), ctx)
  | .ok s =>
    let content := contentOf s
    if c.pos < 0 then
      let (halt, ctx) := ctx.lineInFront c.pos content
      (.error halt, ctx)
    else
      let (item, ctx) := ctx.lineAt c.pos.toNat content
      (.ok (item, c.move (content.length + endingLength (s.drop content.length))), ctx)

/-- What a line is read as, and what is reported on it, does not depend on an earlier failure. -/
theorem line_failure (ctx : Context) (failure : Option ParseFault) (start : Nat)
    (content : List Char) :
    ({ ctx with failure := failure }.lineAt start content).1 = (ctx.lineAt start content).1 ∧
      ({ ctx with failure := failure }.lineAt start content).2.faults =
        (ctx.lineAt start content).2.faults := by
  simp only [lineAt]
  split <;> exact ⟨rfl, rfl⟩

end Context

end TimeJournal
