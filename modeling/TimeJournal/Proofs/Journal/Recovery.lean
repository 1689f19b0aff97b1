import TimeJournal.Proofs.Journal.Failure
import TimeJournal.Proofs.Journal.FaultSpan

/-! # What could not be read is accounted for

Every fault of a text belongs to what could not be read there, and the other way around: a line of
junk, or a duration that is none, has one fault that describes it, other lines have none, and all
other faults are in the front matter. They come in the order of the text.

* `pairwise_faults`, `filter_faults`: if each line has at most one fault, in it, then the faults of
  some lines are in order, and those in a line are its own.
* `Reading.AccountsFor`, `Reading.accountsFor_ofText`: what the faults of a reading are.
* `Context.line_eq_lineByEntry`: a line takes the failure of its own entry, and never the fallback.
* `read_accounts`: all of it for every text that is short enough to be read. -/

namespace TimeJournal

open Text

/-! ### One fault in each line -/

section Lines

variable {find : Line → Option ParseFault} {ls : List Line} {l : Line}

theorem pairwise_faults (hfind : ∀ l f, find l = some f → f.FoundIn l.span)
    (hls : ls.Pairwise fun a b => a.stop < b.start) :
    (ls.filterMap find).Pairwise fun a b => a.span.start < b.span.start := by
  rw [List.pairwise_filterMap]
  refine hls.imp fun {a b} hlt f hf g hg => ?_
  have hfirst : f.span.stop ≤ a.stop := (hfind a f hf).within.2
  have hsecond : b.start ≤ g.span.start := (hfind b g hg).within.1
  have hle := f.span.start_le_stop
  omega

/-- What lies in a line is not in front of it or behind it. -/
theorem not_within_span {f : ParseFault} (h : f.span.stop < l.start ∨ l.stop < f.span.start) :
    ¬ f.span.Within l.span := by
  rintro ⟨hstart, hstop⟩
  have hle := f.span.start_le_stop
  change l.start ≤ f.span.start at hstart
  change f.span.stop ≤ l.stop at hstop
  omega

/-- **The faults in a line are its own.** -/
theorem filter_faults (hfind : ∀ l f, find l = some f → f.FoundIn l.span)
    (hls : ls.Pairwise fun a b => a.stop < b.start) (hl : l ∈ ls) :
    (ls.filterMap find).filter (fun f => f.span.Within l.span) = (find l).toList := by
  obtain ⟨before, after, rfl⟩ := List.append_of_mem hl
  obtain ⟨-, hlater, hcross⟩ := List.pairwise_append.mp hls
  have hbefore : (before.filterMap find).filter (fun f => f.span.Within l.span) = [] := by
    refine List.filter_eq_nil_iff.mpr fun f hf => ?_
    obtain ⟨x, hx, hxf⟩ := List.mem_filterMap.mp hf
    have hstop : f.span.stop ≤ x.stop := (hfind x f hxf).within.2
    have hlt := hcross x hx l List.mem_cons_self
    simpa using not_within_span (Or.inl (by omega))
  have hafter : (after.filterMap find).filter (fun f => f.span.Within l.span) = [] := by
    refine List.filter_eq_nil_iff.mpr fun f hf => ?_
    obtain ⟨x, hx, hxf⟩ := List.mem_filterMap.mp hf
    have hstart : x.start ≤ f.span.start := (hfind x f hxf).within.1
    have hlt := (List.pairwise_cons.mp hlater).1 x hx
    simpa using not_within_span (Or.inr (by omega))
  rw [List.filterMap_append, List.filter_append, hbefore, List.nil_append]
  rcases hfault : find l with _ | f
  · rw [List.filterMap_cons_none hfault]
    exact hafter
  · rw [List.filterMap_cons_some hfault, List.filter_cons_of_pos, hafter]
    · rfl
    · exact decide_eq_true (hfind l f hfault).within

end Lines

/-! ### The faults of a reading -/

/-- The faults of a reading account for what could not be read: they come in the order of the text,
none is a fallback, those in a line of the body are what it is accounted for by, and there are no
others but those in the front matter. -/
structure Reading.AccountsFor (r : Reading) (size : ℕ) : Prop where
  increasing : r.faults.Pairwise fun a b => a.span.start < b.span.start
  inside : ∀ f ∈ r.faults, f.span.stop ≤ size
  no_fallback : ∀ f ∈ r.faults, f.message ≠ ParseCause.malformedEntry.message ∧
    f.message ≠ ParseCause.invalidFrontMatter.message
  line : ∀ j, r.journal = some j → ∀ l ∈ j.lines,
    l.AccountedBy (r.faults.filter fun f => f.span.Within l.span)
  eq_append : ∀ j, r.journal = some j →
    r.faults = (r.faults.filter fun f => f.span.Within j.frontMatter.span) ++
      j.lines.flatMap fun l => r.faults.filter fun f => f.span.Within l.span

/-- The fault of a line of the block. -/
def blockFault? (l : Line) : Option ParseFault := (BlockLine.read l).fault?

/-- The fault of a line of the body. -/
def bodyFault? (l : Line) : Option ParseFault := (BodyLine.read l.start l.content).2

theorem foundIn_blockFault? : ∀ l f, blockFault? l = some f → f.FoundIn l.span :=
  fun _ _ => BlockLine.foundIn_fault?

theorem foundIn_bodyFault? : ∀ l f, bodyFault? l = some f → f.FoundIn l.span :=
  fun l f h => (BodyLine.accountedBy_read l.start l.content).2 f h

namespace Document

variable (D : Document)

theorem faults_eq : D.faults = D.inner.filterMap blockFault? ++ D.body.filterMap bodyFault? := by
  rw [faults, blockLines, bodyLines, List.filterMap_map, List.filterMap_map]
  rfl

theorem pairwise_lt_body : D.body.Pairwise fun a b => a.stop < b.start :=
  D.areLines_body.cut.pairwise_lt

/-- The lines inside the front matter stand in its span, the lines of the body behind it. -/
theorem inner_within {l : Line} (hl : l ∈ D.inner) : l.span.Within D.blockSpan := by
  have hlines := (List.pairwise_cons.mp D.cut.pairwise_lt).2
  have hcross := (List.pairwise_append.mp hlines).2.2 l hl D.closing List.mem_cons_self
  refine ⟨D.cut.start_le l (List.mem_cons_of_mem _ (List.mem_append_left _ hl)), ?_⟩
  rw [D.blockSpan_stop]
  show l.stop ≤ D.closing.start + D.closing.content.length
  omega

theorem blockSpan_lt_body {l : Line} (hl : l ∈ D.body) : D.blockSpan.stop < l.start := by
  rw [D.blockSpan_stop]
  exact (List.pairwise_cons.mp D.areLines_closing.cut.pairwise_lt).1 l hl

theorem inner_fault_within {f : ParseFault} (hf : f ∈ D.inner.filterMap blockFault?) :
    f.span.Within D.blockSpan := by
  obtain ⟨l, hl, hlf⟩ := List.mem_filterMap.mp hf
  have hline := (foundIn_blockFault? l f hlf).within
  have hblock := D.inner_within hl
  exact ⟨hblock.1.trans hline.1, hline.2.trans hblock.2⟩

theorem blockSpan_lt_body_fault {f : ParseFault} (hf : f ∈ D.body.filterMap bodyFault?) :
    D.blockSpan.stop < f.span.start := by
  obtain ⟨l, hl, hlf⟩ := List.mem_filterMap.mp hf
  exact (D.blockSpan_lt_body hl).trans_le (foundIn_bodyFault? l f hlf).within.1

/-- The faults in the span of the front matter are those of the lines inside. -/
theorem filter_blockSpan : D.faults.filter (fun f => f.span.Within D.blockSpan) =
    D.inner.filterMap blockFault? := by
  have hinner : ∀ f ∈ D.inner.filterMap blockFault?, decide (f.span.Within D.blockSpan) = true :=
    fun f hf => decide_eq_true (D.inner_fault_within hf)
  have hbody : (D.body.filterMap bodyFault?).filter (fun f => f.span.Within D.blockSpan) = [] := by
    refine List.filter_eq_nil_iff.mpr fun f hf => ?_
    have hlt := D.blockSpan_lt_body_fault hf
    have hle := f.span.start_le_stop
    rw [decide_eq_true_eq]
    rintro ⟨-, hstop⟩
    omega
  rw [faults_eq, List.filter_append, List.filter_eq_self.mpr hinner, hbody, List.append_nil]

/-- The faults in a line of the body are its own. -/
theorem filter_body {l : Line} (hl : l ∈ D.body) :
    D.faults.filter (fun f => f.span.Within l.span) = (bodyFault? l).toList := by
  have hinner : (D.inner.filterMap blockFault?).filter (fun f => f.span.Within l.span) = [] := by
    refine List.filter_eq_nil_iff.mpr fun f hf => ?_
    have hstop := (D.inner_fault_within hf).2
    have hlt := D.blockSpan_lt_body hl
    simpa using not_within_span (Or.inl (by omega))
  rw [faults_eq, List.filter_append, hinner, List.nil_append,
    filter_faults foundIn_bodyFault? D.pairwise_lt_body hl]

theorem pairwise_start_faults : D.faults.Pairwise fun a b => a.span.start < b.span.start := by
  have hinner : D.inner.Pairwise fun a b => a.stop < b.start :=
    (List.pairwise_append.mp (List.pairwise_cons.mp D.cut.pairwise_lt).2).1
  rw [faults_eq, List.pairwise_append]
  refine ⟨pairwise_faults foundIn_blockFault? hinner,
    pairwise_faults foundIn_bodyFault? D.pairwise_lt_body, fun f hf g hg => ?_⟩
  have hstop := (D.inner_fault_within hf).2
  have hlt := D.blockSpan_lt_body_fault hg
  have hle := f.span.start_le_stop
  omega

theorem foundIn_of_mem_faults {f : ParseFault} (h : f ∈ D.faults) :
    ∃ l ∈ D.lines, f.FoundIn l.span := by
  rw [faults_eq, List.mem_append] at h
  rcases h with h | h
  · obtain ⟨l, hl, hlf⟩ := List.mem_filterMap.mp h
    exact ⟨l, List.mem_cons_of_mem _ (List.mem_append_left _ hl), foundIn_blockFault? l f hlf⟩
  · obtain ⟨l, hl, hlf⟩ := List.mem_filterMap.mp h
    refine ⟨l, ?_, foundIn_bodyFault? l f hlf⟩
    exact List.mem_cons_of_mem _ (List.mem_append_right _ (List.mem_cons_of_mem _ hl))

/-- **The faults of a document account for what could not be read in it.** -/
theorem accountsFor : (Reading.ofText D.text).AccountsFor D.text.length where
  increasing := by
    rw [D.faults_ofText]
    exact D.pairwise_start_faults
  inside := by
    rw [D.faults_ofText]
    intro f hf
    obtain ⟨l, hl, hfound⟩ := D.foundIn_of_mem_faults hf
    have hline := D.cut.stop_le l hl
    rw [← D.length_mark, ← List.length_append] at hline
    exact hfound.within.2.trans hline
  no_fallback := by
    rw [D.faults_ofText]
    intro f hf
    obtain ⟨l, -, hfound⟩ := D.foundIn_of_mem_faults hf
    exact ParseCause.message_ne_of_isSpecific hfound.specific
  line := by
    rw [D.faults_ofText, D.journal_ofText]
    rintro _ ⟨rfl⟩ b hb
    obtain ⟨l, hl, rfl⟩ := D.exists_line_of_mem_lines hb
    rw [BodyLine.span_read]
    rw [show Span.ofLength l.start l.content.length = l.span from rfl, D.filter_body hl]
    exact (BodyLine.accountedBy_read l.start l.content).1
  eq_append := by
    rw [D.faults_ofText, D.journal_ofText]
    rintro _ ⟨rfl⟩
    have hbody : (D.journal.lines.flatMap fun b => D.faults.filter fun f => f.span.Within b.span) =
        D.body.filterMap bodyFault? := by
      rw [journal_lines, List.flatMap_map, List.filterMap_eq_flatMap_toList]
      refine List.flatMap_congr fun l hl => ?_
      rw [BodyLine.span_read]
      exact D.filter_body hl
    rw [hbody, show D.journal.frontMatter.span = D.blockSpan from rfl, D.filter_blockSpan,
      D.faults_eq]

end Document

/-! ### Texts without a journal -/

namespace Reading

/-- Without a journal there is one fault at the beginning, in front of those of the lines. -/
theorem accountsFor_of_none {r : Reading} {size : ℕ} {fault : ParseFault} (rest : List Line)
    (hjournal : r.journal = none) (hfaults : r.faults = fault :: rest.filterMap blockFault?)
    (hspecific : fault.cause.isSpecific = true) (hstop : fault.span.stop ≤ size)
    (hrest : rest.Pairwise fun a b => a.stop < b.start)
    (hlines : ∀ l ∈ rest, fault.span.start < l.start ∧ l.stop ≤ size) : r.AccountsFor size where
  increasing := by
    rw [hfaults, List.pairwise_cons]
    refine ⟨fun f hf => ?_, pairwise_faults foundIn_blockFault? hrest⟩
    obtain ⟨l, hl, hlf⟩ := List.mem_filterMap.mp hf
    exact (hlines l hl).1.trans_le (foundIn_blockFault? l f hlf).within.1
  inside := by
    rw [hfaults]
    intro f hf
    rcases List.mem_cons.mp hf with rfl | hf
    · exact hstop
    · obtain ⟨l, hl, hlf⟩ := List.mem_filterMap.mp hf
      exact (foundIn_blockFault? l f hlf).within.2.trans (hlines l hl).2
  no_fallback := by
    rw [hfaults]
    intro f hf
    rcases List.mem_cons.mp hf with rfl | hf
    · exact ParseCause.message_ne_of_isSpecific hspecific
    · obtain ⟨l, -, hlf⟩ := List.mem_filterMap.mp hf
      exact ParseCause.message_ne_of_isSpecific (foundIn_blockFault? l f hlf).specific
  line j hj := by rw [hjournal] at hj; cases hj
  eq_append j hj := by rw [hjournal] at hj; cases hj

/-- **Without a journal all faults are in order too.** -/
theorem accountsFor_ofLines {marked : Bool} {size : ℕ} {ls : List Line} {fault : ParseFault}
    (hcut : IsCut marked.toNat ls) (hsize : marked.toNat + (ls.flatMap Line.chars).length = size)
    (h : (Block.ofLines marked.toNat size ls).outcome = .error fault) :
    (ofLines marked.toNat size ls).AccountsFor size := by
  obtain ⟨hjournal, hfaults⟩ := ofLines_of_error h
  rcases ls with _ | ⟨opening, rest⟩
  · refine accountsFor_of_none [] hjournal rfl rfl ?_ List.Pairwise.nil (by simp)
    show marked.toNat + 0 ≤ size
    omega
  have hstart : opening.start = marked.toNat := hcut.1
  have hstop := hcut.stop_le
  rw [hsize] at hstop
  have hopening := hstop opening List.mem_cons_self
  by_cases hopen : isDelimiter opening.content = true
  · have hnone : ∀ l ∈ rest, isDelimiter l.content = false := by
      intro l hl
      rw [← Bool.not_eq_true]
      intro hclose
      have hsome := (recognizes_ofLines size hcut).isSome_iff.mpr
        ⟨opening, rest, rfl, isDelimiter_iff.mp hopen, l, hl, isDelimiter_iff.mp hclose⟩
      rw [hjournal] at hsome
      cases hsome
    have hblock := Block.ofLines_unterminated marked.toNat size hopen hnone
    rw [hblock] at h hfaults
    rw [← Except.error.inj h] at hfaults
    dsimp only at hfaults
    rw [List.filterMap_map] at hfaults
    have hrest := (List.pairwise_cons.mp hcut.pairwise_lt).2
    refine accountsFor_of_none rest hjournal hfaults rfl ?_ hrest ?_
    · show marked.toNat + (size - marked.toNat) ≤ size
      unfold Line.stop at hopening
      omega
    · intro l hl
      refine ⟨?_, hstop l (List.mem_cons_of_mem _ hl)⟩
      have hlt := (List.pairwise_cons.mp hcut.pairwise_lt).1 l hl
      show marked.toNat < l.start
      unfold Line.stop at hlt
      omega
  · rw [Bool.not_eq_true] at hopen
    have hblock := Block.ofLines_missing marked.toNat size rest hopen
    rw [hblock] at h hfaults
    rw [← Except.error.inj h] at hfaults
    refine accountsFor_of_none [] hjournal hfaults rfl ?_ List.Pairwise.nil (by simp)
    rw [← hstart]
    exact hopening

end Reading

/-! ### The failure that a line takes -/

namespace Context

/-- A line by the production for entries: what that cannot read is junk, described by the failure
that it recorded, or by the fallback if none is recorded. -/
def lineByEntry (ctx : Context) (fallback : ParseFault) (text : List Char) (pos : ℕ) :
    BodyLine × Context :=
  let content := contentOf (text.drop pos)
  if looksLikeEntry content then
    match ctx.entry ⟨text, pos⟩ with
    | (.ok (some (item, _)), ctx) => (.entry item, ctx)
    | (_, ctx) =>
      let (fault, ctx) := ctx.takeFailure fallback
      (.junk ⟨String.ofList content, fault.describe, Span.ofLength pos content.length⟩,
        ctx.report [fault])
  else (.other (EntryText.locate pos content), ctx)

section Dash

variable {text r : List Char} {pos : ℕ} (hcontent : contentOf (text.drop pos) = '-' :: r)
include hcontent

theorem entry_of_ok (ctx : Context) {t : EntryText} (h : EntryText.readAfterDash pos r = .ok t) :
    ctx.entry ⟨text, pos⟩ = (.ok (some ((t.toEntry pos).1,
      (⟨text, pos⟩ : Cursor).move ('-' :: r).length)), ctx.report (t.toEntry pos).2.toList) := by
  rw [entry_eq_entryByParts, entryByParts_of_cons ctx (hcontent ▸ Cursor.sees_natCast text pos), h]

theorem entry_of_error (ctx : Context) {fault : ParseFault}
    (h : EntryText.readAfterDash pos r = .error fault) :
    ctx.entry ⟨text, pos⟩ = (.ok none, ctx.fail fault) := by
  rw [entry_eq_entryByParts, entryByParts_of_cons ctx (hcontent ▸ Cursor.sees_natCast text pos), h]

end Dash

theorem lineByEntry_eq (ctx : Context) (fallback : ParseFault) (text : List Char) (pos : ℕ) :
    ctx.lineByEntry fallback text pos = ctx.lineAt pos (contentOf (text.drop pos)) := by
  unfold lineByEntry lineAt BodyLine.read
  by_cases hlooks : looksLikeEntry (contentOf (text.drop pos)) = true
  swap
  · simp only [if_neg hlooks, Option.toList_none, report_nil]
  obtain ⟨blanks, digit, rest, hcontent, -, -, -⟩ := looksLikeEntry_iff.mp hlooks
  have hdrop : (contentOf (text.drop pos)).drop 1 = blanks ++ digit :: rest := by
    rw [hcontent]
    rfl
  simp only [if_pos hlooks, hdrop]
  rcases hread : EntryText.readAfterDash pos (blanks ++ digit :: rest) with fault | t
  · rw [entry_of_error hcontent ctx hread]
    rfl
  · rw [entry_of_ok hcontent ctx hread]

/-- **A line takes the failure of its own entry**, whatever the fallback is. -/
theorem line_eq_lineByEntry (ctx : Context) (fallback : ParseFault) (text : List Char) (pos : ℕ) :
    ∃ next, ctx.line ⟨text, pos⟩ = (.ok ((ctx.lineByEntry fallback text pos).1, next),
      (ctx.lineByEntry fallback text pos).2) := by
  rw [lineByEntry_eq, (ctx.lineAt_eq pos _).1]
  exact ⟨_, ctx.line_eq pos⟩

theorem frontMatter_of_error (ctx : Context) {text : List Char} {pos : ℕ} {fault : ParseFault}
    (h : (Block.ofLines pos text.length (lines pos (text.drop pos))).outcome = .error fault) :
    ctx.frontMatter ⟨text, pos⟩ = (.ok none, (ctx.report
      (Block.ofLines pos text.length (lines pos (text.drop pos))).faults).fail fault) := by
  have hpos : ¬ ((pos : Int) < 0) := by omega
  simp only [frontMatter, Cursor.ahead_natCast, if_neg hpos, Int.toNat_natCast, h]

end Context

/-- The faults of a text are those that the productions find in it, in the order in which they find
them. If the front matter fails, its failure is among them: no fallback takes its place. -/
def Reading.IsProduced (r : Reading) (text : List Char) (pos : ℕ) : Prop :=
  match r.journal with
  | some j => Context.empty.ReadsJournal text pos j r.faults
  | none => ∃ ctx, Context.empty.frontMatter ⟨text, pos⟩ = (.ok none, ctx) ∧
      ∀ fallback, r.faults.Perm (ctx.faults ++ [(ctx.takeFailure fallback).1])

theorem Reading.accountsFor_ofText (text : List Char) : ∃ marked : Bool,
    (marked = true ↔ text.head? = some byteOrderMark) ∧ (ofText text).AccountsFor text.length ∧
      (ofText text).IsProduced text marked.toNat := by
  rcases hjournal : (ofText text).journal with _ | j
  · obtain ⟨marked, r, rfl, hmark⟩ := exists_mark text
    have hlength : ((if marked then [byteOrderMark] else []) ++ r).length =
        marked.toNat + r.length := by
      rw [List.length_append, length_mark]
    have hdrop : ((if marked then [byteOrderMark] else []) ++ r).drop marked.toNat = r := by
      cases marked <;> rfl
    have hread := ofText_mark marked r hmark
    rcases hblock : (Block.ofLines marked.toNat (marked.toNat + r.length)
      (lines marked.toNat r)).outcome with fault | block
    · refine ⟨marked, ?_, ?_, ?_⟩
      · cases marked with
        | true => simp
        | false => simpa using hmark rfl
      · rw [hread, hlength]
        refine accountsFor_ofLines (isCut_lines _ _) ?_ hblock
        rw [List.flatMap_def, lines_flatten]
      · unfold IsProduced
        rw [hjournal]
        rw [← hlength] at hblock
        refine ⟨_, Context.empty.frontMatter_of_error (by rw [hdrop]; exact hblock), fun _ => ?_⟩
        rw [hread, hlength, (ofLines_of_error (hlength ▸ hblock)).2, hdrop]
        exact (List.perm_append_singleton _ _).symm
    · rw [hread] at hjournal
      simp only [ofLines, hblock, reduceCtorEq] at hjournal
  · obtain ⟨D, rfl, rfl⟩ := exists_document hjournal
    refine ⟨D.marked, D.head_text, D.accountsFor, ?_⟩
    unfold IsProduced
    rw [hjournal, D.faults_ofText]
    exact D.readsJournal Context.empty

/-- **What could not be read is accounted for**, in every text that is short enough to be read. The
faults are in order, each of them is the one of a line of junk, of a duration or of the front
matter, and each of those has one. All of them come from the productions. A production that fails
records its own failure, an entry that of its first part that fails, so no line takes a failure of
another line or a fallback. -/
theorem read_accounts (text : String) (limit : ℕ) (h : limit = 0 ∨ text.length ≤ limit) :
    ∃ (reading : Reading) (marked : Bool), Journal.read text limit = .ok reading ∧
      (marked = true ↔ text.toList.head? = some Reading.byteOrderMark) ∧
      reading.AccountsFor text.length ∧ reading.IsProduced text.toList marked.toNat ∧
      (∀ c, Context.RecordsFailure fun ctx => ctx.frontMatter c) ∧
      (∀ c, Context.RecordsFailure fun ctx => ctx.entry c) ∧
      (∀ c, Context.RecordsFailure fun ctx => ctx.dash c) ∧
      (∀ gap c, Context.RecordsFailure fun ctx => ctx.blanks gap c) ∧
      (∀ c, Context.RecordsFailure fun ctx => ctx.time c) ∧
      (∀ c, Context.RecordsFailure fun ctx => ctx.rangeDash c) ∧
      (∀ c, Context.RecordsFailure fun ctx => ctx.fields c) ∧
      (∀ (ctx : Context) (pos : ℕ),
        ctx.entry ⟨text.toList, pos⟩ = ctx.entryByParts ⟨text.toList, pos⟩) ∧
      ∀ (ctx : Context) (fallback : ParseFault) (pos : ℕ), ∃ next, ctx.line ⟨text.toList, pos⟩ =
        (.ok ((ctx.lineByEntry fallback text.toList pos).1, next),
          (ctx.lineByEntry fallback text.toList pos).2) := by
  obtain ⟨marked, hmarked, haccounts, hproduced⟩ := Reading.accountsFor_ofText text.toList
  rw [String.length_toList] at haccounts
  exact ⟨_, marked, Journal.read_of_le h, hmarked, haccounts, hproduced,
    Context.recordsFailure_frontMatter, Context.recordsFailure_entry,
    Context.recordsFailure_dash, Context.recordsFailure_blanks, Context.recordsFailure_time,
    Context.recordsFailure_rangeDash, Context.recordsFailure_fields,
    fun ctx pos => ctx.entry_eq_entryByParts text.toList pos,
    fun ctx fallback pos => ctx.line_eq_lineByEntry fallback text.toList pos⟩

/-- A text with two faults in the front matter, and in the body two lines of junk and a duration
that is none. -/
def tangledText : String :=
  "---\ndate: 2024-01-33\ntoday\n---\n- 9\nnotes\n" ++
    "- 09:00-10:00 1..5 read\n- 09:00-10:00 1.5 read\n- 09:00-"

theorem read_accounts_tangledText : ∃ (reading : Reading) (marked : Bool),
    Journal.read tangledText Journal.defaultLimit = .ok reading ∧
    reading.faults.map ParseFault.span = [⟨10, 20, by decide⟩, ⟨21, 26, by decide⟩,
      ⟨33, 34, by decide⟩, ⟨55, 59, by decide⟩, ⟨96, 96, by decide⟩] ∧
    reading.AccountsFor tangledText.length ∧
    reading.IsProduced tangledText.toList marked.toNat := by
  have hlimit : Journal.defaultLimit = 0 ∨ tangledText.length ≤ Journal.defaultLimit := by
    decide +kernel
  obtain ⟨reading, marked, hread, -, haccounts, hproduced, -⟩ :=
    read_accounts tangledText Journal.defaultLimit hlimit
  refine ⟨reading, marked, hread, ?_, haccounts, hproduced⟩
  rw [← Except.ok.inj ((Journal.read_of_le hlimit).symm.trans hread)]
  decide +kernel

end TimeJournal
