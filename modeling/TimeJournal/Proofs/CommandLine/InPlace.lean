import TimeJournal.CommandLine.Run
import TimeJournal.Proofs.Edit.LineEndings

/-! # Fixing a file in place

A run that is asked to fix a file reads it with all its line endings as line feeds, makes
corrections in that text, and writes the file anew if there was any. So the file keeps all but the
corrected parts only if it has no carriage return; one that has any loses all of them.

* `notMem_unifyEndings`, `unifyEndings_eq_self`, `filter_unifyEndings`: what reading a file does to
  its text.
* `length_le_of_fixLoop`: fixing comes to its end only if no text on the way is too long, and then it
  has made the corrections of the journal (`fix_of_fitsIn`, `fix_eq_ok_iff`).
* `execute_cases`: a run comes to its stages, or it writes nothing.
* `execute_in_place`: what a run makes of its file, in terms of the edits that it has made. -/

namespace TimeJournal

open Lint

/-! ### Fixing that comes to its end -/

section Fix

variable {source : Option String} {fileDate : Option Date} {text : String} {j : Journal}

/-- A text that is too long ends a round. -/
theorem fixRound_of_lt (h : Journal.defaultLimit < text.length) :
    fixRound source text = ([], .error (.check (.size ⟨text.length, Journal.defaultLimit⟩))) := by
  unfold fixRound
  rw [check_of_lt h]

theorem length_le_of_fixRound {notes : List FixNote} {r : Option Repair}
    (h : fixRound source text = (notes, .ok r)) : text.length ≤ Journal.defaultLimit := by
  by_contra hlt
  rw [fixRound_of_lt (not_le.mp hlt)] at h
  cases h

/-- **Rounds that come to their end have read no text that is too long.** -/
theorem length_le_of_fixLoop (hs : Location.date? source = .ok fileDate) {allowed rounds : ℕ}
    {f f' : Fixing} (hj : (Reading.ofText f.text.toList).journal = some j)
    (h : fixLoop source allowed rounds f = (f', none)) : ∀ n < rounds,
      (TextEdit.applyAll 0 ((j.corrections fileDate).take n) f.text.toList).length ≤
        Journal.defaultLimit := by
  induction rounds generalizing f j with
  | zero => intro n hn; cases hn
  | succ rounds ih =>
    rcases hround : fixRound source f.text with ⟨notes, fault | r⟩
    · unfold fixLoop at h
      rw [hround] at h
      cases h
    have hsize := length_le_of_fixRound hround
    obtain ⟨notes', r', hround', hhead, htext⟩ := exists_fixRound hs hj hsize
    obtain ⟨rfl, hr⟩ := Prod.mk.inj (hround.symm.trans hround')
    obtain rfl := Except.ok.inj hr
    rcases hcorrections : j.corrections fileDate with _ | ⟨e, es⟩
    · intro n _
      rw [List.take_nil, TextEdit.applyAll_nil, String.length_toList]
      exact hsize
    · rw [hcorrections] at hhead
      obtain ⟨x, rfl, rfl⟩ := Option.map_eq_some_iff.mp hhead
      obtain ⟨j', hj', -, hpass⟩ := exists_rest hj hcorrections (htext x rfl)
      unfold fixLoop at h
      rw [hround] at h
      rintro (_ | n) hn
      · rw [List.take_zero, TextEdit.applyAll_nil, String.length_toList]
        exact hsize
      · have hrest := ih (f := ⟨x.text, f.applied + 1, notes.reverse ++ f.notes⟩) hj' h n (by omega)
        dsimp only at hrest
        rwa [hpass, hcorrections] at hrest

/-- Whether no text that fixing goes through is too long to be read. -/
def FitsIn (limit rounds : ℕ) (edits : List TextEdit) (s : List Char) : Prop :=
  ∀ n < rounds, (TextEdit.applyAll 0 (edits.take n) s).length ≤ limit

instance (limit rounds : ℕ) (edits : List TextEdit) (s : List Char) :
    Decidable (FitsIn limit rounds edits s) :=
  inferInstanceAs (Decidable (∀ n < rounds, (TextEdit.applyAll 0 (edits.take n) s).length ≤ limit))

/-- Texts behind the last edit are not looked at. -/
theorem fitsIn_of_length {limit rounds : ℕ} {edits : List TextEdit} {s : List Char}
    (h : FitsIn limit (edits.length + 1) edits s) : FitsIn limit rounds edits s := by
  intro n _
  rcases le_or_gt n edits.length with hn | hn
  · exact h n (by omega)
  · have hall := h edits.length (by omega)
    rw [List.take_length] at hall
    rwa [List.take_of_length_le hn.le]

/-- The edits that fixing a text makes: the corrections of its journal, as many as there are rounds,
unless fixing does not come to its end. -/
def editsOf (source : Option String) (rounds : ℕ) (text : String) : List TextEdit :=
  match Location.date? source, (Reading.ofText text.toList).journal with
  | .ok fileDate, some j =>
    if FitsIn Journal.defaultLimit rounds (j.corrections fileDate) text.toList then
      (j.corrections fileDate).take rounds
    else []
  | _, _ => []

theorem editsOf_eq {rounds : ℕ} (hs : Location.date? source = .ok fileDate)
    (hj : (Reading.ofText text.toList).journal = some j) : editsOf source rounds text =
      if FitsIn Journal.defaultLimit rounds (j.corrections fileDate) text.toList then
        (j.corrections fileDate).take rounds
      else [] := by
  unfold editsOf
  rw [hs, hj]

/-- An edit is made in a text with a journal, and is a correction of it. -/
theorem exists_of_editsOf_ne_nil {rounds : ℕ} (h : editsOf source rounds text ≠ []) :
    ∃ fileDate j, Location.date? source = .ok fileDate ∧
      (Reading.ofText text.toList).journal = some j ∧
      FitsIn Journal.defaultLimit rounds (j.corrections fileDate) text.toList ∧
      editsOf source rounds text = (j.corrections fileDate).take rounds := by
  rcases hs : Location.date? source with fault | fileDate
  · rw [editsOf, hs] at h
    exact absurd rfl h
  rcases hj : (Reading.ofText text.toList).journal with _ | j
  · rw [editsOf, hs, hj] at h
    exact absurd rfl h
  rw [editsOf_eq hs hj] at h ⊢
  split_ifs at h with hfits
  · exact ⟨fileDate, j, rfl, rfl, hfits, if_pos hfits⟩
  · exact absurd rfl h

/-- Fixing that comes to its end has read the text. -/
theorem length_le_of_fix {rounds : ℕ} {fixed : String × ℕ}
    (h : (fix text source (rounds + 1)).2 = .ok fixed) : text.length ≤ Journal.defaultLimit := by
  rcases hround : fixRound source text with ⟨notes, fault | r⟩
  · unfold fix fixLoop at h
    rw [hround] at h
    cases h
  · exact length_le_of_fixRound hround

/-- If no text on the way is too long, fixing makes the corrections of the journal, as many as there
are rounds. -/
theorem fix_of_fitsIn (hs : Location.date? source = .ok fileDate)
    (hj : (Reading.ofText text.toList).journal = some j) {rounds : ℕ}
    (h : FitsIn Journal.defaultLimit rounds (j.corrections fileDate) text.toList) :
    (fix text source rounds).2 = .ok
      (String.ofList (TextEdit.applyAll 0 ((j.corrections fileDate).take rounds) text.toList),
        ((j.corrections fileDate).take rounds).length) := by
  obtain ⟨notes, hloop⟩ := exists_fixLoop hs rounds (f := ⟨text, 0, []⟩) hj h
  rw [fix_of_fixLoop hloop, List.length_take, Nat.zero_add]

/-- Fixing that comes to its end has made them. -/
theorem fitsIn_of_fix (hs : Location.date? source = .ok fileDate)
    (hj : (Reading.ofText text.toList).journal = some j) {rounds applied : ℕ} {after : String}
    (h : (fix text source rounds).2 = .ok (after, applied)) :
    FitsIn Journal.defaultLimit rounds (j.corrections fileDate) text.toList ∧
      after = String.ofList
        (TextEdit.applyAll 0 ((j.corrections fileDate).take rounds) text.toList) ∧
      applied = ((j.corrections fileDate).take rounds).length := by
  have hfits : FitsIn Journal.defaultLimit rounds (j.corrections fileDate) text.toList := by
    rcases hloop : fixLoop source rounds rounds ⟨text, 0, []⟩ with ⟨f, _ | fault⟩
    · exact length_le_of_fixLoop hs (f := ⟨text, 0, []⟩) hj hloop
    · unfold fix at h
      rw [hloop] at h
      cases h
  obtain ⟨rfl, rfl⟩ := Prod.mk.inj (Except.ok.inj (h.symm.trans (fix_of_fitsIn hs hj hfits)))
  exact ⟨hfits, rfl, rfl⟩

/-- **Fixing has made an edit exactly if there is one to make**, and then it has made all of
them. -/
theorem fix_eq_ok_iff {rounds : ℕ} {after : String} :
    (∃ applied, applied ≠ 0 ∧ (fix text source rounds).2 = .ok (after, applied)) ↔
      editsOf source rounds text ≠ [] ∧
        after = String.ofList (TextEdit.applyAll 0 (editsOf source rounds text) text.toList) := by
  constructor
  · rintro ⟨applied, hne, h⟩
    -- an edit can only have been made in a text with a journal, under a name with a host
    rcases rounds with _ | n
    · obtain ⟨-, rfl⟩ := Prod.mk.inj (Except.ok.inj (fix_zero.symm.trans h))
      exact absurd rfl hne
    have hsize := length_le_of_fix h
    rcases hj : (Reading.ofText text.toList).journal with _ | j
    · rw [fix_of_none hj hsize] at h
      obtain ⟨-, rfl⟩ := Prod.mk.inj (Except.ok.inj h)
      exact absurd rfl hne
    rcases hs : Location.date? source with fault | fileDate
    · rw [fix_of_error hs hj hsize] at h
      cases h
    obtain ⟨hfits, rfl, rfl⟩ := fitsIn_of_fix hs hj h
    rw [editsOf_eq hs hj, if_pos hfits]
    refine ⟨fun hnil => hne ?_, rfl⟩
    rw [hnil, List.length_nil]
  · rintro ⟨hne, rfl⟩
    obtain ⟨fileDate, j, hs, hj, hfits, hedits⟩ := exists_of_editsOf_ne_nil hne
    rw [hedits] at hne ⊢
    exact ⟨_, fun hzero => hne (List.length_eq_zero_iff.mp hzero), fix_of_fitsIn hs hj hfits⟩

/-- A correction replaces a part of the journal. -/
theorem Journal.exists_partSpan?_of_mem_corrections {x : TextEdit}
    (h : x ∈ j.corrections fileDate) : ∃ part, j.partSpan? part = some x.span := by
  rcases List.mem_append.mp h with h | h
  · obtain ⟨d, expected, hd, -, -, rfl⟩ := mem_dateEdits h
    refine ⟨.date expected, ?_⟩
    show j.frontMatter.date?.map Located.span = _
    rw [hd]
    rfl
  · obtain ⟨⟨previous, e⟩, hlink, h⟩ := List.mem_flatMap.mp h
    obtain ⟨es, es', hentries, -⟩ := mem_chain_iff.mp hlink
    obtain ⟨i, hi, -⟩ := exists_line hentries
    rcases List.mem_append.mp h with h | h
    · obtain ⟨p, -, -, rfl⟩ := mem_startEdits h
      exact ⟨_, partSpan?_start hi p.value⟩
    · obtain ⟨d, a, b, hd, -, -, -, -, rfl⟩ := mem_durationEdits h
      exact ⟨_, partSpan?_duration hi hd 0 ""⟩

/-- What the edits of fixing are: corrections of the journal, which follow one another. -/
theorem editsOf_spec (source : Option String) (rounds : ℕ) (text : String) :
    (editsOf source rounds text).Pairwise (fun x y => x.span.stop ≤ y.span.start) ∧
      ∀ x ∈ editsOf source rounds text, (∃ j part, (Reading.ofText text.toList).journal = some j ∧
        j.partSpan? part = some x.span) ∧ '\r' ∉ x.newText.toList := by
  by_cases hnil : editsOf source rounds text = []
  · rw [hnil]
    exact ⟨List.Pairwise.nil, by simp⟩
  obtain ⟨fileDate, j, -, hj, -, hedits⟩ := exists_of_editsOf_ne_nil hnil
  have horder := Journal.pairwise_corrections (isLaidOut_of_ofText hj) fileDate
  rw [hedits]
  refine ⟨horder.sublist (List.take_sublist _ _), fun x hx => ?_⟩
  have hmem := List.mem_of_mem_take hx
  obtain ⟨part, hpart⟩ := Journal.exists_partSpan?_of_mem_corrections hmem
  exact ⟨⟨j, part, hj, hpart⟩, fun hr => (Journal.isPlain_of_mem_corrections hj hmem _ hr).1 rfl⟩

end Fix

namespace CommandLine

/-! ### Reading a file -/

theorem notMem_go {done s : List Char} (h : '\r' ∉ done) : '\r' ∉ unifyEndings.go done s := by
  fun_induction unifyEndings.go done s with
  | case1 done => simpa using h
  | case2 done r ih => exact ih (by simpa using h)
  | case3 done r _ ih => exact ih (by simpa using h)
  | case4 done c r _ hc ih => exact ih (by simpa using ⟨Ne.symm hc, h⟩)

/-- Whether a character ends no line, wherever it stands. -/
def isInLine (c : Char) : Bool := c != '\r' && c != '\n'

theorem filter_go (done s : List Char) : (unifyEndings.go done s).filter isInLine =
    (done.reverse ++ s).filter isInLine := by
  fun_induction unifyEndings.go done s with
  | case1 done => rw [List.append_nil]
  | case2 done r ih => simpa [isInLine] using ih
  | case3 done r _ ih => simpa [isInLine] using ih
  | case4 done c r _ hc ih => simpa using ih

/-- **A file without a carriage return is read as it is.** -/
theorem unifyEndings_eq_self {text : String} (h : '\r' ∉ text.toList) :
    unifyEndings text = text := by
  unfold unifyEndings
  rw [String.contains_char_eq, decide_eq_false h, if_neg (by decide)]

/-- **A file that was read has no carriage return.** -/
theorem notMem_unifyEndings (text : String) : '\r' ∉ (unifyEndings text).toList := by
  by_cases h : '\r' ∈ text.toList
  · unfold unifyEndings
    rw [String.contains_char_eq, decide_eq_true h, if_pos rfl, String.toList_ofList]
    exact notMem_go List.not_mem_nil
  · rw [unifyEndings_eq_self h]
    exact h

/-- But for line endings a file is read as it is. -/
theorem filter_unifyEndings (text : String) :
    (unifyEndings text).toList.filter isInLine = text.toList.filter isInLine := by
  unfold unifyEndings
  split
  · rw [String.toList_ofList, filter_go]
    rfl
  · rfl

theorem text_content (text : String) :
    (FileState.content text.toUTF8).text = .ok (unifyEndings text) := by
  have hutf8 : String.fromUTF8? text.toUTF8 = some text := by
    unfold String.fromUTF8?
    rw [Option.dite_none_right_eq_some]
    exact ⟨text.isValidUTF8, rfl⟩
  unfold FileState.text
  simp only [hutf8]

/-! ### Writing it -/

/-- The name under which a run knows its file. -/
def Options.name (o : Options) : String := String.ofList o.path.toText

/-- The text of the file after a run. -/
def Outcome.file (outcome : Outcome) (text : String) : String := outcome.rewritten.getD text

/-- The edits that a run makes in a file that reads as `text`. -/
def Options.edits (o : Options) (text : String) : List TextEdit :=
  if o.fix ∧ (parseRules o.rules).isOk then editsOf (some o.name) defaultRounds text else []

theorem rewritten_runText (console : Console) (o : Options) (rules : List Rule)
    (name text : String) : (runText console o rules name text).rewritten =
      (fixStage o name text).toOption.bind Fixed.rewritten := by
  unfold runText
  rcases fixStage o name text with ⟨notes, exit, message⟩ | fixed
  · rfl
  · dsimp only
    split
    · rfl
    · rfl

/-- The stage of fixing decides whether the file is rewritten, whatever the check behind it
finds. -/
theorem rewritten_runText_eq_some_iff {console : Console} {o : Options} {rules : List Rule}
    {name text after : String} :
    (runText console o rules name text).rewritten = some after ↔ o.fix = true ∧
      ∃ applied, applied ≠ 0 ∧
        (TimeJournal.fix text (some name) defaultRounds).2 = .ok (after, applied) := by
  rw [rewritten_runText]
  unfold fixStage
  by_cases hfix : o.fix = true
  swap
  · simp [hfix, Except.toOption]
  rw [if_pos hfix]
  rcases TimeJournal.fix text (some name) defaultRounds with ⟨notes, fault | ⟨fixed, count⟩⟩
  · simp [Except.toOption]
  · by_cases hcount : count = 0
    · simp [hcount, Except.toOption]
    · simp [hfix, hcount, Except.toOption]

variable {console : Console}

/-- A run comes to its stages if it knows the rules, the name of the file can be one and the file
can be read. -/
theorem execute_of_text {o : Options} {rules : List Rule} {state : FileState} {text : String}
    (hrules : parseRules o.rules = .ok rules) (hname : '\x00' ∉ o.name.toList)
    (htext : state.text = .ok text) :
    execute console o state = .ok (runText console o rules o.name text) := by
  have hcontains : o.name.contains '\x00' = false := by
    rw [String.contains_char_eq, decide_eq_false hname]
  unfold execute
  rw [hrules, htext]
  dsimp only
  rw [show String.ofList o.path.toText = o.name from rfl, hcontains]
  rfl

theorem execute_content {o : Options} {rules : List Rule} (hrules : parseRules o.rules = .ok rules)
    (hname : '\x00' ∉ o.name.toList) (text : String) :
    execute console o (.content text.toUTF8) =
      .ok (runText console o rules o.name (unifyEndings text)) :=
  execute_of_text hrules hname (text_content text)

/-- **A run comes to its stages, or it writes nothing** since it does not know the rules or cannot
read the file. -/
theorem execute_cases {o : Options} {state : FileState} {outcome : Outcome}
    (h : execute console o state = .ok outcome) :
    (∃ rules text, parseRules o.rules = .ok rules ∧ '\x00' ∉ o.name.toList ∧
      state.text = .ok text ∧ outcome = runText console o rules o.name text) ∨
    outcome.rewritten = none ∧
      ((∃ fault, parseRules o.rules = .error fault) ∨ ∃ fault, state.text = .error fault) := by
  unfold execute at h
  rcases hrules : parseRules o.rules with fault | rules
  · rw [hrules] at h
    obtain rfl := Except.ok.inj h
    exact Or.inr ⟨rfl, Or.inl ⟨fault, rfl⟩⟩
  rw [hrules] at h
  dsimp only at h
  split_ifs at h with hname
  rcases htext : state.text with fault | text
  · rw [htext] at h
    obtain rfl := Except.ok.inj h
    exact Or.inr ⟨rfl, Or.inr ⟨fault, rfl⟩⟩
  rw [htext] at h
  refine Or.inl ⟨rules, text, rfl, ?_, rfl, (Except.ok.inj h).symm⟩
  rwa [String.contains_char_eq, decide_eq_true_eq] at hname

theorem rewritten_eq_some_iff {o : Options} {text after : String} {outcome : Outcome}
    (h : execute console o (.content text.toUTF8) = .ok outcome) :
    outcome.rewritten = some after ↔
      o.edits (unifyEndings text) ≠ [] ∧ after = String.ofList
        (TextEdit.applyAll 0 (o.edits (unifyEndings text)) (unifyEndings text).toList) := by
  unfold Options.edits
  rcases execute_cases h with
    ⟨rules, s, hrules, -, htext, rfl⟩ | ⟨hnone, ⟨fault, hfault⟩ | ⟨fault, hfault⟩⟩
  · rw [text_content] at htext
    obtain rfl := Except.ok.inj htext
    rw [rewritten_runText_eq_some_iff, fix_eq_ok_iff, hrules]
    by_cases hfix : o.fix = true
    · simp [hfix, Except.isOk, Except.toBool]
    · simp [hfix]
  · simp [hnone, hfault, Except.isOk, Except.toBool]
  · rw [text_content] at hfault
    cases hfault

/-- Edits that put in no carriage return leave none in a text without one. -/
theorem notMem_applyAll {edits : List TextEdit} {s : List Char} (hs : '\r' ∉ s)
    (hedits : ∀ x ∈ edits, '\r' ∉ x.newText.toList) (pos : ℕ) :
    '\r' ∉ TextEdit.applyAll pos edits s := by
  induction edits generalizing pos with
  | nil => exact fun h => hs (List.mem_of_mem_drop h)
  | cons x edits ih =>
    intro h
    rw [TextEdit.applyAll, List.mem_append, List.mem_append] at h
    rcases h with (h | h) | h
    · exact hs (List.mem_of_mem_drop (List.mem_of_mem_take h))
    · exact hedits x List.mem_cons_self h
    · exact ih (fun y hy => hedits y (List.mem_cons_of_mem x hy)) x.span.stop h

/-- What the edits of a run are: corrections of the journal, which follow one another. -/
theorem Options.edits_spec (o : Options) (text : String) :
    (o.edits text).Pairwise (fun x y => x.span.stop ≤ y.span.start) ∧
      ∀ x ∈ o.edits text, (∃ j part, (Reading.ofText text.toList).journal = some j ∧
        j.partSpan? part = some x.span) ∧ '\r' ∉ x.newText.toList := by
  unfold edits
  split_ifs
  · exact editsOf_spec (some o.name) defaultRounds text
  · exact ⟨List.Pairwise.nil, by simp⟩

/-- **Fixing a file in place changes the corrected parts, and every line ending that is no line
feed.** A file is read as it is but for its line endings. The edits of a run follow one another, each
in place of a part of the journal. Without any the file is left alone; otherwise it holds afterwards
what it was read as, with these edits, and no carriage return. So it is what it was but for the edits
if it had no carriage return. -/
theorem execute_in_place {o : Options} {text : String} {outcome : Outcome}
    (h : execute console o (.content text.toUTF8) = .ok outcome) :
    (unifyEndings text).toList.filter isInLine = text.toList.filter isInLine ∧
      (o.edits (unifyEndings text)).Pairwise (fun x y => x.span.stop ≤ y.span.start) ∧
      (∀ x ∈ o.edits (unifyEndings text), ∃ j part,
        (Reading.ofText (unifyEndings text).toList).journal = some j ∧
          j.partSpan? part = some x.span) ∧
      (o.edits (unifyEndings text) = [] → outcome.file text = text) ∧
      (o.edits (unifyEndings text) ≠ [] → '\r' ∉ (outcome.file text).toList ∧
        (outcome.file text).toList =
          TextEdit.applyAll 0 (o.edits (unifyEndings text)) (unifyEndings text).toList) ∧
      ('\r' ∉ text.toList →
        (outcome.file text).toList = TextEdit.applyAll 0 (o.edits text) text.toList) := by
  obtain ⟨horder, hparts⟩ := o.edits_spec (unifyEndings text)
  have hkept : o.edits (unifyEndings text) = [] → outcome.file text = text := by
    intro hnil
    rcases hrewritten : outcome.rewritten with _ | after
    · rw [Outcome.file, hrewritten]
      rfl
    · exact absurd hnil ((rewritten_eq_some_iff h).mp hrewritten).1
  have hfixed : o.edits (unifyEndings text) ≠ [] → (outcome.file text).toList =
      TextEdit.applyAll 0 (o.edits (unifyEndings text)) (unifyEndings text).toList := by
    intro hne
    rw [Outcome.file, (rewritten_eq_some_iff h).mpr ⟨hne, rfl⟩, Option.getD_some,
      String.toList_ofList]
  refine ⟨filter_unifyEndings text, horder, fun x hx => (hparts x hx).1, hkept,
    fun hne => ⟨?_, hfixed hne⟩, fun hno => ?_⟩
  · rw [hfixed hne]
    exact notMem_applyAll (notMem_unifyEndings text) (fun x hx => (hparts x hx).2) 0
  · rw [unifyEndings_eq_self hno] at hkept hfixed
    by_cases hnil : o.edits text = []
    · rw [hkept hnil, hnil, TextEdit.applyAll_nil]
    · exact hfixed hnil

/-- The options that only ask for a file to be fixed. -/
def fixing (file : String) : Options := { Draft.init.options with file, fix := true }

/-- A text with line feeds at the ends of its lines, and two entries to correct. -/
def feedText : String :=
  "---\ndate: 2006-01-02\n---\n- 10:00-11:00 1.50 a\n- 11:15-12:00 0.75 b\n"

/-- The file that is made of that text. -/
def fixedText : String :=
  "---\ndate: 2006-01-02\n---\n- 10:00-11:00 1.00 a\n- 11:00-12:00 1.00 b\n"

/-- A console of which the standard output goes into a file. -/
def redirected : Console := ⟨false, true, false⟩

theorem rewritten_feedText : (runText redirected (fixing "2006-01-02.md") []
    (fixing "2006-01-02.md").name feedText).rewritten = some fixedText := by
  decide +kernel

theorem execute_in_place_feedText : ∃ outcome,
    execute redirected (fixing "2006-01-02.md") (.content feedText.toUTF8) = .ok outcome ∧
    '\r' ∉ feedText.toList ∧ outcome.file feedText = fixedText ∧
    (outcome.file feedText).toList =
      TextEdit.applyAll 0 ((fixing "2006-01-02.md").edits feedText) feedText.toList := by
  have hrun : execute redirected (fixing "2006-01-02.md") (.content feedText.toUTF8) =
      .ok (runText redirected (fixing "2006-01-02.md") [] _ (unifyEndings feedText)) :=
    execute_content rfl (by decide +kernel) feedText
  have hno : '\r' ∉ feedText.toList := by decide +kernel
  refine ⟨_, hrun, hno, ?_, (execute_in_place hrun).2.2.2.2.2 hno⟩
  rw [unifyEndings_eq_self hno, Outcome.file, rewritten_feedText, Option.getD_some]

/-- The same text with a carriage return in front of every line feed. -/
def returnText : String :=
  "---\r\ndate: 2006-01-02\r\n---\r\n- 10:00-11:00 1.50 a\r\n- 11:15-12:00 0.75 b\r\n"

/-- Two edits are made in the file, and all its carriage returns are lost. -/
theorem execute_returnText : ∃ outcome,
    execute redirected (fixing "2006-01-02.md") (.content returnText.toUTF8) = .ok outcome ∧
    outcome.file returnText = fixedText ∧
    '\r' ∈ returnText.toList ∧ '\r' ∉ (outcome.file returnText).toList := by
  have hunified : unifyEndings returnText = feedText := by
    unfold unifyEndings
    rw [String.contains_char_eq]
    decide +kernel
  have hrun : execute redirected (fixing "2006-01-02.md") (.content returnText.toUTF8) =
      .ok (runText redirected (fixing "2006-01-02.md") [] _ (unifyEndings returnText)) :=
    execute_content rfl (by decide +kernel) returnText
  rw [hunified] at hrun
  have hfile : (runText redirected (fixing "2006-01-02.md") [] (fixing "2006-01-02.md").name
      feedText).file returnText = fixedText := by
    rw [Outcome.file, rewritten_feedText, Option.getD_some]
  refine ⟨_, hrun, hfile, by decide +kernel, ?_⟩
  rw [hfile]
  decide +kernel

end CommandLine

end TimeJournal
