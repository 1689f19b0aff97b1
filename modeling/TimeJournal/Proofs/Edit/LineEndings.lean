import TimeJournal.Proofs.Edit.Convergence
import TimeJournal.Proofs.Edit.EntryEdit
import TimeJournal.Proofs.Journal.LineEndings

/-! # Fixing a text whatever its line endings

No correction puts a line feed into a text. So a text that is written with other line endings, or
with a byte order mark, is fixed as the text is, and stays written so.

* `Journal.isPlain_of_mem_corrections`: what is put into a text ends no line.
* `Writing.applyAll_write`: edits at their new places, of the text that is written.
* `Writing.fix_write`: fixing the text that is written comes to writing the text that was fixed. -/

namespace TimeJournal

open Lint

/-! ### What corrections put into a text -/

/-- **A correction ends no line**, if the journal was read from a text. -/
theorem Journal.isPlain_of_mem_corrections {s : List Char} {j : Journal}
    (hj : (Reading.ofText s).journal = some j) {fileDate : Option Date} {x : TextEdit}
    (hx : x ∈ j.corrections fileDate) : ∀ c ∈ x.newText.toList, c ≠ '\r' ∧ c ≠ '\n' := by
  unfold corrections at hx
  rcases List.mem_append.mp hx with hx | hx
  · obtain ⟨d, expected, -, -, -, rfl⟩ := mem_dateEdits hx
    exact fun c hc => isPlain_of_isSpace (Date.isSpace_toString hc)
  obtain ⟨⟨previous, e⟩, hlink, hx⟩ := List.mem_flatMap.mp hx
  rcases List.mem_append.mp hx with hx | hx
  · obtain ⟨p, rfl, -, rfl⟩ := mem_startEdits hx
    obtain ⟨es, es', hentries, hp⟩ := mem_chain_iff.mp hlink
    exact (isTime_lastStop_of_ofText hj hentries hp.symm).isPlain
  · obtain ⟨d, a, b, -, -, -, -, -, rfl⟩ := mem_durationEdits hx
    exact isPlain_of_isShaped (Hours.isShaped_of_isDecimal (Hours.isDecimal_render _))

namespace Writing

variable (w : Writing)

/-! ### Edits of the text that is written -/

section Edits

variable {s : List Char} {es : List TextEdit}

theorem applyAll_offset (hes : ∀ x ∈ es, '\n' ∉ x.newText.toList) (pos : ℕ) :
    TextEdit.applyAll (w.offset s pos) (es.map (TextEdit.shift (w.offset s))) (w.write s) =
      (TextEdit.applyAll pos es s).flatMap w.char := by
  induction es generalizing pos with
  | nil => exact drop_write pos
  | cons x es ih =>
    have hrest := ih (fun y hy => hes y (List.mem_cons_of_mem x hy)) x.span.stop
    have hnew := w.flatMap_char_of_notMem (hes x List.mem_cons_self)
    rw [List.map_cons, TextEdit.applyAll, TextEdit.applyAll, List.flatMap_append,
      List.flatMap_append, hnew, ← slice_write, ← hrest]
    rfl

/-- **The edits of the text that is written** give what the edits of the text give, as it is
written. -/
theorem applyAll_write (hes : ∀ x ∈ es, '\n' ∉ x.newText.toList) :
    TextEdit.applyAll 0 (es.map (TextEdit.shift (w.offset s))) (w.write s) =
      w.write (TextEdit.applyAll 0 es s) := by
  have hplace : ∀ y ∈ es.map (TextEdit.shift (w.offset s)), 0 + w.marked.toNat ≤ y.span.start := by
    intro y hy
    obtain ⟨x, -, rfl⟩ := List.mem_map.mp hy
    rw [Nat.zero_add, ← offset_zero (w := w) (s := s)]
    exact (w.offset s).monotone (Nat.zero_le x.span.start)
  have hmark : (w.write s).take w.marked.toNat = w.mark := by
    rw [← length_mark, write, List.take_left]
  have hback := w.applyAll_offset (s := s) hes 0
  rw [offset_zero] at hback
  rw [TextEdit.applyAll_drop hplace, List.drop_zero, hmark, Nat.zero_add, hback]
  rfl

end Edits

/-! ### Rounds -/

/-- A text as it is written. -/
def text (t : String) : String := String.ofList (w.write t.toList)

theorem toList_text (t : String) : (w.text t).toList = w.write t.toList := String.toList_ofList

theorem text_ofList (s : List Char) : w.text (String.ofList s) = String.ofList (w.write s) := by
  rw [text, String.toList_ofList]

theorem length_le_length_text (t : String) : t.length ≤ (w.text t).length := by
  rw [← String.length_toList, ← String.length_toList, toList_text]
  exact w.length_le_length_write t.toList

end Writing

section Fix

variable {source : Option String} {fileDate : Option Date} {text : String} {j : Journal}

/-- No round makes no edit. -/
theorem fix_zero : (fix text source 0).2 = .ok (text, 0) := rfl

/-- A text without a journal is left alone. -/
theorem fix_of_none (hj : (Reading.ofText text.toList).journal = none)
    (hsize : text.length ≤ Journal.defaultLimit) (rounds : ℕ) :
    (fix text source rounds).2 = .ok (text, 0) := by
  rcases rounds with _ | n
  · rfl
  have hround : fixRound source text =
      (Checked.notes ⟨Reading.ofText text.toList, []⟩, .ok none) := by
    have hjournal : Checked.journal ⟨Reading.ofText text.toList, []⟩ = none := hj
    unfold fixRound
    rw [check_of_none hj hsize]
    dsimp only
    rw [hjournal]
  unfold fix fixLoop
  rw [hround]

/-- Without a host no round comes to its end. -/
theorem fix_of_error {fault : Location.UriFault} (hs : Location.date? source = .error fault)
    (hj : (Reading.ofText text.toList).journal = some j)
    (hsize : text.length ≤ Journal.defaultLimit) (n : ℕ) :
    (fix text source (n + 1)).2 = .error (.check (.uri fault)) := by
  have hround : fixRound source text = ([], .error (.check (.uri fault))) := by
    unfold fixRound
    rw [check_of_error hs hj hsize]
  unfold fix fixLoop
  rw [hround]

end Fix

namespace Writing

variable (w : Writing) {source : Option String} {fileDate : Option Date} {t : String} {j : Journal}

/-- The journal of the text that is written. -/
theorem journal_text (h : IsBare t.toList) : (Reading.ofText (w.text t).toList).journal =
    (Reading.ofText t.toList).journal.map (w.journal t.toList) := by
  rw [toList_text]
  exact (w.reading_write h).1

/-- The corrections of a text that is written make the same changes in it as in the text. -/
theorem applyAll_corrections (hj : (Reading.ofText t.toList).journal = some j) (k : ℕ) :
    TextEdit.applyAll 0 (((w.journal t.toList j).corrections fileDate).take k) (w.text t).toList =
      w.write (TextEdit.applyAll 0 ((j.corrections fileDate).take k) t.toList) := by
  have hmove : (w.journal t.toList j).corrections fileDate =
      (j.corrections fileDate).map (TextEdit.shift (w.offset t.toList)) :=
    Journal.corrections_move (w.offset t.toList) fileDate j
  have hfeed : ∀ x ∈ (j.corrections fileDate).take k, '\n' ∉ x.newText.toList := by
    intro x hx hmem
    exact (Journal.isPlain_of_mem_corrections hj (List.mem_of_mem_take hx) _ hmem).2 rfl
  rw [hmove, ← List.map_take, toList_text, w.applyAll_write hfeed]

/-- A text with a journal is fixed in the same rounds. -/
theorem fix_write_of_journal (h : IsBare t.toList) (hs : Location.date? source = .ok fileDate)
    (hj : (Reading.ofText t.toList).journal = some j) {rounds : ℕ}
    (hsize : ∀ n < rounds, ∀ after applied, (fix (w.text t) source n).2 = .ok (after, applied) →
      after.length ≤ Journal.defaultLimit) :
    ∃ after applied, (fix t source rounds).2 = .ok (after, applied) ∧
      (fix (w.text t) source rounds).2 = .ok (w.text after, applied) := by
  have hj' : (Reading.ofText (w.text t).toList).journal = some (w.journal t.toList j) := by
    rw [w.journal_text h, hj]
    rfl
  have hfits' := length_applyAll_le hs hj' hsize
  have hfits : ∀ n < rounds, (TextEdit.applyAll 0 ((j.corrections fileDate).take n)
      t.toList).length ≤ Journal.defaultLimit := by
    intro n hn
    have hlength := hfits' n hn
    rw [w.applyAll_corrections hj] at hlength
    exact (w.length_le_length_write _).trans hlength
  obtain ⟨notes, hloop⟩ := exists_fixLoop hs rounds (f := ⟨t, 0, []⟩) hj hfits
  obtain ⟨notes', hloop'⟩ := exists_fixLoop hs rounds (f := ⟨w.text t, 0, []⟩) hj' hfits'
  have hcount : ((w.journal t.toList j).corrections fileDate).length =
      (j.corrections fileDate).length := by
    show ((j.move (w.offset t.toList)).corrections fileDate).length = _
    rw [Journal.corrections_move, List.length_map]
  have hfix' := fix_of_fixLoop hloop'
  dsimp only at hfix'
  rw [w.applyAll_corrections hj, hcount, ← text_ofList] at hfix'
  exact ⟨_, _, fix_of_fixLoop hloop, hfix'⟩

/-- **Fixing the text that is written** comes to writing the text that was fixed, with as many
edits. Where the text cannot be fixed, for want of a host, the other one cannot be fixed either. -/
theorem fix_write (h : IsBare t.toList) {rounds : ℕ}
    (hsize : ∀ n < rounds, ∀ after applied, (fix (w.text t) source n).2 = .ok (after, applied) →
      after.length ≤ Journal.defaultLimit) :
    (fix (w.text t) source rounds).2 =
      (fix t source rounds).2.map fun fixed => (w.text fixed.1, fixed.2) := by
  rcases rounds with _ | n
  · rfl
  have hlength' : (w.text t).length ≤ Journal.defaultLimit := hsize 0 n.succ_pos _ _ fix_zero
  have hlength := (w.length_le_length_text t).trans hlength'
  have hjournal := w.journal_text h
  rcases hj : (Reading.ofText t.toList).journal with _ | j
  · rw [hj] at hjournal
    rw [fix_of_none hj hlength, fix_of_none hjournal hlength']
    rfl
  rw [hj] at hjournal
  rcases hs : Location.date? source with fault | fileDate
  · rw [fix_of_error hs hj hlength, fix_of_error hs hjournal hlength']
    rfl
  · obtain ⟨after, applied, hfix, hfix'⟩ := w.fix_write_of_journal h hs hj hsize
    rw [hfix, hfix']
    rfl

/-- Fixing a text comes to an end if no text on the way is too long when it is written. -/
theorem exists_fix (h : IsBare t.toList) (hs : Location.date? source = .ok fileDate) {rounds : ℕ}
    (hsize : ∀ n < rounds, ∀ after applied, (fix (w.text t) source n).2 = .ok (after, applied) →
      after.length ≤ Journal.defaultLimit) :
    ∃ after applied, (fix t source rounds).2 = .ok (after, applied) := by
  rcases rounds with _ | n
  · exact ⟨_, _, fix_zero⟩
  rcases hj : (Reading.ofText t.toList).journal with _ | j
  · have hlength' : (w.text t).length ≤ Journal.defaultLimit := hsize 0 n.succ_pos _ _ fix_zero
    exact ⟨_, _, fix_of_none hj ((w.length_le_length_text t).trans hlength') _⟩
  · obtain ⟨after, applied, hfix, -⟩ := w.fix_write_of_journal h hs hj hsize
    exact ⟨after, applied, hfix⟩

end Writing

end TimeJournal
