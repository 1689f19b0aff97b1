import TimeJournal.Proofs.Journal.Recovery
import TimeJournal.Proofs.Lint.Rules

/-! # When a check comes to an end

A check of a text that is short enough gives its findings, with one exception: the text has a
journal, and the document is known by a URI in whose authority the brackets do not enclose a host or
a character hides a delimiter. Nothing in the text itself keeps it from being checked.

* `Location.HasBadHost`: the exception; `Location.date?_eq_error_iff`: it is when the file name of a
  document cannot be looked at for a date.
* `check_completes`: every step of a check comes to its end, but for that one. -/

namespace TimeJournal

/-! ### Sources -/

namespace Location

/-- The authority of a URI reference. -/
def Uri.authorityOf (s : List Char) : List Char :=
  (authority (scheme ((s.dropWhile isControlOrSpace).filter fun c => !isIgnored c)).2).1

/-- What keeps a text from being an authority: its brackets do not enclose a host, or one of its
characters has a delimiter in its normalization. -/
inductive Uri.IsBadAuthority (a : List Char) : UriFault → Prop
  | bracket {fault : UriFault} (hbrackets : checkBrackets a = .error fault) : IsBadAuthority a fault
  | delimiter {c : Char} (hbrackets : checkBrackets a = .ok ()) (hmem : c ∈ a)
      (hhides : c.toNat ∈ delimiterLike) : IsBadAuthority a (.hiddenDelimiter a)

/-- The document is known by a URI with a bad authority. -/
def HasBadHost (source : Option String) (fault : UriFault) : Prop :=
  ∃ s, source = some s ∧ isUri s.toList = true ∧
    Uri.IsBadAuthority (Uri.authorityOf s.toList) fault

theorem Uri.hidesDelimiter_iff {c : Char} : hidesDelimiter c = true ↔ c.toNat ∈ delimiterLike :=
  List.contains_iff_mem

theorem Uri.checkAuthority_eq_error_iff {a : List Char} {fault : UriFault} :
    checkAuthority a = .error fault ↔ IsBadAuthority a fault := by
  unfold checkAuthority
  rcases hbrackets : checkBrackets a with f | ok
  · dsimp only
    constructor
    · intro h
      exact .bracket (hbrackets.trans (by rw [Except.error.inj h]))
    · intro h
      cases h with
      | bracket h => exact hbrackets.symm.trans h
      | delimiter h => rw [hbrackets] at h; cases h
  · dsimp only
    constructor
    · intro h
      split_ifs at h with hany
      obtain ⟨c, hmem, hhides⟩ := List.any_eq_true.mp hany
      obtain rfl := Except.error.inj h
      exact .delimiter hbrackets hmem (hidesDelimiter_iff.mp hhides)
    · intro h
      cases h with
      | bracket h => rw [hbrackets] at h; cases h
      | delimiter _ hmem hhides =>
        rw [if_pos (List.any_eq_true.mpr ⟨_, hmem, hidesDelimiter_iff.mpr hhides⟩)]

theorem Uri.path?_eq_error_iff {s : List Char} {fault : UriFault} :
    path? s = .error fault ↔ IsBadAuthority (authorityOf s) fault := by
  rw [← checkAuthority_eq_error_iff]
  unfold path? authorityOf
  dsimp only
  rcases checkAuthority _ with f | ok
  · dsimp only
    rw [Except.error.injEq, Except.error.injEq]
  · refine iff_of_false ?_ nofun
    dsimp only
    split
    · exact nofun
    · exact nofun

/-- **The date in a file name is only missed for a bad host.** -/
theorem date?_eq_error_iff {source : Option String} {fault : UriFault} :
    date? source = .error fault ↔ HasBadHost source fault := by
  rcases source with _ | s
  · simp [date?, HasBadHost]
  unfold date? HasBadHost
  by_cases huri : isUri s.toList = true
  · simp only [Option.some.injEq, exists_eq_left', huri, true_and, if_true]
    rw [← Uri.path?_eq_error_iff]
    rcases Uri.path? s.toList with f | path
    · simp
    · simp
  · simp [huri]

example : date? (some "http://ex\u2100mple/2024-01-02.md") =
    .error (.hiddenDelimiter ['e', 'x', '\u2100', 'm', 'p', 'l', 'e']) := by decide +kernel

end Location

/-! ### Checks -/

section Check

open Lint

variable {source : Option String} {fileDate : Option Date} {text : String} {j : Journal}

/-- A text without a journal has no findings but its faults. -/
theorem check_of_none (hj : (Reading.ofText text.toList).journal = none)
    (hsize : text.length ≤ Journal.defaultLimit) :
    check source text = .ok ⟨Reading.ofText text.toList, []⟩ := by
  unfold check
  simp only [Journal.read_of_le (Or.inr hsize), hj]

/-- Under a name with a host a journal is checked against the rules. -/
theorem lint_of_date (hs : Location.date? source = .ok fileDate) (tolerance : ℤ) (j : Journal) :
    lint source tolerance j = .ok (declared ⟨source.getD "", fileDate, tolerance⟩ j) := by
  unfold lint Settings.ofSource
  simp only [hs, findings_eq_declared]

/-- A check of a text that has a journal and is not too long lists what the rules declare. -/
theorem check_eq (hs : Location.date? source = .ok fileDate)
    (hj : (Reading.ofText text.toList).journal = some j)
    (hsize : text.length ≤ Journal.defaultLimit) :
    check source text = .ok ⟨Reading.ofText text.toList,
      declared ⟨source.getD "", fileDate, defaultTolerance⟩ j⟩ := by
  unfold check
  simp only [Journal.read_of_le (Or.inr hsize), hj, lint_of_date hs]

/-- A text that is too long is not checked. -/
theorem check_of_lt (h : Journal.defaultLimit < text.length) :
    check source text = .error (.size ⟨text.length, Journal.defaultLimit⟩) := by
  unfold check Journal.read
  rw [if_pos ⟨by decide, h⟩]

/-- A text that is checked is short enough. -/
theorem length_le_of_check {checked : Checked} (h : check source text = .ok checked) :
    text.length ≤ Journal.defaultLimit := by
  by_contra hlt
  rw [check_of_lt (not_le.mp hlt)] at h
  cases h

/-- Without a host the journal of a text cannot be checked. -/
theorem check_of_error {fault : Location.UriFault} (hs : Location.date? source = .error fault)
    (hj : (Reading.ofText text.toList).journal = some j)
    (hsize : text.length ≤ Journal.defaultLimit) : check source text = .error (.uri fault) := by
  unfold check lint Settings.ofSource
  simp only [Journal.read_of_le (Or.inr hsize), hj, hs]

/-- If a text that has a journal is checked, the check lists what the rules declare. -/
theorem exists_of_check {checked : Checked} (h : check source text = .ok checked)
    (hj : (Reading.ofText text.toList).journal = some j) :
    ∃ fileDate, Location.date? source = .ok fileDate ∧ checked = ⟨Reading.ofText text.toList,
      declared ⟨source.getD "", fileDate, defaultTolerance⟩ j⟩ := by
  have hsize := length_le_of_check h
  rcases hs : Location.date? source with fault | fileDate
  · rw [check_of_error hs hj hsize] at h
    cases h
  · rw [check_eq hs hj hsize] at h
    exact ⟨fileDate, rfl, (Except.ok.inj h).symm⟩

/-- **A bad host is all that keeps a journal from being checked.** -/
theorem check_eq_error_iff (hsize : text.length ≤ Journal.defaultLimit) {fault : CheckFault} :
    check source text = .error fault ↔ (Reading.ofText text.toList).journal.isSome = true ∧
      ∃ f, Location.HasBadHost source f ∧ fault = .uri f := by
  rcases hj : (Reading.ofText text.toList).journal with _ | j
  · rw [check_of_none hj hsize]
    exact iff_of_false nofun nofun
  rcases hs : Location.date? source with f | fileDate
  · rw [check_of_error hs hj hsize]
    constructor
    · intro h
      exact ⟨rfl, f, Location.date?_eq_error_iff.mp hs, (Except.error.inj h).symm⟩
    · rintro ⟨-, g, hbad, rfl⟩
      rw [← Location.date?_eq_error_iff, hs] at hbad
      rw [Except.error.inj hbad]
  · rw [check_eq hs hj hsize]
    refine iff_of_false nofun ?_
    rintro ⟨-, g, hbad, -⟩
    rw [← Location.date?_eq_error_iff, hs] at hbad
    cases hbad

end Check

/-- **A check comes to its end** for every text that is short enough, unless the text has a journal
and the document is known by a URI with a bad host. The productions come through the text, and the
traversal of the journal refuses nothing. -/
theorem check_completes (source : Option String) (text : String)
    (h : text.length ≤ Journal.defaultLimit) :
    ∃ (reading : Reading) (marked : Bool),
      Journal.read text Journal.defaultLimit = .ok reading ∧
      reading.IsProduced text.toList marked.toNat ∧
      (∀ fault, check source text = .error fault ↔ reading.journal.isSome = true ∧
        ∃ f, Location.HasBadHost source f ∧ fault = .uri f) ∧
      (reading.journal = none → check source text = .ok ⟨reading, []⟩) ∧
      ∀ j, reading.journal = some j → ∀ fileDate, Location.date? source = .ok fileDate →
        ∃ s, j.walk (Lint.visitor ⟨source.getD "", fileDate, Lint.defaultTolerance⟩)
            Lint.State.init = .ok () s ∧
          check source text = .ok ⟨reading, s.findings⟩ := by
  obtain ⟨marked, -, -, hproduced⟩ := Reading.accountsFor_ofText text.toList
  refine ⟨_, marked, Journal.read_of_le (Or.inr h), hproduced, fun fault => check_eq_error_iff h,
    fun hj => check_of_none hj h, fun j hj fileDate hs => ?_⟩
  obtain ⟨s, hruns, hfound⟩ :=
    Lint.exists_runs ⟨source.getD "", fileDate, Lint.defaultTolerance⟩ j
  refine ⟨s, hruns, ?_⟩
  rw [hfound]
  exact check_eq hs hj h

/-- A text with a date. -/
def datedText : String := "---\ndate: 2024-01-03\n---\n"

theorem check_completes_datedText : ∃ reading s,
    Location.date? (some "file:///2024-01-04.md") =
      .ok (some ⟨2024, 1, 4, by decide, by decide, by decide⟩) ∧
    check (some "file:///2024-01-04.md") datedText = .ok ⟨reading, Lint.State.findings s⟩ ∧
    (Lint.State.findings s).map Finding.rule = [.dateMismatch, .missingStart, .missingStop] := by
  have hsize : datedText.length ≤ Journal.defaultLimit := by decide +kernel
  have hdate : Location.date? (some "file:///2024-01-04.md") =
      .ok (some ⟨2024, 1, 4, by decide, by decide, by decide⟩) := by decide +kernel
  obtain ⟨reading, -, hread, -, -, -, hok⟩ :=
    check_completes (some "file:///2024-01-04.md") datedText hsize
  have hreading := Except.ok.inj (hread.symm.trans (Journal.read_of_le (Or.inr hsize)))
  obtain ⟨j, hj⟩ : ∃ j, reading.journal = some j := by
    rw [hreading, ← Option.isSome_iff_exists]
    decide +kernel
  obtain ⟨s, -, hcheck⟩ := hok j hj _ hdate
  refine ⟨reading, s, hdate, hcheck, ?_⟩
  have hrules : (check (some "file:///2024-01-04.md") datedText).toOption.map
      (fun checked => checked.linted.map Finding.rule) =
      some [.dateMismatch, .missingStart, .missingStop] := by decide +kernel
  rw [hcheck] at hrules
  exact Option.some.inj hrules

/-- A URI with an opening bracket only keeps a journal from being checked. -/
theorem check_openBracket : Location.date? (some "http://[/notes.md") = .error .misplacedBracket ∧
    datedText.length ≤ Journal.defaultLimit ∧
    check (some "http://[/notes.md") datedText = .error (.uri .misplacedBracket) := by
  have hdate : Location.date? (some "http://[/notes.md") = .error .misplacedBracket := by
    decide +kernel
  have hsize : datedText.length ≤ Journal.defaultLimit := by decide +kernel
  refine ⟨hdate, hsize, ?_⟩
  rw [check_eq_error_iff hsize]
  refine ⟨by decide +kernel, _, Location.date?_eq_error_iff.mp hdate, rfl⟩

end TimeJournal
