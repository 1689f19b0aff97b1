import TimeJournal.Proofs.Journal.Setting
import TimeJournal.Proofs.Lint.Rules

/-! # Findings at other places

The rules look at the values in a journal and at no offset. So a journal that stands at other places
breaks the same rules, at those places.

* `Finding.move`: a finding with its new spans, those of the places that explain it included.
* `declared_move`: the findings in a moved journal. -/

namespace TimeJournal

/-- An issue with the new spans of what it refers to. -/
def Issue.move (m : ℕ →o ℕ) : Issue → Issue
  | .parse fault => .parse (fault.move m)
  | .stopMismatch expected uri lastStop => .stopMismatch expected uri (lastStop.move m)
  | .timeJumped previous uri previousStop => .timeJumped previous uri (previousStop.move m)
  | issue => issue

/-- A finding with its new spans. -/
def Finding.move (m : ℕ →o ℕ) (f : Finding) : Finding := ⟨f.span.move m, f.issue.move m⟩

theorem Finding.map_ofFault_move (m : ℕ →o ℕ) (faults : List ParseFault) :
    (faults.map (ParseFault.move m)).map Finding.ofFault =
      (faults.map Finding.ofFault).map (Finding.move m) := by
  rw [List.map_map, List.map_map]
  rfl

namespace Lint

variable (m : ℕ →o ℕ) (settings : Settings) (date : Option Date)

/-! ### One rule -/

theorem unresolved_move {issue : TimeFault → Issue}
    (h : ∀ fault, (issue fault).move m = issue fault) (t : Located TimeToken) :
    unresolved date issue (t.move m) = (unresolved date issue t).map (Finding.move m) := by
  have hvalue : (t.move m).value = t.value := rfl
  unfold unresolved
  rw [hvalue]
  split
  · rename_i fault _
    rw [List.map_singleton, Finding.move, h]
    rfl
  · rfl

theorem dateMismatch_move (f : FrontMatter) :
    dateMismatch settings (f.move m) = (dateMismatch settings f).map (Finding.move m) := by
  unfold dateMismatch
  rw [FrontMatter.date?_move]
  rcases f.date? with _ | d
  · rfl
  rcases settings.fileDate with _ | expected
  · rfl
  show (if d.value = expected then _ else _) = _
  dsimp only
  split_ifs <;> rfl

theorem missing_move (f : FrontMatter) :
    missing (f.move m) = (missing f).map (Finding.move m) := by
  unfold missing FrontMatter.move
  rw [List.map_map, Option.isNone_map, Option.isNone_map, Option.isNone_map]
  rfl

theorem startMismatch_move (f : FrontMatter) (previous : Option (Located TimeToken)) (e : Entry) :
    startMismatch (f.move m) (previous.map (Located.move m)) (e.move m) =
      (startMismatch f previous e).map (Finding.move m) := by
  unfold startMismatch
  rcases previous with _ | p
  swap
  · rfl
  have hstart : (f.move m).start = f.start.map (Located.move m) := rfl
  rw [hstart]
  rcases f.start with _ | expected
  · rfl
  show (if expected.value = e.start.value then _ else _) = _
  dsimp only
  split_ifs <;> rfl

theorem jumped_move (previous : Option (Located TimeToken)) (e : Entry) :
    jumped settings date (previous.map (Located.move m)) (e.move m) =
      (jumped settings date previous e).map (Finding.move m) := by
  rcases previous with _ | p
  · rfl
  have hstart : (e.move m).start.value = e.start.value := rfl
  have hstop : (p.move m).value = p.value := rfl
  unfold jumped
  dsimp only [Option.map_some]
  rw [hstart, hstop]
  rcases instant? date p.value with _ | a
  · rfl
  rcases instant? date e.start.value with _ | b
  · rfl
  dsimp only
  split_ifs <;> rfl

theorem rangeMismatch_move (e : Entry) :
    rangeMismatch settings date (e.move m) =
      (rangeMismatch settings date e).map (Finding.move m) := by
  have hstart : (e.move m).start.value = e.start.value := rfl
  have hstop : (e.move m).stop.value = e.stop.value := rfl
  unfold rangeMismatch
  rw [Entry.part?_move, hstart, hstop]
  rcases e.duration.part? with _ | d
  · rfl
  rcases instant? date e.start.value with _ | a
  · rfl
  rcases instant? date e.stop.value with _ | b
  · rfl
  have hseconds : (d.move m).seconds = d.seconds := rfl
  dsimp only [Option.map_some]
  rw [hseconds]
  split_ifs <;> rfl

theorem stopMismatch_move (f : FrontMatter) (last : Option (Located TimeToken)) :
    stopMismatch settings date (f.move m) (last.map (Located.move m)) =
      (stopMismatch settings date f last).map (Finding.move m) := by
  have hstop : (f.move m).stop = f.stop.map (Located.move m) := rfl
  unfold stopMismatch
  rw [hstop]
  rcases f.stop with _ | expected
  · rfl
  rcases last with _ | p
  · rfl
  have hexpected : (expected.move m).value = expected.value := rfl
  have hlast : (p.move m).value = p.value := rfl
  dsimp only [Option.map_some]
  rw [hexpected, hlast]
  rcases instant? date expected.value with _ | a
  · rfl
  rcases instant? date p.value with _ | b
  · rfl
  dsimp only
  split_ifs <;> rfl

/-! ### All rules -/

theorem ofFrontMatter_move (f : FrontMatter) :
    ofFrontMatter settings date (f.move m) =
      (ofFrontMatter settings date f).map (Finding.move m) := by
  have htime : ∀ (issue : TimeFault → Issue) (t : Option (Located TimeToken)),
      (∀ fault, (issue fault).move m = issue fault) →
      (t.map (Located.move m)).toList.flatMap (unresolved date issue) =
        (t.toList.flatMap (unresolved date issue)).map (Finding.move m) := by
    rintro issue (_ | t) h
    · rfl
    · simp only [Option.map_some, Option.toList_some, List.flatMap_singleton,
        unresolved_move m date h]
  have hstart := htime .invalidStart f.start fun _ => rfl
  have hstop := htime .invalidStop f.stop fun _ => rfl
  unfold ofFrontMatter
  rw [dateMismatch_move, missing_move, List.map_append, List.map_append, List.map_append, ← hstart,
    ← hstop]
  rfl

theorem ofEntry_move (f : FrontMatter) (previous : Option (Located TimeToken)) (e : Entry) :
    ofEntry settings date (f.move m) (previous.map (Located.move m)) (e.move m) =
      (ofEntry settings date f previous e).map (Finding.move m) := by
  have hstart : (e.move m).start = e.start.move m := rfl
  have hstop : (e.move m).stop = e.stop.move m := rfl
  unfold ofEntry
  rw [startMismatch_move, jumped_move, rangeMismatch_move, hstart, hstop,
    unresolved_move m date fun _ => rfl, unresolved_move m date fun _ => rfl]
  simp only [List.map_append]

theorem reference_move (j : Journal) : reference (j.move m) = reference j := by
  show (j.frontMatter.move m).date?.map _ = _
  rw [FrontMatter.date?_move, Option.map_map]
  rfl

/-- **A moved journal breaks the same rules**, at its new places. -/
theorem declared_move (j : Journal) :
    declared settings (j.move m) = (declared settings j).map (Finding.move m) := by
  have hlast : (j.move m).entries.getLast?.map Entry.stop =
      (j.entries.getLast?.map Entry.stop).map (Located.move m) := by
    rw [Journal.entries_move, List.getLast?_map, Option.map_map, Option.map_map]
    rfl
  have hfront : (j.move m).frontMatter = j.frontMatter.move m := rfl
  unfold declared
  rw [reference_move, Journal.chain_move, hlast, hfront, ofFrontMatter_move, stopMismatch_move,
    List.flatMap_map, List.map_append, List.map_append, List.map_flatMap]
  simp only [ofEntry_move]

end Lint

end TimeJournal
