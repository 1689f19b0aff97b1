import Mathlib.Data.List.Infix
import Mathlib.Data.List.TakeWhile
import TimeJournal.Location.Date
import TimeJournal.Proofs.Calendar.Written
import TimeJournal.Proofs.Text.Utf8

/-! # Paths in URIs

A file is known by its path on a command line, and by a URI in an editor. The URI writes the path
behind `file://`; letters, digits and a few marks may stand in it as they are, and every character may
be written as the escapes of its bytes in UTF-8 (`Uri.Writes`). The date in the file name is the same
in both.

* `Uri.percentDecode_of_writes`: the path comes back from what is written for it.
* `Uri.path?_of_writes`: no part of what is written is taken for a host, a query or a fragment.
* `dateOfPath_eq_some_iff`: which date a path has.
* `date?_fileUri`: a path and its URIs have the same date. -/

namespace TimeJournal.Location

open Text

namespace Uri

/-! ### Writing a path -/

/-- Whether a character may stand in the path of a URI as it is. -/
def isPathChar (c : Char) : Bool :=
  c.isAlphanum || c == '/' || c == '_' || c == '.' || c == '-' || c == '~'

/-- Bytes as escapes: for each one a percent sign and two hexadecimal digits, small or large. -/
inductive Escapes : List UInt8 → List Char → Prop
  | nil : Escapes [] []
  | cons {b : UInt8} {bytes : List UInt8} {high low : ℕ} {x y : Char} {s : List Char}
      (hhigh : hexValue? x = some high) (hlow : hexValue? y = some low)
      (hbyte : b = (16 * high + low).toUInt8) (hrest : Escapes bytes s) :
      Escapes (b :: bytes) ('%' :: x :: y :: s)

/-- What may be written for a path: a character as it is where that is allowed, or the escapes of its
bytes. -/
inductive Writes : List Char → List Char → Prop
  | nil : Writes [] []
  | plain {c : Char} {p e : List Char} (hc : isPathChar c = true) (hrest : Writes p e) :
      Writes (c :: p) (c :: e)
  | escaped {c : Char} {p s e : List Char} (hc : Escapes (String.utf8EncodeChar c) s)
      (hrest : Writes p e) : Writes (c :: p) (s ++ e)

variable {p e : List Char}

theorem isPathChar_of_hexValue? {c : Char} {n : ℕ} (h : hexValue? c = some n) :
    isPathChar c = true := by
  suffices hall : c.isAlphanum = true by
    unfold isPathChar
    rw [hall]
    rfl
  unfold hexValue? at h
  unfold Char.isAlphanum Char.isAlpha Char.isUpper Char.isLower
  simp only [Bool.or_eq_true, Bool.and_eq_true, decide_eq_true_eq]
  split_ifs at h with hdigit hsmall hlarge
  · exact Or.inr hdigit
  · exact Or.inl (Or.inr ⟨hsmall.1, UInt32.le_trans hsmall.2 (by decide)⟩)
  · exact Or.inl (Or.inl ⟨hlarge.1, UInt32.le_trans hlarge.2 (by decide)⟩)

/-- What is written for a path holds percent signs besides the characters that may stand there. -/
theorem Escapes.isPathChar_or_percent {bytes : List UInt8} {s : List Char} (h : Escapes bytes s) :
    ∀ c ∈ s, isPathChar c = true ∨ c = '%' := by
  induction h with
  | nil => exact nofun
  | cons hhigh hlow _ _ ih =>
    intro c hc
    rcases List.mem_cons.mp hc with rfl | hc
    · exact Or.inr rfl
    rcases List.mem_cons.mp hc with rfl | hc
    · exact Or.inl (isPathChar_of_hexValue? hhigh)
    rcases List.mem_cons.mp hc with rfl | hc
    · exact Or.inl (isPathChar_of_hexValue? hlow)
    · exact ih c hc

theorem Writes.isPathChar_or_percent (h : Writes p e) :
    ∀ c ∈ e, isPathChar c = true ∨ c = '%' := by
  induction h with
  | nil => exact nofun
  | plain hc _ ih =>
    intro d hd
    rcases List.mem_cons.mp hd with rfl | hd
    · exact Or.inl hc
    · exact ih d hd
  | escaped hc _ ih =>
    intro d hd
    rcases List.mem_append.mp hd with hd | hd
    · exact hc.isPathChar_or_percent d hd
    · exact ih d hd

/-- A character that may stand in a path is one of ASCII. -/
theorem toNat_lt_of_isPathChar {c : Char} (h : isPathChar c = true ∨ c = '%') : c.toNat < 0x80 := by
  rcases h with h | rfl
  swap
  · decide
  have hbound : c.val ≤ '~'.val := by
    unfold isPathChar Char.isAlphanum Char.isAlpha Char.isUpper Char.isLower Char.isDigit at h
    simp only [Bool.or_eq_true, Bool.and_eq_true, decide_eq_true_eq, beq_iff_eq] at h
    rcases h with ((((((⟨-, h⟩ | ⟨-, h⟩) | ⟨-, h⟩) | rfl) | rfl) | rfl) | rfl) | rfl
    · exact UInt32.le_trans h (by decide)
    · exact UInt32.le_trans h (by decide)
    · exact UInt32.le_trans h (by decide)
    all_goals decide
  exact Nat.lt_of_le_of_lt (UInt32.le_iff_toNat_le.mp hbound) (by decide)

/-! ### Reading it back -/

theorem unescape_cons {c : Char} (hc : c ≠ '%') (e : List Char) :
    unescape (c :: e) = c.toNat.toUInt8 :: unescape e := by
  rw [unescape.eq_def]
  split
  · rename_i heq
    cases heq
  · rename_i heq
    exact absurd (List.cons.inj heq).1 hc
  · rename_i heq
    rw [(List.cons.inj heq).1, (List.cons.inj heq).2]

/-- Escapes give their bytes back. -/
theorem Escapes.unescape_append {bytes : List UInt8} {s : List Char} (h : Escapes bytes s)
    (more : List Char) : unescape (s ++ more) = bytes ++ unescape more := by
  induction h with
  | nil => rfl
  | cons hhigh hlow hbyte _ ih =>
    rw [List.cons_append, List.cons_append, List.cons_append, unescape, hhigh, hlow]
    dsimp only
    rw [ih, hbyte]
    rfl

theorem Writes.unescape_eq (h : Writes p e) : unescape e = p.flatMap Utf8.encode := by
  induction h with
  | nil => rfl
  | @plain c p e hc _ ih =>
    have hlt := toNat_lt_of_isPathChar (Or.inl hc)
    have hne : c ≠ '%' := by
      rintro rfl
      revert hc
      decide
    have hencode : Utf8.encode c = [c.toNat.toUInt8] := by
      unfold Utf8.encode
      dsimp only
      rw [if_pos hlt]
    rw [unescape_cons hne, ih, List.flatMap_cons, hencode]
    rfl
  | escaped hc _ ih =>
    rw [hc.unescape_append, ih, List.flatMap_cons, Utf8.encode_eq]

theorem percentDecode_go_ascii {s : List Char} (h : ∀ c ∈ s, c.toNat < 0x80) (run : List Char) :
    percentDecode.go run s = Utf8.decodeLossy (unescape (run.reverse ++ s)) := by
  induction s generalizing run with
  | nil => rw [percentDecode.go, List.append_nil]
  | cons c s ih =>
    rw [percentDecode.go, if_pos (h c List.mem_cons_self),
      ih (fun d hd => h d (List.mem_cons_of_mem c hd)), List.reverse_cons, List.append_assoc]
    rfl

/-- **A path comes back from what is written for it.** -/
theorem Writes.percentDecode_eq (h : Writes p e) : percentDecode e = p := by
  have hascii : ∀ c ∈ e, c.toNat < 0x80 := fun c hc =>
    toNat_lt_of_isPathChar (h.isPathChar_or_percent c hc)
  unfold percentDecode
  rw [percentDecode_go_ascii hascii, List.reverse_nil, List.nil_append, h.unescape_eq,
    Utf8.decodeLossy_flatMap_encode]

/-! ### The path of the URI -/

/-- The URI of a file. -/
def ofFile (e : List Char) : List Char := ['f', 'i', 'l', 'e', ':', '/', '/'] ++ e

/-- **What is written for an absolute path is the path of the URI**: no part of it is taken for a host,
a query or a fragment. -/
theorem Writes.path?_ofFile (h : Writes p e) (hroot : e.head? = some '/') :
    path? (ofFile e) = .ok e := by
  obtain ⟨e, rfl⟩ := List.head?_eq_some_iff.mp hroot
  have hkept : ∀ d : Char, isPathChar d = false → d ≠ '%' → ∀ c ∈ '/' :: e, c ≠ d := by
    intro d hd hne c hc hcd
    rw [hcd] at hc
    rcases h.isPathChar_or_percent d hc with h | h
    · rw [hd] at h
      cases h
    · exact hne h
  have hclean : ((ofFile ('/' :: e)).dropWhile isControlOrSpace).filter (fun c => !isIgnored c) =
      ofFile ('/' :: e) := by
    have hall : ∀ c ∈ '/' :: e, (!isIgnored c) = true := by
      intro c hc
      unfold isIgnored
      simp [hkept '\t' (by decide) (by decide) c hc, hkept '\r' (by decide) (by decide) c hc,
        hkept '\n' (by decide) (by decide) c hc]
    have hdrop : (ofFile ('/' :: e)).dropWhile isControlOrSpace = ofFile ('/' :: e) := rfl
    rw [hdrop, ofFile, List.filter_append, List.filter_eq_self.mpr hall]
    rfl
  have hcut : ∀ d : Char, isPathChar d = false → d ≠ '%' →
      ('/' :: e).takeWhile (· != d) = '/' :: e := by
    intro d hd hne
    rw [List.takeWhile_eq_self_iff]
    intro c hc
    simpa using hkept d hd hne c hc
  have hscheme : scheme (ofFile ('/' :: e)) = (['f', 'i', 'l', 'e'], '/' :: '/' :: '/' :: e) := rfl
  have hauthority : authority ('/' :: '/' :: '/' :: e) = ([], '/' :: e) := rfl
  unfold path?
  dsimp only
  rw [hclean, hscheme, hauthority, hcut '#' (by decide) (by decide), hcut '?' (by decide) (by decide)]
  rfl

end Uri

/-! ### Dates -/

theorem isUri_iff {s : List Char} : isUri s = true ↔ [':', '/', '/'] <:+: s := by
  induction s with
  | nil => simp [isUri]
  | cons c s ih =>
    rw [isUri, Bool.or_eq_true, ih, List.infix_cons_iff, List.isPrefixOf_iff_prefix]
    rfl

/-- **The date of a path is the one that its stem is written as.** -/
theorem dateOfPath_eq_some_iff {s : List Char} {d : Date} :
    dateOfPath s = some d ↔ (Path.ofText s).stem = d.toString.toList := by
  unfold dateOfPath
  rcases hparse : Date.parse (String.ofList (Path.ofText s).stem) with fault | found
  · refine iff_of_false nofun fun hstem => ?_
    rw [hstem, String.ofList_toList, Date.parse_toString] at hparse
    cases hparse
  · have hfound := Date.toString_of_parse hparse
    dsimp only
    rw [Option.some.injEq]
    constructor
    · rintro rfl
      rw [hfound, String.toList_ofList]
    · intro hstem
      rw [hstem, String.ofList_toList, Date.parse_toString] at hparse
      exact (Except.ok.inj hparse).symm

theorem date?_of_isUri_eq_false {path : String} (h : isUri path.toList = false) :
    date? (some path) = .ok (dateOfPath path.toList) := by
  unfold date?
  dsimp only
  rw [h]
  rfl

/-- The date of a URI is the one of the path that it writes. -/
theorem date?_of_writes {written : String} {path : List Char}
    (hwritten : Uri.Writes path written.toList) (hroot : written.toList.head? = some '/') :
    date? (some ("file://" ++ written)) = .ok (dateOfPath path) := by
  have hfile : ("file://" ++ written).toList = Uri.ofFile written.toList := String.toList_append
  have huri : isUri (Uri.ofFile written.toList) = true :=
    isUri_iff.mpr ⟨['f', 'i', 'l', 'e'], written.toList, rfl⟩
  unfold date?
  dsimp only
  rw [hfile, if_pos huri, hwritten.path?_ofFile hroot]
  dsimp only
  rw [hwritten.percentDecode_eq]

/-- **A path and its URIs have the same date.** For every path without `://` and every text that writes
it and begins with a slash, as the path then does, the URI has the date of the path: the one that the
stem of its last part is written as, and none if the stem is no date. -/
theorem date?_fileUri {path written : String} (hpath : ¬ "://".toList <:+: path.toList)
    (hwritten : Uri.Writes path.toList written.toList) (hroot : written.toList.head? = some '/') :
    date? (some ("file://" ++ written)) = date? (some path) ∧
      ∃ found, date? (some path) = .ok found ∧
        ∀ d, found = some d ↔ (Path.ofText path.toList).stem = d.toString.toList := by
  have hdate : date? (some path) = .ok (dateOfPath path.toList) := by
    refine date?_of_isUri_eq_false ?_
    rw [← Bool.not_eq_true, isUri_iff]
    exact hpath
  refine ⟨?_, dateOfPath path.toList, hdate, fun d => dateOfPath_eq_some_iff⟩
  rw [date?_of_writes hwritten hroot, hdate]

/-- A path with a letter beyond ASCII and a blank. -/
def accentedPath : String := "/é /2024-01-03.md"

/-- The path in a URI: the bytes of the letter are escaped in small and in large digits, the second
slash and a digit of the date are escaped too. -/
def accentedUri : String := "/%c3%A9%20%2F2024-01-0%33.md"

theorem writes_accented : Uri.Writes accentedPath.toList accentedUri.toList := by
  have hpath : accentedPath.toList = ['/', 'é', ' ', '/', '2', '0', '2', '4', '-', '0', '1', '-',
      '0', '3', '.', 'm', 'd'] := by decide +kernel
  have huri : accentedUri.toList = '/' :: (['%', 'c', '3', '%', 'A', '9'] ++ (['%', '2', '0'] ++
      (['%', '2', 'F'] ++ '2' :: '0' :: '2' :: '4' :: '-' :: '0' :: '1' :: '-' :: '0' ::
        (['%', '3', '3'] ++ ['.', 'm', 'd'])))) := by decide +kernel
  rw [hpath, huri]
  refine .plain rfl (.escaped (.cons rfl rfl rfl (.cons rfl rfl rfl .nil)) ?_)
  refine .escaped (.cons rfl rfl rfl .nil) (.escaped (.cons rfl rfl rfl .nil) ?_)
  repeat refine .plain rfl ?_
  refine .escaped (.cons rfl rfl rfl .nil) ?_
  repeat refine .plain rfl ?_
  exact .nil

theorem date?_fileUri_accented : ¬ "://".toList <:+: accentedPath.toList ∧
    Uri.Writes accentedPath.toList accentedUri.toList ∧ accentedUri.toList.head? = some '/' ∧
    date? (some ("file://" ++ accentedUri)) = date? (some accentedPath) ∧
    date? (some accentedPath) = .ok (some ⟨2024, 1, 3, by decide, by decide, by decide⟩) := by
  have hpath : ¬ "://".toList <:+: accentedPath.toList := by decide +kernel
  have hroot : accentedUri.toList.head? = some '/' := by decide +kernel
  obtain ⟨hsame, found, hdate, hfound⟩ := date?_fileUri hpath writes_accented hroot
  refine ⟨hpath, writes_accented, hroot, hsame, ?_⟩
  rw [hdate, (hfound ⟨2024, 1, 3, by decide, by decide, by decide⟩).mpr (by decide +kernel)]

end TimeJournal.Location
