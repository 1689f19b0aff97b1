import Mathlib.Data.List.Basic
import Mathlib.Tactic.SplitIfs
import TimeJournal.Proofs.Text.Digits
import TimeJournal.Text.Json

/-! # Reading JSON text

A text is read in two passes. The first one goes through its characters and cuts it into tokens:
numbers, strings with their escapes resolved, and marks; white space may stand between any two. The
second one goes through the tokens with a stack of the arrays and objects that are still open. Read
are the values that are written here, so no signs, fractions and exponents; a number may not begin
with a zero, a string may hold no control character as it is, and an escape may not stand for half of
a surrogate pair.

* `isCutInto_write`: a value that was written is cut into its own tokens, whatever follows that does
  not continue a number.
* `Parser.builds_tokens`: from its tokens a value is built, whatever is still open.
* `read_write`: so a value that was written is read back.
* `isOneLine_write`: a value is written without control characters. -/

namespace TimeJournal.Text.Json

/-! ### Tokens -/

/-- What a text is cut into. -/
inductive Token where
  | number (value : ℕ)
  | string (value : List Char)
  | openArray
  | closeArray
  | openObject
  | closeObject
  | comma
  | colon
  deriving DecidableEq, Repr

/-- Where a lexer stands: between two tokens, in a number, or in a string: between two characters of
it, behind a reverse solidus, or in front of a hexadecimal digit that `left` others follow. -/
inductive Lexer.Place where
  | gap
  | number (value : ℕ)
  | string (seen : List Char)
  | escape (seen : List Char)
  | unicode (seen : List Char) (left value : ℕ)
  deriving DecidableEq, Repr

/-- The tokens that a lexer has seen, and where it stands. -/
structure Lexer where
  tokens : List Token
  place : Lexer.Place
  deriving DecidableEq, Repr

namespace Lexer

/-- The mark that a character is. -/
def mark? : Char → Option Token
  | '[' => some .openArray
  | ']' => some .closeArray
  | '{' => some .openObject
  | '}' => some .closeObject
  | ',' => some .comma
  | ':' => some .colon
  | _ => none

/-- The character that is written with another one behind a reverse solidus. -/
def escaped? : Char → Option Char
  | '"' => some '"'
  | '\\' => some '\\'
  | '/' => some '/'
  | 'b' => some '\x08'
  | 'f' => some '\x0c'
  | 'n' => some '\n'
  | 'r' => some '\r'
  | 't' => some '\t'
  | _ => none

/-- White space between tokens. -/
def isGap (c : Char) : Bool := c == ' ' || c == '\n' || c == '\r' || c == '\t'

/-- The first character of a token, or white space. -/
def start (tokens : List Token) (c : Char) : Option Lexer :=
  if isGap c then some ⟨tokens, .gap⟩
  else if c = '"' then some ⟨tokens, .string []⟩
  else if c.isDigit then some ⟨tokens, .number (digitValue c)⟩
  else (mark? c).map fun mark => ⟨tokens ++ [mark], .gap⟩

/-- The lexer behind another character, if it may stand there. -/
def step (l : Lexer) (c : Char) : Option Lexer :=
  match l.place with
  | .gap => start l.tokens c
  | .number value =>
    if c.isDigit then
      if value = 0 then none else some ⟨l.tokens, .number (10 * value + digitValue c)⟩
    else start (l.tokens ++ [.number value]) c
  | .string seen =>
    if c = '"' then some ⟨l.tokens ++ [.string seen], .gap⟩
    else if c = '\\' then some ⟨l.tokens, .escape seen⟩
    else if c.toNat < 0x20 then none
    else some ⟨l.tokens, .string (seen ++ [c])⟩
  | .escape seen =>
    if c = 'u' then some ⟨l.tokens, .unicode seen 3 0⟩
    else (escaped? c).map fun e => ⟨l.tokens, .string (seen ++ [e])⟩
  | .unicode seen left value =>
    match hexValue? c, left with
    | none, _ => none
    | some digit, left + 1 => some ⟨l.tokens, .unicode seen left (16 * value + digit)⟩
    | some digit, 0 =>
      let code := 16 * value + digit
      if 0xd800 ≤ code ∧ code < 0xe000 then none
      else some ⟨l.tokens, .string (seen ++ [Char.ofNat code])⟩

/-- The tokens at the end of a text. -/
def finish (l : Lexer) : Option (List Token) :=
  match l.place with
  | .gap => some l.tokens
  | .number value => some (l.tokens ++ [.number value])
  | _ => none

end Lexer

/-- The tokens of a text behind others. -/
def tokensFrom (before : List Token) (text : List Char) : Option (List Token) :=
  (text.foldlM Lexer.step ⟨before, .gap⟩).bind Lexer.finish

/-! ### Values -/

/-- An array or an object that is open, with what it holds in front of the value that comes next; in
an object this value has a key. -/
inductive Frame where
  | array (items : List Json)
  | object (members : List (String × Json)) (key : String)
  deriving Repr

/-- Where a parser stands: in front of a value, or of a key, as the first one or not; in front of the
colon behind a key; or behind a value. -/
inductive Parser.Place where
  | value (first : Bool)
  | key (members : List (String × Json)) (first : Bool)
  | colon (members : List (String × Json)) (key : String)
  | behind (value : Json)
  deriving Repr

/-- What a parser has open, the innermost first, and where it stands. -/
structure Parser where
  stack : List Frame
  place : Parser.Place
  deriving Repr

namespace Parser

/-- The parser behind another token, if it may stand there. -/
def step (p : Parser) (t : Token) : Option Parser :=
  match p.place, t, p.stack with
  | .value _, .number n, _ => some ⟨p.stack, .behind (.number n)⟩
  | .value _, .string s, _ => some ⟨p.stack, .behind (.string (String.ofList s))⟩
  | .value _, .openArray, _ => some ⟨.array [] :: p.stack, .value true⟩
  | .value _, .openObject, _ => some ⟨p.stack, .key [] true⟩
  | .value true, .closeArray, .array [] :: stack => some ⟨stack, .behind (.array [])⟩
  | .key members _, .string s, _ => some ⟨p.stack, .colon members (String.ofList s)⟩
  | .key [] true, .closeObject, _ => some ⟨p.stack, .behind (.object [])⟩
  | .colon members key, .colon, _ => some ⟨.object members key :: p.stack, .value false⟩
  | .behind v, .comma, .array items :: stack => some ⟨.array (items ++ [v]) :: stack, .value false⟩
  | .behind v, .closeArray, .array items :: stack => some ⟨stack, .behind (.array (items ++ [v]))⟩
  | .behind v, .comma, .object members key :: stack =>
    some ⟨stack, .key (members ++ [(key, v)]) false⟩
  | .behind v, .closeObject, .object members key :: stack =>
    some ⟨stack, .behind (.object (members ++ [(key, v)]))⟩
  | _, _, _ => none

/-- The value at the end, if nothing is open. -/
def finish (p : Parser) : Option Json :=
  match p with
  | ⟨[], .behind v⟩ => some v
  | _ => none

end Parser

/-- The value of a text, if it is JSON text. -/
def read (text : List Char) : Option Json :=
  (tokensFrom [] text).bind fun tokens =>
    (tokens.foldlM Parser.step ⟨[], .value false⟩).bind Parser.finish

example : read "[ \x7b\"\\u0041\": 10\x7d,\n [ ]]".toList =
    some (.array [.object [("A", .number 10)], .array []]) := rfl

/-! ### The tokens of what is written -/

/-- Nothing that continues a number. -/
def IsApart (rest : List Char) : Prop := ∀ c ∈ rest.head?, c.isDigit = false

/-- A text is cut into tokens, whatever stands before it, and whatever follows that does not continue
a number. -/
def IsCutInto (text : List Char) (tokens : List Token) : Prop :=
  ∀ before rest, IsApart rest →
    tokensFrom before (text ++ rest) = tokensFrom (before ++ tokens) rest

theorem isApart_cons {c : Char} (h : c.isDigit = false) (rest : List Char) : IsApart (c :: rest) :=
  fun d hd => by rwa [← Option.some.inj hd]

/-- A character that is a mark, or white space, does not depend on what follows. -/
theorem tokensFrom_cons {c : Char} {before after : List Token}
    (h : Lexer.start before c = some ⟨after, .gap⟩) (rest : List Char) :
    tokensFrom before (c :: rest) = tokensFrom after rest := by
  show ((c :: rest).foldlM Lexer.step _).bind _ = _
  rw [List.foldlM_cons]
  show ((Lexer.start before c).bind _).bind _ = _
  rw [h]
  rfl

namespace Lexer

variable (before : List Token) (seen : List Char)

/-! ### Numbers -/

theorem digitChar_spec : ∀ k < 10, k.digitChar.isDigit = true ∧ digitValue k.digitChar = k := by
  decide

theorem foldlM_digits (n : ℕ) :
    (Nat.toDigits 10 n).foldlM step ⟨before, .gap⟩ = some ⟨before, .number n⟩ := by
  induction n using Nat.strongRecOn with
  | ind n ih =>
    rcases lt_or_ge n 10 with hn | hn
    · rw [Nat.toDigits_of_lt_base hn]
      interval_cases n <;> rfl
    · -- the digits in front are those of a smaller number, which is not zero
      have hlast : step ⟨before, .number (n / 10)⟩ (n % 10).digitChar = some ⟨before, .number n⟩ := by
        obtain ⟨hdigit, hvalue⟩ := digitChar_spec (n % 10) (by omega)
        unfold step
        dsimp only
        rw [if_pos hdigit, if_neg (by omega), hvalue, show 10 * (n / 10) + n % 10 = n by omega]
      rw [Nat.toDigits_of_base_le (by decide) hn, List.foldlM_append, ih (n / 10) (by omega)]
      show [(n % 10).digitChar].foldlM step _ = _
      rw [List.foldlM_cons, hlast]
      rfl

/-! ### Strings -/

theorem step_hexDigit {left value k : ℕ} (hk : k < 16) :
    step ⟨before, .unicode seen (left + 1) value⟩ (hexDigit k) =
      some ⟨before, .unicode seen left (16 * value + k)⟩ := by
  unfold step
  dsimp only
  rw [hexValue?_hexDigit k hk]

/-- The number of a character that is no half of a surrogate pair is read back. -/
theorem foldlM_hexText {n : ℕ} (hn : n < 0xd800) :
    (hexText 4 n).foldlM step ⟨before, .unicode seen 3 0⟩ =
      some ⟨before, .string (seen ++ [Char.ofNat n])⟩ := by
  have hlast : step ⟨before, .unicode seen 0 (n / 16)⟩ (hexDigit (n % 16)) =
      some ⟨before, .string (seen ++ [Char.ofNat n])⟩ := by
    unfold step
    dsimp only
    rw [hexValue?_hexDigit _ (by omega)]
    dsimp only
    rw [show 16 * (n / 16) + n % 16 = n by omega, if_neg (by omega)]
  have hfront : 16 * (16 * (16 * 0 + n / 16 / 16 / 16 % 16) + n / 16 / 16 % 16) + n / 16 % 16 =
      n / 16 := by omega
  show [hexDigit (n / 16 / 16 / 16 % 16), hexDigit (n / 16 / 16 % 16), hexDigit (n / 16 % 16),
    hexDigit (n % 16)].foldlM step _ = _
  simp (disch := omega) only [List.foldlM_cons, step_hexDigit, Option.bind_eq_bind, Option.bind_some,
    hfront, hlast]
  rfl

theorem foldlM_escape (c : Char) :
    (escape c).foldlM step ⟨before, .string seen⟩ = some ⟨before, .string (seen ++ [c])⟩ := by
  unfold escape
  split_ifs with h₁ h₂ h₃ h₄ h₅ h₆ h₇ h₈
  · rw [h₁]; rfl
  · rw [h₂]; rfl
  · rw [h₃]; rfl
  · rw [h₄]; rfl
  · rw [h₅]; rfl
  · rw [h₆]; rfl
  · rw [h₇]; rfl
  · have hhex := foldlM_hexText before seen (n := c.toNat) (by omega)
    rw [Char.ofNat_toNat] at hhex
    exact hhex
  · have hstep : step ⟨before, .string seen⟩ c = some ⟨before, .string (seen ++ [c])⟩ := by
      unfold step
      dsimp only
      rw [if_neg h₁, if_neg h₂, if_neg h₈]
    rw [List.foldlM_cons, hstep]
    rfl

theorem foldlM_escapes (s : List Char) :
    (s.flatMap escape).foldlM step ⟨before, .string seen⟩ = some ⟨before, .string (seen ++ s)⟩ := by
  induction s generalizing seen with
  | nil => rw [List.append_nil]; rfl
  | cons c s ih =>
    rw [List.flatMap_cons, List.foldlM_append, foldlM_escape]
    exact (ih (seen ++ [c])).trans (by rw [List.append_assoc]; rfl)

end Lexer

theorem isCutInto_repr (n : ℕ) : IsCutInto (Nat.repr n).toList [.number n] := by
  intro before rest hrest
  unfold tokensFrom
  rw [Nat.toList_repr, List.foldlM_append, Lexer.foldlM_digits]
  cases rest with
  | nil => rfl
  | cons c rest =>
    have hc : c.isDigit = false := hrest c rfl
    have hstep : Lexer.step ⟨before, .number n⟩ c =
        Lexer.step ⟨before ++ [.number n], .gap⟩ c := by
      unfold Lexer.step
      dsimp only
      rw [hc]
      rfl
    show ((c :: rest).foldlM Lexer.step ⟨before, .number n⟩).bind _ = _
    rw [List.foldlM_cons, List.foldlM_cons, hstep]

theorem isCutInto_quote (s : String) : IsCutInto (quote s) [.string s.toList] := by
  intro before rest _
  unfold tokensFrom quote
  rw [List.cons_append, List.foldlM_cons]
  show ((s.toList.flatMap escape ++ ['"'] ++ rest).foldlM Lexer.step ⟨before, .string []⟩).bind _ = _
  rw [List.append_assoc, List.foldlM_append, Lexer.foldlM_escapes]
  rfl

mutual

/-- The tokens of a value. -/
def tokens : Json → List Token
  | .number n => [.number n]
  | .string s => [.string s.toList]
  | .array items => .openArray :: (itemTokens items ++ [.closeArray])
  | .object members => .openObject :: (memberTokens members ++ [.closeObject])

/-- The tokens of the items of an array. -/
def itemTokens : List Json → List Token
  | [] => []
  | [v] => tokens v
  | v :: w :: r => tokens v ++ .comma :: itemTokens (w :: r)

/-- The tokens of the members of an object. -/
def memberTokens : List (String × Json) → List Token
  | [] => []
  | [(k, v)] => .string k.toList :: .colon :: tokens v
  | (k, v) :: m :: r => .string k.toList :: .colon :: (tokens v ++ .comma :: memberTokens (m :: r))

end

namespace IsCutInto

variable {s t : List Char} {ts us : List Token} {c d : Char} {m n : Token}

theorem separated (hc : ∀ before, Lexer.start before c = some ⟨before ++ [m], .gap⟩)
    (hdigit : c.isDigit = false) (hs : IsCutInto s ts) (ht : IsCutInto t us) :
    IsCutInto (s ++ c :: ' ' :: t) (ts ++ m :: us) := by
  intro before rest hrest
  rw [List.append_assoc, List.cons_append, List.cons_append, hs _ _ (isApart_cons hdigit _),
    tokensFrom_cons (hc _), tokensFrom_cons rfl, ht _ _ hrest]
  simp only [List.append_assoc, List.singleton_append]

theorem enclosed (hc : ∀ before, Lexer.start before c = some ⟨before ++ [m], .gap⟩)
    (hd : ∀ before, Lexer.start before d = some ⟨before ++ [n], .gap⟩) (hdigit : d.isDigit = false)
    (hs : IsCutInto s ts) : IsCutInto (c :: (s ++ [d])) (m :: (ts ++ [n])) := by
  intro before rest _
  rw [List.cons_append, List.append_assoc, List.singleton_append, tokensFrom_cons (hc _),
    hs _ _ (isApart_cons hdigit _), tokensFrom_cons (hd _)]
  simp only [List.append_assoc, List.cons_append, List.nil_append]

end IsCutInto

mutual

/-- **A value that was written is cut into its tokens.** -/
theorem isCutInto_write : ∀ v : Json, IsCutInto v.write v.tokens
  | .number n => isCutInto_repr n
  | .string s => isCutInto_quote s
  | .array items => (isCutInto_writeItems items).enclosed (fun _ => rfl) (fun _ => rfl) (by decide)
  | .object members =>
    (isCutInto_writeMembers members).enclosed (fun _ => rfl) (fun _ => rfl) (by decide)

theorem isCutInto_writeItems : ∀ items : List Json, IsCutInto (writeItems items) (itemTokens items)
  | [] => fun before rest _ => by rw [itemTokens, List.append_nil]; rfl
  | [v] => isCutInto_write v
  | v :: w :: r =>
    (isCutInto_write v).separated (fun _ => rfl) (by decide) (isCutInto_writeItems (w :: r))

theorem isCutInto_writeMembers : ∀ members : List (String × Json),
    IsCutInto (writeMembers members) (memberTokens members)
  | [] => fun before rest _ => by rw [memberTokens, List.append_nil]; rfl
  | [(k, v)] => (isCutInto_quote k).separated (fun _ => rfl) (by decide) (isCutInto_write v)
  | (k, v) :: m :: r => by
    have hmember := (isCutInto_quote k).separated (c := ':') (m := .colon) (fun _ => rfl) (by decide)
      (isCutInto_write v)
    exact hmember.separated (fun _ => rfl) (by decide) (isCutInto_writeMembers (m :: r))

end

/-! ### The values of tokens -/

namespace Parser

/-- From tokens a value is built, wherever one may stand. -/
def Builds (ts : List Token) (v : Json) : Prop := ∀ stack first,
  ts.foldlM step ⟨stack, .value first⟩ = some ⟨stack, .behind v⟩

variable {v : Json} {ts : List Token} (stack : List Frame) (rest : List Token)

theorem Builds.foldlM_append (h : Builds ts v) (first : Bool) :
    (ts ++ rest).foldlM step ⟨stack, .value first⟩ = rest.foldlM step ⟨stack, .behind v⟩ := by
  rw [List.foldlM_append, h]
  rfl

/-- The same behind the key of a member. -/
theorem Builds.foldlM_member (h : Builds ts v) (key : String) (members : List (String × Json))
    (first : Bool) :
    (.string key.toList :: .colon :: (ts ++ rest)).foldlM step ⟨stack, .key members first⟩ =
      rest.foldlM step ⟨.object members key :: stack, .behind v⟩ := by
  have hkey : String.ofList key.toList = key := String.ofList_toList
  rw [List.foldlM_cons]
  show (.colon :: (ts ++ rest)).foldlM step ⟨stack, .colon members (String.ofList key.toList)⟩ = _
  rw [hkey, List.foldlM_cons]
  exact h.foldlM_append _ rest false

mutual

/-- **From its tokens a value is built.** -/
theorem builds_tokens : ∀ v : Json, Builds v.tokens v
  | .number n => fun _ _ => rfl
  | .string s => fun stack first => by
    show some (⟨stack, .behind (.string (String.ofList s.toList))⟩ : Parser) = _
    rw [String.ofList_toList]
  | .array [] => fun _ _ => rfl
  | .array (v :: r) => fun stack _ => foldlM_itemTokens (v :: r) (by simp) [] stack true
  | .object [] => fun _ _ => rfl
  | .object (m :: r) => fun stack _ => foldlM_memberTokens (m :: r) (by simp) [] stack true

theorem foldlM_itemTokens : ∀ items : List Json, items ≠ [] → ∀ done stack first,
    (itemTokens items ++ [Token.closeArray]).foldlM step ⟨.array done :: stack, .value first⟩ =
      some ⟨stack, .behind (.array (done ++ items))⟩
  | [], hne => absurd rfl hne
  | [v], _ => fun _ stack first => (builds_tokens v).foldlM_append _ _ first
  | v :: w :: r, _ => fun done stack first => by
    have hrest := foldlM_itemTokens (w :: r) (by simp) (done ++ [v]) stack false
    rw [itemTokens, List.append_assoc, (builds_tokens v).foldlM_append, List.cons_append,
      List.foldlM_cons]
    exact hrest.trans (by rw [List.append_assoc]; rfl)

theorem foldlM_memberTokens : ∀ members : List (String × Json), members ≠ [] → ∀ done stack first,
    (memberTokens members ++ [Token.closeObject]).foldlM step ⟨stack, .key done first⟩ =
      some ⟨stack, .behind (.object (done ++ members))⟩
  | [], hne => absurd rfl hne
  | [(k, v)], _ => fun done stack first =>
    (builds_tokens v).foldlM_member stack [.closeObject] k done first
  | (k, v) :: m :: r, _ => fun done stack first => by
    have hrest := foldlM_memberTokens (m :: r) (by simp) (done ++ [(k, v)]) stack false
    rw [memberTokens, List.cons_append, List.cons_append, List.append_assoc,
      (builds_tokens v).foldlM_member, List.cons_append, List.foldlM_cons]
    exact hrest.trans (by rw [List.append_assoc]; rfl)

end

end Parser

/-- **A value that was written is read back.** -/
theorem read_write (v : Json) : read v.write = some v := by
  have htokens := isCutInto_write v [] [] (fun _ h => by cases h)
  rw [List.append_nil, List.nil_append] at htokens
  unfold read
  rw [htokens]
  show (v.tokens.foldlM Parser.step ⟨[], .value false⟩).bind Parser.finish = some v
  rw [Parser.builds_tokens v]
  rfl

/-! ### Lines -/

/-- No control character, so no ending of a line. -/
def IsOneLine (s : List Char) : Prop := ∀ c ∈ s, 0x20 ≤ c.toNat

theorem isOneLine_append {s t : List Char} :
    IsOneLine (s ++ t) ↔ IsOneLine s ∧ IsOneLine t := List.forall_mem_append

theorem isOneLine_cons {c : Char} {s : List Char} :
    IsOneLine (c :: s) ↔ 0x20 ≤ c.toNat ∧ IsOneLine s := List.forall_mem_cons

theorem isOneLine_nil : IsOneLine [] := nofun

theorem isOneLine_hexText (width n : ℕ) : IsOneLine (hexText width n) := by
  have hdigit : ∀ k < 16, 0x20 ≤ (hexDigit k).toNat := by decide
  induction width generalizing n with
  | zero => exact isOneLine_nil
  | succ width ih =>
    rw [hexText, isOneLine_append, isOneLine_cons]
    exact ⟨ih _, hdigit _ (by omega), isOneLine_nil⟩

theorem isOneLine_escape (c : Char) : IsOneLine (escape c) := by
  have hpair : ∀ d : Char, 0x20 ≤ d.toNat → IsOneLine ['\\', d] := fun d hd =>
    isOneLine_cons.mpr ⟨by decide, isOneLine_cons.mpr ⟨hd, isOneLine_nil⟩⟩
  unfold escape
  split_ifs with h₁ h₂ h₃ h₄ h₅ h₆ h₇ h₈
  iterate 7 · exact hpair _ (by decide)
  · rw [isOneLine_cons, isOneLine_cons]
    exact ⟨by decide, by decide, isOneLine_hexText _ _⟩
  · rw [isOneLine_cons]
    exact ⟨by omega, isOneLine_nil⟩

theorem isOneLine_quote (s : String) : IsOneLine (quote s) := by
  unfold quote
  rw [isOneLine_cons, isOneLine_append]
  refine ⟨by decide, fun c hc => ?_, isOneLine_cons.mpr ⟨by decide, isOneLine_nil⟩⟩
  obtain ⟨d, -, hd⟩ := List.mem_flatMap.mp hc
  exact isOneLine_escape d c hd

theorem isOneLine_repr (n : ℕ) : IsOneLine (Nat.repr n).toList := fun c hc => by
  have := toNat_of_isDigit (isDigit_of_mem_repr hc)
  omega

mutual

/-- **A value is written without control characters.** -/
theorem isOneLine_write : ∀ v : Json, IsOneLine v.write
  | .number n => isOneLine_repr n
  | .string s => isOneLine_quote s
  | .array items => by
    rw [write, isOneLine_cons, isOneLine_append, isOneLine_cons]
    exact ⟨by decide, isOneLine_writeItems items, by decide, isOneLine_nil⟩
  | .object members => by
    rw [write, isOneLine_cons, isOneLine_append, isOneLine_cons]
    exact ⟨by decide, isOneLine_writeMembers members, by decide, isOneLine_nil⟩

theorem isOneLine_writeItems : ∀ items : List Json, IsOneLine (writeItems items)
  | [] => isOneLine_nil
  | [v] => isOneLine_write v
  | v :: w :: r => by
    rw [writeItems, isOneLine_append, isOneLine_cons, isOneLine_cons]
    exact ⟨isOneLine_write v, by decide, by decide, isOneLine_writeItems (w :: r)⟩

theorem isOneLine_writeMembers : ∀ members : List (String × Json),
    IsOneLine (writeMembers members)
  | [] => isOneLine_nil
  | [(k, v)] => by
    rw [writeMembers, isOneLine_append, isOneLine_cons, isOneLine_cons]
    exact ⟨isOneLine_quote k, by decide, by decide, isOneLine_write v⟩
  | (k, v) :: m :: r => by
    rw [writeMembers, isOneLine_append, isOneLine_append, isOneLine_cons, isOneLine_cons,
      isOneLine_cons, isOneLine_cons]
    exact ⟨⟨isOneLine_quote k, by decide, by decide, isOneLine_write v⟩, by decide, by decide,
      isOneLine_writeMembers (m :: r)⟩

end

/-- A value is written on one line. -/
theorem feed_notMem_write (v : Json) : '\n' ∉ v.write :=
  fun h => absurd (isOneLine_write v _ h) (by decide)

end TimeJournal.Text.Json
