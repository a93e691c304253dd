import Mathlib.Data.List.Sort
import Mathlib.Data.Sum.Order
import Mathlib.Data.Prod.Lex
import WiseWay.Calendar
import WiseWay.Rules

/-! # Tokens, keys and queries

The textual primitives of `search.py` and `instant_sort_key` of `common.py`. What `str` and
`re` know about characters is a parameter. -/
namespace SearchText

open Records

/-- Properties of characters: the full case folding, `isspace`, `isalnum` and the value of a
decimal digit. -/
structure Unicode where
  fold : Char → Text
  isSpace : Char → Bool
  isAlnum : Char → Bool
  decimal : Char → Option ℕ

inductive SearchError where
  | invalidQuery | invalidMarkerSelection | schemaVersionChanged | searchUnavailable
  /-- A Python exception that is no `ApiError`. -/
  | raised
  deriving DecidableEq, Repr

section Text

variable (u : Unicode)

def casefold (text : Text) : Text := text.flatMap u.fold

def isDecimal (c : Char) : Bool := (u.decimal c).isSome

/-- `[^\W\d_]`. -/
def isLetter (c : Char) : Bool := u.isAlnum c && !isDecimal u c && c ≠ '_'

def isSeparator (c : Char) : Bool :=
  u.isSpace c || c = '-' || c = '_' || c = '.' || c = '\\' || c = '/'

def letterDigitBoundary (a b : Char) : Bool :=
  isLetter u a && isDecimal u b || isDecimal u a && isLetter u b

/-- `_LETTER_DIGIT_BOUNDARY.sub(" ", text)`. -/
def separated : Text → Text
  | a :: b :: rest =>
    if letterDigitBoundary u a b then a :: ' ' :: separated (b :: rest)
    else a :: separated (b :: rest)
  | rest => rest

/-- `_tokens`. -/
def tokens (text : Text) : List Text :=
  (((separated u text).splitOnP (isSeparator u)).filter (· ≠ [])).map (casefold u)

/-- `_extension`: the final suffix, which a dotfile and a trailing dot do not have. -/
def extension (filename : Text) : Text :=
  if filename.head? = some '.' ∧ filename.count '.' = 1 then []
  else
    match Rules.rfind '.' filename with
    | none => []
    | some dot =>
      if dot = 0 ∨ dot + 1 = filename.length then [] else filename.drop dot

/-- A part of a natural key: digits by their value, before any other text. -/
abbrev NaturalPart := ℕ ⊕ₗ Text

abbrev NaturalKey := List NaturalPart

/-- `int` of decimal digits. -/
def intOf (digits : Text) : ℕ := digits.foldl (fun n c => 10 * n + (u.decimal c).getD 0) 0

def naturalPart (chunk : Text) : NaturalPart :=
  if chunk.all (isDecimal u) then toLex (.inl (intOf u chunk)) else toLex (.inr (casefold u chunk))

/-- The non-empty chunks of `_NATURAL_CHUNKS.split`. -/
def naturalChunks (value : Text) : List Text :=
  value.splitBy fun a b => isDecimal u a = isDecimal u b

/-- `_natural_key`. -/
def naturalKey (value : Text) : NaturalKey := (naturalChunks u value).map (naturalPart u)

/-! Timestamps. -/

/-- `1[0-2]|0[1-9]`. -/
def monthDigits (c d : Char) : Bool :=
  c = '1' ∧ '0' ≤ d ∧ d ≤ '2' ∨ c = '0' ∧ '1' ≤ d ∧ d ≤ '9'

/-- `3[0-1]|[1-2]\d|0[1-9]`. -/
def dayDigits (c d : Char) : Bool :=
  c = '3' ∧ '0' ≤ d ∧ d ≤ '1' ∨ '1' ≤ c ∧ c ≤ '2' ∧ isDecimal u d ∨ c = '0' ∧ '1' ≤ d ∧ d ≤ '9'

/-- `2[0-3]|[0-1]\d`. -/
def hourDigits (c d : Char) : Bool :=
  c = '2' ∧ '0' ≤ d ∧ d ≤ '3' ∨ '0' ≤ c ∧ c ≤ '1' ∧ isDecimal u d

/-- `[0-5]\d`; the seconds 60 and 61 that `strptime` takes are no seconds of a `datetime`. -/
def sixtyDigits (c d : Char) : Bool := '0' ≤ c ∧ c ≤ '5' ∧ isDecimal u d

/-- The whole second at the front of a timestamp, where it names a calendar instant: the pattern
of `instant_sort_key` and then `strptime`. -/
def wholeSecond : Text → Option Calendar.Civil
  | y₁ :: y₂ :: y₃ :: y₄ :: '-' :: m₁ :: m₂ :: '-' :: d₁ :: d₂ :: 'T' :: h₁ :: h₂ :: ':' ::
      n₁ :: n₂ :: ':' :: s₁ :: s₂ :: _ =>
    let civil : Calendar.Civil := ⟨intOf u [y₁, y₂, y₃, y₄], intOf u [m₁, m₂], intOf u [d₁, d₂],
      intOf u [h₁, h₂], intOf u [n₁, n₂], intOf u [s₁, s₂]⟩
    if [y₁, y₂, y₃, y₄].all (isDecimal u) ∧ monthDigits m₁ m₂ ∧ dayDigits u d₁ d₂ ∧
        hourDigits u h₁ h₂ ∧ sixtyDigits u n₁ n₂ ∧ sixtyDigits u s₁ s₂ ∧
        1 ≤ civil.year ∧ civil.Valid then
      some civil
    else none
  | _ => none

/-- What follows the whole second: the digits of the fraction. -/
def fraction (text : Text) : Option Text :=
  match text with
  | ['Z'] => some []
  | '.' :: rest =>
    if rest.getLast? = some 'Z' ∧ rest.dropLast ≠ [] ∧ rest.dropLast.all (isDecimal u) then
      some rest.dropLast
    else none
  | _ => none

/-- `instant_sort_key`; the whole second of a timestamp is nineteen characters long. -/
def instantSortKey (value : Text) : Except SearchError Text :=
  match wholeSecond u value, fraction u (value.drop 19) with
  | some _, some digits => .ok (value.take 19 ++ '.' :: digits.rdropWhile (· = '0'))
  | _, _ => .error .raised

/-! Queries. -/

/-- Terms and phrases in their order, each once. -/
structure Query where
  terms : List Text
  phrases : List (List Text)
  appliedText : Text
  deriving DecidableEq, Repr

/-- A quoted or an unquoted part of a query with its tokens. -/
abbrev Chunk := Bool × List Text

/-- The scanner of `_parse_query`, on what is left of the value. A part takes at least one
character, so that the length of the value bounds the number of turns. -/
def parseChunks : ℕ → Text → Except SearchError (List Chunk)
  | 0, _ => .ok []
  | _, [] => .ok []
  | n + 1, c :: rest => do
    if u.isSpace c then return ← parseChunks n rest
    if c = '"' then
      let content := rest.takeWhile (· ≠ '"')
      match rest.drop content.length with
      | [] => .error .invalidQuery
      | _ :: after =>
        if after.head?.any (!u.isSpace ·) then .error .invalidQuery
        if tokens u content = [] then .error .invalidQuery
        return (true, tokens u content) :: (← parseChunks n after)
    else
      let content := (c :: rest).takeWhile (!u.isSpace ·)
      if '"' ∈ content then .error .invalidQuery
      if tokens u content = [] then .error .invalidQuery
      return (false, tokens u content) :: (← parseChunks n ((c :: rest).drop content.length))

def appendOnce {α : Type} [DecidableEq α] (l : List α) (a : α) : List α :=
  if a ∈ l then l else l ++ [a]

def addTerms (terms : List Text) (chunk : Chunk) : List Text :=
  if chunk.1 then terms else chunk.2.foldl appendOnce terms

def addPhrase (phrases : List (List Text)) (chunk : Chunk) : List (List Text) :=
  if chunk.1 then appendOnce phrases chunk.2 else phrases

def joinWith (separator : Text) (parts : List Text) : Text :=
  (parts.intersperse separator).flatten

theorem joinWith_single (separator part : Text) : joinWith separator [part] = part := by
  rw [joinWith, List.intersperse_singleton, List.flatten_singleton]

theorem joinWith_cons (separator part : Text) {parts : List Text} (h : parts ≠ []) :
    joinWith separator (part :: parts) = part ++ separator ++ joinWith separator parts := by
  obtain ⟨next, rest, rfl⟩ := List.exists_cons_of_ne_nil h
  simp [joinWith]

def appliedPart (chunk : Chunk) : Text :=
  if chunk.1 then '"' :: joinWith [' '] chunk.2 ++ ['"'] else joinWith [' '] chunk.2

/-- `_parse_query`. -/
def parseQuery (value : Text) : Except SearchError Query := do
  let chunks ← parseChunks u value.length value
  return {
    terms := chunks.foldl addTerms []
    phrases := chunks.foldl addPhrase []
    appliedText := joinWith [' '] (chunks.map appliedPart) }

def Query.blank (query : Query) : Bool := query.terms = [] ∧ query.phrases = []

end Text

variable {u : Unicode}

/-- `int` accepts decimal digits of every script; their values are below ten. -/
def DecimalDigits (u : Unicode) : Prop := ∀ c n, u.decimal c = some n → n < 10

theorem intOf_lt (hu : DecimalDigits u) (digits : Text) :
    intOf u digits < 10 ^ digits.length := by
  have hfold : ∀ (digits : Text) (n k : ℕ), n < 10 ^ k →
      digits.foldl (fun n c => 10 * n + (u.decimal c).getD 0) n < 10 ^ (k + digits.length) := by
    intro digits
    induction digits with
    | nil => exact fun _ _ h => h
    | cons c digits ih =>
      intro n k h
      have hdigit : (u.decimal c).getD 0 < 10 := by
        cases hc : u.decimal c with
        | none => decide
        | some d => exact hu c d hc
      have hstep := ih (10 * n + (u.decimal c).getD 0) (k + 1) (by rw [pow_succ]; omega)
      rwa [List.length_cons, show k + (digits.length + 1) = k + 1 + digits.length by omega]
  simpa [intOf] using hfold digits 0 0 (by decide)

/-! Separators, where none is a letter or a digit. -/

section Separators

variable (hu : ∀ c, isSeparator u c = true → isLetter u c = false ∧ isDecimal u c = false)
include hu

theorem boundary_left {a b : Char} (h : isSeparator u a = true) :
    letterDigitBoundary u a b = false := by
  obtain ⟨hletter, hdigit⟩ := hu a h
  simp [letterDigitBoundary, hletter, hdigit]

theorem boundary_right {a b : Char} (h : isSeparator u b = true) :
    letterDigitBoundary u a b = false := by
  obtain ⟨hletter, hdigit⟩ := hu b h
  simp [letterDigitBoundary, hletter, hdigit]

theorem separated_separator {s : Char} (hs : isSeparator u s = true) (b : Text) : ∀ a : Text,
    separated u (a ++ s :: b) = separated u a ++ s :: separated u b
  | [] => by
    cases b with
    | nil => rfl
    | cons c b =>
      rw [List.nil_append, separated, if_neg (by simp [boundary_left hu hs])]
      rfl
  | [c] => by
    have hrest := separated_separator hs b []
    rw [List.nil_append] at hrest
    rw [List.singleton_append, separated, if_neg (by simp [boundary_right hu hs]), hrest]
    rfl
  | c :: d :: a => by
    have hrest := separated_separator hs b (d :: a)
    rw [List.cons_append] at hrest
    rw [List.cons_append, List.cons_append, separated, separated, hrest]
    split
    · rfl
    · rfl

theorem tokens_separator {s : Char} (hs : isSeparator u s = true) (a b : Text) :
    tokens u (a ++ s :: b) = tokens u a ++ tokens u b := by
  unfold tokens
  rw [separated_separator hu hs, List.splitOnP_append_cons _ _ hs, List.filter_append,
    List.map_append]

end Separators

/-! ASCII. -/

def ascii : Unicode where
  fold c := [c.toLower]
  isSpace := Char.isWhitespace
  isAlnum := Char.isAlphanum
  decimal c := if c.isDigit then some (c.toNat - '0'.toNat) else none

theorem decimalDigits_ascii : DecimalDigits ascii := by
  intro c n h
  simp only [ascii] at h
  split at h
  · rename_i hdigit
    have hhigh : c.toNat ≤ 57 := (Char.isDigit_iff_toNat.mp hdigit).2
    cases h
    exact show c.toNat - 48 < 10 by omega
  · cases h

example : tokens ascii "Orion_2031/Report4b.TXT".toList =
    ["orion", "2031", "report", "4", "b", "txt"].map String.toList := by decide +kernel

example : instantSortKey ascii "2024-02-29T10:20:30.500Z".toList =
    .ok "2024-02-29T10:20:30.5".toList := by decide +kernel

example : parseQuery ascii "atlas \"atlas main\" Atlas".toList =
    .ok ⟨["atlas".toList], [["atlas".toList, "main".toList]],
      "atlas \"atlas main\" atlas".toList⟩ := by decide +kernel

end SearchText
