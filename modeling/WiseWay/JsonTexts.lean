import Mathlib.Data.List.Sort
import Mathlib.Data.List.Lex
import Mathlib.Data.Nat.Digits.Lemmas
import Mathlib.Tactic.Common
import WiseWay.TextCodecs

/-! # JSON documents

The compact, key-sorted, ASCII-only encoder and the decoder of the standard library, both on
code points. An object is kept as its assignments in order, of which a later one wins, and a
number that is not an integer as its text. -/
namespace JsonTexts

open TextCodecs

inductive Json
  | null
  | bool (b : Bool)
  | int (i : ℤ)
  | float (text : Str)
  | str (s : Str)
  | arr (items : List Json)
  | obj (members : List (Str × Json))

/-- The value of a key in an object: that of its last assignment. -/
def Json.get (members : List (Str × Json)) (key : Str) : Option Json :=
  members.reverse.lookup key

abbrev quote : ℕ := 34
abbrev comma : ℕ := 44
abbrev minus : ℕ := 45
abbrev dot : ℕ := 46
abbrev colon : ℕ := 58
abbrev lbracket : ℕ := 91
abbrev backslash : ℕ := 92
abbrev rbracket : ℕ := 93
abbrev letterU : ℕ := 117
abbrev lbrace : ℕ := 123
abbrev rbrace : ℕ := 125

/-! ## Encoding -/

def hexDigit (d : ℕ) : ℕ := if d < 10 then 48 + d else 87 + d

def hex4 (unit : ℕ) : Str :=
  [hexDigit (unit / 4096 % 16), hexDigit (unit / 256 % 16), hexDigit (unit / 16 % 16),
    hexDigit (unit % 16)]

def escapeUnit (unit : ℕ) : Str := backslash :: letterU :: hex4 unit

def shortEscape (c : ℕ) : Option ℕ :=
  if c = backslash then some backslash
  else if c = quote then some quote
  else if c = 8 then some 98
  else if c = 12 then some 102
  else if c = 10 then some 110
  else if c = 13 then some 114
  else if c = 9 then some 116
  else none

def escapeChar (c : ℕ) : Str :=
  match shortEscape c with
  | some letter => [backslash, letter]
  | none =>
    if Printable c then [c]
    else if c < 0x10000 then escapeUnit c
    else escapeUnit (0xD800 + (c - 0x10000) / 0x400 % 0x400) ++
      escapeUnit (0xDC00 + (c - 0x10000) % 0x400)

def encodeString (s : Str) : Str := quote :: (s.flatMap escapeChar ++ [quote])

def digits (n : ℕ) : Str := (Nat.digits 10 n).reverse.map (48 + ·)

def encodeNat (n : ℕ) : Str := if n = 0 then [48] else digits n

def encodeInt (i : ℤ) : Str := if i < 0 then minus :: encodeNat i.natAbs else encodeNat i.natAbs

def joined (texts : List Str) : Str := [comma].intercalate texts

def memberText (member : Str × Str) : Str := encodeString member.1 ++ colon :: member.2

def keyLe {α : Type} (a b : Str × α) : Prop := a.1 ≤ b.1

instance {α : Type} : DecidableRel (keyLe (α := α)) :=
  fun a b => inferInstanceAs (Decidable (a.1 ≤ b.1))

mutual

/-- Encoding with sorted keys, no blanks and every character outside ASCII escaped. -/
def encode : Json → Str
  | .null => str "null"
  | .bool true => str "true"
  | .bool false => str "false"
  | .int i => encodeInt i
  | .float text => text
  | .str s => encodeString s
  | .arr items => lbracket :: (joined (encodeItems items) ++ [rbracket])
  | .obj members =>
    lbrace :: (joined (((encodeMembers members).insertionSort keyLe).map memberText) ++ [rbrace])

def encodeItems : List Json → List Str
  | [] => []
  | item :: items => encode item :: encodeItems items

def encodeMembers : List (Str × Json) → List (Str × Str)
  | [] => []
  | (key, value) :: members => (key, encode value) :: encodeMembers members

end

/-! ## Decoding -/

def Space (c : ℕ) : Prop := c = 32 ∨ c = 9 ∨ c = 10 ∨ c = 13

instance (c : ℕ) : Decidable (Space c) := inferInstanceAs (Decidable (_ ∨ _ ∨ _ ∨ _))

def Digit (c : ℕ) : Prop := 48 ≤ c ∧ c ≤ 57

instance (c : ℕ) : Decidable (Digit c) := inferInstanceAs (Decidable (_ ∧ _))

def skipSpace (text : Str) : Str := text.dropWhile fun c => Space c

def hexValue (c : ℕ) : Option ℕ :=
  if Digit c then some (c - 48)
  else if 97 ≤ c ∧ c ≤ 102 then some (c - 87)
  else if 65 ≤ c ∧ c ≤ 70 then some (c - 55)
  else none

def hexUnit (a b c d : ℕ) : Option ℕ :=
  match hexValue a, hexValue b, hexValue c, hexValue d with
  | some a, some b, some c, some d => some (a * 4096 + b * 256 + c * 16 + d)
  | _, _, _, _ => none

/-- The character a two-character escape stands for. -/
def unescape (letter : ℕ) : Option ℕ :=
  if letter = quote then some quote
  else if letter = backslash then some backslash
  else if letter = 47 then some 47
  else if letter = 98 then some 8
  else if letter = 102 then some 12
  else if letter = 110 then some 10
  else if letter = 114 then some 13
  else if letter = 116 then some 9
  else none

/-- The low half of a surrogate pair that an escape at the start of the text gives. -/
def lowEscape : Str → Option ℕ
  | x :: y :: a :: b :: c :: d :: _ =>
    if x = backslash ∧ y = letterU then
      match hexUnit a b c d with
      | some low => if LowSurrogate low then some low else none
      | none => none
    else none
  | _ => none

/-- One character of a string, and the text after it; `none` at the closing quote. -/
def scanEscape : Str → Option (ℕ × Str)
  | [] => none
  | e :: rest =>
    if e = letterU then
      match rest with
      | a :: b :: c :: d :: rest =>
        match hexUnit a b c d with
        | none => none
        | some unit =>
          if HighSurrogate unit then
            match lowEscape rest with
            | some low => some (joinSurrogates unit low, rest.drop 6)
            | none => some (unit, rest)
          else some (unit, rest)
      | _ => none
    else (unescape e).map (·, rest)

def scanString : ℕ → Str → Option (Str × Str)
  | _, [] => none
  | 0, _ => none
  | fuel + 1, c :: rest =>
    if c = quote then some ([], rest)
    else if c < 32 then none
    else if c = backslash then
      match scanEscape rest with
      | none => none
      | some (point, rest) =>
        (scanString fuel rest).map fun found => (point :: found.1, found.2)
    else (scanString fuel rest).map fun found => (c :: found.1, found.2)

/-- The integer that a run of digits writes; longer ones than the limit are refused. -/
def maxDigits : ℕ := 4300

def natOfDigits (ds : Str) : ℕ := ds.foldl (fun n d => n * 10 + (d - 48)) 0

def spanDigits (text : Str) : Str × Str := text.span fun c => Digit c

def scanFraction (text : Str) : Option Str :=
  match text with
  | [] => none
  | c :: rest => if c = dot ∧ (spanDigits rest).1 ≠ [] then some (spanDigits rest).2 else none

def scanSign (text : Str) : Str :=
  match text with
  | [] => []
  | c :: rest => if c = minus ∨ c = 43 then rest else c :: rest

def scanExponent (text : Str) : Option Str :=
  match text with
  | [] => none
  | c :: rest =>
    if (c = 101 ∨ c = 69) ∧ (spanDigits (scanSign rest)).1 ≠ [] then
      some (spanDigits (scanSign rest)).2
    else none

/-- The integer part: a lone zero, or digits that do not start with one. -/
def scanWhole (text : Str) : Option (Str × Str) :=
  match text with
  | [] => none
  | c :: rest =>
    if c = 48 then some ([48], rest)
    else if Digit c then some (c :: (spanDigits rest).1, (spanDigits rest).2)
    else none

def intValue (negative : Bool) (ds : Str) : Option Json :=
  if maxDigits < ds.length then none
  else some (.int (if negative then -(natOfDigits ds : ℤ) else natOfDigits ds))

def scanUnsigned (negative : Bool) (text : Str) : Option (Json × Str) :=
  match scanWhole text with
  | none => none
  | some (ds, rest) =>
    match scanFraction rest, scanExponent ((scanFraction rest).getD rest) with
    | none, none => (intValue negative ds).map (·, rest)
    | some rest, none => some (.float (text.take (text.length - rest.length)), rest)
    | _, some rest => some (.float (text.take (text.length - rest.length)), rest)

def scanNumber (text : Str) : Option (Json × Str) :=
  match text with
  | [] => none
  | c :: rest => if c = minus then scanUnsigned true rest else scanUnsigned false (c :: rest)

def literal (word text : Str) (value : Json) : Option (Json × Str) :=
  if word <+: text then some (value, text.drop word.length) else none

mutual

def scanOnce : ℕ → Str → Option (Json × Str)
  | 0, _ => none
  | _ + 1, [] => none
  | fuel + 1, c :: rest =>
    if c = quote then (scanString rest.length rest).map fun found => (.str found.1, found.2)
    else if c = lbrace then
      match skipSpace rest with
      | [] => none
      | d :: after =>
        if d = rbrace then some (.obj [], after)
        else (scanMembers fuel (d :: after)).map fun found => (.obj found.1, found.2)
    else if c = lbracket then
      match skipSpace rest with
      | [] => none
      | d :: after =>
        if d = rbracket then some (.arr [], after)
        else (scanItems fuel (d :: after)).map fun found => (.arr found.1, found.2)
    else if c = 110 then literal (str "null") (c :: rest) .null
    else if c = 116 then literal (str "true") (c :: rest) (.bool true)
    else if c = 102 then literal (str "false") (c :: rest) (.bool false)
    else if c = 78 then literal (str "NaN") (c :: rest) (.float (str "NaN"))
    else if c = 73 then literal (str "Infinity") (c :: rest) (.float (str "Infinity"))
    else if str "-Infinity" <+: c :: rest then
      literal (str "-Infinity") (c :: rest) (.float (str "-Infinity"))
    else scanNumber (c :: rest)

def scanItems : ℕ → Str → Option (List Json × Str)
  | 0, _ => none
  | fuel + 1, text =>
    match scanOnce fuel text with
    | none => none
    | some (item, rest) =>
      match skipSpace rest with
      | [] => none
      | c :: rest =>
        if c = rbracket then some ([item], rest)
        else if c = comma then
          (scanItems fuel (skipSpace rest)).map fun found => (item :: found.1, found.2)
        else none

def scanMembers : ℕ → Str → Option (List (Str × Json) × Str)
  | 0, _ => none
  | _ + 1, [] => none
  | fuel + 1, c :: rest =>
    if c ≠ quote then none
    else match scanString rest.length rest with
      | none => none
      | some (key, rest) =>
        match skipSpace rest with
        | [] => none
        | c :: rest =>
          if c ≠ colon then none
          else match scanOnce fuel (skipSpace rest) with
            | none => none
            | some (value, rest) =>
              match skipSpace rest with
              | [] => none
              | c :: rest =>
                if c = rbrace then some ([(key, value)], rest)
                else if c = comma then
                  (scanMembers fuel (skipSpace rest)).map fun found =>
                    ((key, value) :: found.1, found.2)
                else none

end

/-- A whole document: one value, with nothing but blanks around it. -/
def decode (text : Str) : Option Json :=
  match scanOnce (2 * text.length + 2) (skipSpace text) with
  | none => none
  | some (value, rest) => if skipSpace rest = [] then some value else none

/-- A text given as such may not start with a byte order mark. -/
def loadsText (text : Str) : Option Json :=
  if [0xFEFF] <+: text then none else decode text

def loads (bytes : Bytes) : Option Json :=
  match decodeDetected bytes with
  | none => none
  | some text => decode text

end JsonTexts
