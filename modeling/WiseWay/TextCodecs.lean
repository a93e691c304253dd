import Mathlib.Data.List.Basic
import Mathlib.Tactic.Common

/-! # Text as code points, and its byte encodings

A text is a list of code points, lone surrogates included, since file names that are not
valid UTF-8 carry them. The decoders follow the error handlers `strict` and `surrogatepass`. -/
namespace TextCodecs

abbrev Str := List ℕ

abbrev Bytes := List UInt8

def str (s : String) : Str := s.toList.map Char.toNat

/-- The bytes of a text all of whose code points are below 128. -/
def ascii (s : Str) : Bytes := s.map UInt8.ofNat

def HighSurrogate (c : ℕ) : Prop := 0xD800 ≤ c ∧ c < 0xDC00

def LowSurrogate (c : ℕ) : Prop := 0xDC00 ≤ c ∧ c < 0xE000

instance (c : ℕ) : Decidable (HighSurrogate c) := inferInstanceAs (Decidable (_ ∧ _))

instance (c : ℕ) : Decidable (LowSurrogate c) := inferInstanceAs (Decidable (_ ∧ _))

def Surrogate (c : ℕ) : Prop := HighSurrogate c ∨ LowSurrogate c

instance (c : ℕ) : Decidable (Surrogate c) := inferInstanceAs (Decidable (_ ∨ _))

def joinSurrogates (high low : ℕ) : ℕ := 0x10000 + (high - 0xD800) * 0x400 + (low - 0xDC00)

/-! ## UTF-8 -/

def Continues (b : UInt8) : Prop := 0x80 ≤ b.toNat ∧ b.toNat < 0xC0

instance (b : UInt8) : Decidable (Continues b) := inferInstanceAs (Decidable (_ ∧ _))

/-- Decoding with the handler `surrogatepass`, or `strict` when `pass` is off. -/
def decodeUtf8 (pass : Bool) : Bytes → Option Str
  | [] => some []
  | a :: rest =>
    if a.toNat < 0x80 then (decodeUtf8 pass rest).map (a.toNat :: ·)
    else match rest with
      | [] => none
      | b :: rest =>
        if ¬ Continues b then none
        else if 0xC2 ≤ a.toNat ∧ a.toNat < 0xE0 then
          (decodeUtf8 pass rest).map (((a.toNat - 0xC0) * 64 + (b.toNat - 0x80)) :: ·)
        else match rest with
          | [] => none
          | c :: rest =>
            if ¬ Continues c then none
            else if 0xE0 ≤ a.toNat ∧ a.toNat < 0xF0 then
              let point := (a.toNat - 0xE0) * 4096 + (b.toNat - 0x80) * 64 + (c.toNat - 0x80)
              -- an overlong form is refused, a surrogate only in strict mode
              if point < 0x800 ∨ (Surrogate point ∧ pass = false) then none
              else (decodeUtf8 pass rest).map (point :: ·)
            else match rest with
              | [] => none
              | d :: rest =>
                let point := (a.toNat - 0xF0) * 262144 + (b.toNat - 0x80) * 4096 +
                  (c.toNat - 0x80) * 64 + (d.toNat - 0x80)
                if ¬ Continues d ∨ a.toNat < 0xF0 ∨ point < 0x10000 ∨ 0x10FFFF < point then none
                else (decodeUtf8 pass rest).map (point :: ·)

/-! ## UTF-16 and UTF-32, with `surrogatepass` -/

def units16 (big : Bool) : Bytes → Option (List ℕ)
  | [] => some []
  | [_] => none
  | a :: b :: rest =>
    let unit := if big then a.toNat * 256 + b.toNat else b.toNat * 256 + a.toNat
    (units16 big rest).map (unit :: ·)

def joinUnits : List ℕ → Str
  | [] => []
  | [unit] => [unit]
  | high :: low :: rest =>
    if HighSurrogate high ∧ LowSurrogate low then joinSurrogates high low :: joinUnits rest
    else high :: joinUnits (low :: rest)

def decodeUtf16 (big : Bool) (bytes : Bytes) : Option Str := (units16 big bytes).map joinUnits

def decodeUtf32 (big : Bool) : Bytes → Option Str
  | [] => some []
  | a :: b :: c :: d :: rest =>
    let point := if big then
        a.toNat * 16777216 + b.toNat * 65536 + c.toNat * 256 + d.toNat
      else d.toNat * 16777216 + c.toNat * 65536 + b.toNat * 256 + a.toNat
    if 0x10FFFF < point then none else (decodeUtf32 big rest).map (point :: ·)
  | _ => none

/-! ## The encoding of a JSON document -/

inductive Encoding
  | utf32Bom (big : Bool)
  | utf16Bom (big : Bool)
  | utf8Sig
  | utf16 (big : Bool)
  | utf32 (big : Bool)
  | utf8
  deriving DecidableEq

def detectShape : Bytes → Encoding
  | a :: b :: c :: d :: _ =>
    if a = 0 then if b = 0 then .utf32 true else .utf16 true
    else if b = 0 then if c = 0 ∧ d = 0 then .utf32 false else .utf16 false
    else .utf8
  | [a, b] => if a = 0 then .utf16 true else if b = 0 then .utf16 false else .utf8
  | _ => .utf8

def detectEncoding (bytes : Bytes) : Encoding :=
  if [0x00, 0x00, 0xFE, 0xFF] <+: bytes then .utf32Bom true
  else if [0xFF, 0xFE, 0x00, 0x00] <+: bytes then .utf32Bom false
  else if [0xFE, 0xFF] <+: bytes then .utf16Bom true
  else if [0xFF, 0xFE] <+: bytes then .utf16Bom false
  else if [0xEF, 0xBB, 0xBF] <+: bytes then .utf8Sig
  else detectShape bytes

def decodeDetected (bytes : Bytes) : Option Str :=
  match detectEncoding bytes with
  | .utf32Bom big => decodeUtf32 big (bytes.drop 4)
  | .utf16Bom big => decodeUtf16 big (bytes.drop 2)
  | .utf8Sig => decodeUtf8 true (bytes.drop 3)
  | .utf16 big => decodeUtf16 big bytes
  | .utf32 big => decodeUtf32 big bytes
  | .utf8 => decodeUtf8 true bytes

/-! ## ASCII text reads back -/

/-- A printable ASCII code point, tilde included. -/
def Printable (c : ℕ) : Prop := 32 ≤ c ∧ c < 127

instance (c : ℕ) : Decidable (Printable c) := inferInstanceAs (Decidable (_ ∧ _))

theorem printable_byte {c : ℕ} (h : Printable c) : (UInt8.ofNat c).toNat = c := by
  have hc : c < 127 := h.2
  rw [UInt8.toNat_ofNat']
  omega

theorem decodeUtf8_ascii {pass : Bool} {s : Str} (h : ∀ c ∈ s, Printable c) :
    decodeUtf8 pass (ascii s) = some s := by
  induction s with
  | nil => rfl
  | cons c s ih =>
    have hc : Printable c := h c List.mem_cons_self
    have hlow : (UInt8.ofNat c).toNat < 0x80 := by
      have hc' : c < 127 := hc.2
      rw [printable_byte hc]
      omega
    have hrest := ih fun x hx => h x (List.mem_cons_of_mem _ hx)
    show decodeUtf8 pass (UInt8.ofNat c :: ascii s) = _
    rw [decodeUtf8.eq_def]
    simp only
    rw [if_pos hlow, hrest, Option.map_some, printable_byte hc]

theorem detectShape_plain {bytes : Bytes} (h : ∀ b ∈ bytes, b ≠ 0) :
    detectShape bytes = .utf8 := by
  unfold detectShape
  split
  · next a b c d rest =>
    have ha : a ≠ 0 := h a (by simp)
    have hb : b ≠ 0 := h b (by simp)
    rw [if_neg ha, if_neg hb]
  · next a b =>
    have ha : a ≠ 0 := h a (by simp)
    have hb : b ≠ 0 := h b (by simp)
    rw [if_neg ha, if_neg hb]
  · rfl

theorem detectEncoding_ascii {s : Str} (h : ∀ c ∈ s, Printable c) :
    detectEncoding (ascii s) = .utf8 := by
  have hbyte : ∀ b ∈ ascii s, 32 ≤ b.toNat ∧ b.toNat < 127 := by
    intro b hb
    obtain ⟨c, hc, rfl⟩ := List.mem_map.mp hb
    rw [printable_byte (h c hc)]
    exact h c hc
  -- each byte order mark has a byte that no printable text has
  have hmark : ∀ (mark : Bytes) (b : UInt8), b ∈ mark → ¬ (32 ≤ b.toNat ∧ b.toNat < 127) →
      ¬ mark <+: ascii s := by
    intro mark b hb hout hpre
    exact hout (hbyte b (hpre.subset hb))
  rw [detectEncoding, if_neg (hmark _ 0xFE (by decide) (by decide)),
    if_neg (hmark _ 0xFF (by decide) (by decide)), if_neg (hmark _ 0xFE (by decide) (by decide)),
    if_neg (hmark _ 0xFF (by decide) (by decide)), if_neg (hmark _ 0xEF (by decide) (by decide))]
  apply detectShape_plain
  intro b hb hzero
  have hb := (hbyte b hb).1
  rw [hzero] at hb
  exact absurd hb (by decide)

theorem decodeDetected_ascii {s : Str} (h : ∀ c ∈ s, Printable c) :
    decodeDetected (ascii s) = some s := by
  rw [decodeDetected, detectEncoding_ascii h]
  exact decodeUtf8_ascii h

end TextCodecs
