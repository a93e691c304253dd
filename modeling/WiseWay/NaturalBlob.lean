import Mathlib.Data.Char
import Mathlib.Data.List.SplitBy
import WiseWay.Fallible
import WiseWay.OrderedCodes
import WiseWay.SearchText

/-! # Natural order in bytes

`_natural_blob`: bytes, and their hexadecimal form, that are ordered like the natural keys of the
texts they come from. -/
namespace NaturalBlob

open Records SearchText OrderedCodes
open Fallible (bind_eq_ok)

abbrev Bytes := List UInt8

/-- `encode("utf-8")`. -/
def utf8 (text : Text) : Bytes := text.flatMap String.utf8EncodeChar

/-- `replace(b"\x00", b"\x00\xff")` on one byte. -/
def escapeByte (b : UInt8) : Bytes := if b = 0 then [0, 255] else [b]

def escaped (value : Text) : Bytes := (utf8 value).flatMap escapeByte

/-- `to_bytes(width, "big")` of a number that fits. -/
def bigEndian : ℕ → ℕ → Bytes
  | 0, _ => []
  | width + 1, n => bigEndian width (n / 256) ++ [UInt8.ofNat (n % 256)]

def toBytes (width n : ℕ) : Except SearchError Bytes :=
  if n < 256 ^ width then .ok (bigEndian width n) else .error .raised

/-- `str` of a number. -/
def magnitude (n : ℕ) : Text := Nat.toDigits 10 n

section Blob

variable (u : Unicode)

def chunkBlob (chunk : Text) : Except SearchError Bytes :=
  if chunk.all (isDecimal u) then do
    let digits := magnitude (intOf u chunk)
    let length ← toBytes 4 digits.length
    return 1 :: (length ++ utf8 digits ++ [0, 0])
  else return 2 :: (escaped (casefold u chunk) ++ [0, 0])

/-- `_natural_blob`. -/
def naturalBlob (value : Text) : Except SearchError Bytes :=
  List.flatten <$> (naturalChunks u value).mapM (chunkBlob u)

end Blob

/-- `bytes.hex`. -/
def hex (blob : Bytes) : Text :=
  blob.flatMap fun b => [Nat.digitChar (b.toNat / 16), Nat.digitChar (b.toNat % 16)]

/-! Characters. -/

theorem byte_lt {a b : ℕ} (h : a < b) (hb : b < 256) : UInt8.ofNat a < UInt8.ofNat b := by
  rw [UInt8.lt_iff_toNat_lt, UInt8.toNat_ofNat', UInt8.toNat_ofNat']
  omega

theorem utf8_separates : Separates (fun _ : Char => True) String.utf8EncodeChar := by
  intro c d _ _ h
  have hlt : c.val.toNat < d.val.toNat := h
  have hmax : d.val.toNat < 1114112 := by
    have hvalid := d.valid
    simp only [UInt32.isValidChar, Nat.isValidChar] at hvalid
    omega
  unfold String.utf8EncodeChar
  generalize c.val.toNat = v at *
  generalize d.val.toNat = w at *
  simp only
  by_cases hw1 : w ≤ 0x7f
  · rw [if_pos hw1, if_pos (show v ≤ 0x7f by omega)]
    exact .head (byte_lt hlt (by omega))
  rw [if_neg hw1]
  by_cases hw2 : w ≤ 0x7ff
  · rw [if_pos hw2]
    by_cases hv1 : v ≤ 0x7f
    · rw [if_pos hv1]
      exact .head (byte_lt (by omega) (by omega))
    rw [if_neg hv1, if_pos (show v ≤ 0x7ff by omega)]
    by_cases hlead : v / 64 < w / 64
    · exact .head (byte_lt (by omega) (by omega))
    · rw [show v / 64 = w / 64 by omega]
      exact .tail (.head (byte_lt (by omega) (by omega)))
  rw [if_neg hw2]
  by_cases hw3 : w ≤ 0xffff
  · rw [if_pos hw3]
    by_cases hv1 : v ≤ 0x7f
    · rw [if_pos hv1]
      exact .head (byte_lt (by omega) (by omega))
    rw [if_neg hv1]
    by_cases hv2 : v ≤ 0x7ff
    · rw [if_pos hv2]
      exact .head (byte_lt (by omega) (by omega))
    rw [if_neg hv2, if_pos (show v ≤ 0xffff by omega)]
    by_cases hlead : v / 4096 < w / 4096
    · exact .head (byte_lt (by omega) (by omega))
    rw [show v / 4096 = w / 4096 by omega]
    by_cases hnext : v / 64 < w / 64
    · exact .tail (.head (byte_lt (by omega) (by omega)))
    · rw [show v / 64 = w / 64 by omega]
      exact .tail (.tail (.head (byte_lt (by omega) (by omega))))
  rw [if_neg hw3]
  by_cases hv1 : v ≤ 0x7f
  · rw [if_pos hv1]
    exact .head (byte_lt (by omega) (by omega))
  rw [if_neg hv1]
  by_cases hv2 : v ≤ 0x7ff
  · rw [if_pos hv2]
    exact .head (byte_lt (by omega) (by omega))
  rw [if_neg hv2]
  by_cases hv3 : v ≤ 0xffff
  · rw [if_pos hv3]
    exact .head (byte_lt (by omega) (by omega))
  rw [if_neg hv3]
  by_cases hlead : v / 262144 < w / 262144
  · exact .head (byte_lt (by omega) (by omega))
  rw [show v / 262144 = w / 262144 by omega]
  by_cases hnext : v / 4096 < w / 4096
  · exact .tail (.head (byte_lt (by omega) (by omega)))
  rw [show v / 4096 = w / 4096 by omega]
  by_cases hthird : v / 64 < w / 64
  · exact .tail (.tail (.head (byte_lt (by omega) (by omega))))
  · rw [show v / 64 = w / 64 by omega]
    exact .tail (.tail (.tail (.head (byte_lt (by omega) (by omega)))))

theorem escapeByte_separates : Separates (fun _ : UInt8 => True) escapeByte := by
  intro a b _ _ h
  unfold escapeByte
  have hb : b ≠ 0 := by
    rintro rfl
    exact absurd h (by rw [UInt8.lt_iff_toNat_lt]; simp)
  rw [if_neg hb]
  split
  · rename_i ha
    exact .head (ha ▸ h)
  · exact .head h

theorem stop_escapeByte (b : UInt8) : Apart [0, 0] (escapeByte b) := by
  unfold escapeByte
  split
  · exact .tail (.head (by decide))
  · rename_i hb
    refine .head ?_
    rw [UInt8.lt_iff_toNat_lt]
    have hne : b.toNat ≠ 0 := fun h => hb (UInt8.toNat_inj.mp h)
    simpa using Nat.pos_of_ne_zero hne

theorem escaped_separates :
    Separates (fun _ : Text => True) fun text => escaped text ++ [0, 0] := by
  have hchar : Separates (fun _ : Char => True) fun c =>
      (String.utf8EncodeChar c).flatMap escapeByte := fun _ _ h =>
    (utf8_separates trivial trivial h).flatMap escapeByte_separates
  have hstop : ∀ c : Char, True → Apart [0, 0] ((String.utf8EncodeChar c).flatMap escapeByte) := by
    intro c _
    obtain ⟨b, rest, hbytes⟩ := List.exists_cons_of_ne_nil (String.utf8EncodeChar_ne_nil (c := c))
    rw [hbytes, List.flatMap_cons]
    simpa using (stop_escapeByte b).append [] (rest.flatMap escapeByte)
  intro a b _ _ h
  have hwords := separates_words hchar hstop (fun _ _ => trivial) (fun _ _ => trivial) h
  simp only [escaped, utf8, List.flatMap_assoc]
  exact hwords

/-! Numbers. -/

theorem bigEndian_apart {width a b : ℕ} (h : a < b) (hb : b < 256 ^ width) :
    Apart (bigEndian width a) (bigEndian width b) := by
  induction width generalizing a b with
  | zero => omega
  | succ width ih =>
    rw [pow_succ] at hb
    unfold bigEndian
    by_cases hdiv : a / 256 < b / 256
    · exact (ih hdiv (by omega)).append _ _
    · rw [show a / 256 = b / 256 by omega]
      exact (Apart.head (byte_lt (by omega) (by omega))).prepend _

theorem digitChar_lt {a b : ℕ} (h : a < b) (hb : b < 16) : Nat.digitChar a < Nat.digitChar b := by
  have hall : ∀ b < 16, ∀ a < b, Nat.digitChar a < Nat.digitChar b := by decide
  exact hall b hb a h

theorem magnitude_apart {a b : ℕ} (hlength : (magnitude a).length = (magnitude b).length)
    (h : a < b) : Apart (magnitude a) (magnitude b) := by
  unfold magnitude at *
  induction b using Nat.strong_induction_on generalizing a with
  | h b ih =>
    by_cases hb : b < 10
    · rw [Nat.toDigits_of_lt_base hb, Nat.toDigits_of_lt_base (h.trans hb)]
      exact .head (digitChar_lt h (by omega))
    have ha : ¬a < 10 := by
      intro ha
      rw [Nat.toDigits_of_lt_base ha] at hlength
      have hone := (Nat.length_toDigits_le_iff (by decide) Nat.one_pos).mp hlength.ge
      omega
    rw [Nat.toDigits_of_base_le (by decide) (not_lt.mp ha),
      Nat.toDigits_of_base_le (by decide) (not_lt.mp hb)] at hlength ⊢
    simp only [List.length_append, List.length_singleton, Nat.add_right_cancel_iff] at hlength
    by_cases hdiv : a / 10 < b / 10
    · exact (ih (b / 10) (by omega) hlength hdiv).append _ _
    · rw [show a / 10 = b / 10 by omega]
      exact (Apart.head (digitChar_lt (by omega) (by omega))).prepend _

theorem length_lt_of_lt {a b : ℕ} (h : a < b)
    (hne : (magnitude a).length ≠ (magnitude b).length) :
    (magnitude a).length < (magnitude b).length := by
  refine lt_of_le_of_ne ?_ hne
  have hb : b < 10 ^ (magnitude b).length :=
    (Nat.length_toDigits_le_iff (by decide) Nat.length_toDigits_pos).mp le_rfl
  exact (Nat.length_toDigits_le_iff (by decide) Nat.length_toDigits_pos).mpr (h.trans hb)

/-! Keys. -/

def partBlob : NaturalPart → Bytes
  | .inl n => 1 :: (bigEndian 4 (magnitude n).length ++ utf8 (magnitude n) ++ [0, 0])
  | .inr text => 2 :: (escaped text ++ [0, 0])

def Fits : NaturalPart → Prop
  | .inl n => (magnitude n).length < 256 ^ 4
  | .inr _ => True

theorem partBlob_separates : Separates Fits partBlob := by
  intro a b ha hb h
  cases h with
  | @inl n m h =>
    refine .tail ?_
    by_cases hlength : (magnitude n).length = (magnitude m).length
    · rw [hlength, List.append_assoc, List.append_assoc]
      refine Apart.prepend ?_ _
      exact ((magnitude_apart hlength h).flatMap utf8_separates).append _ _
    · rw [List.append_assoc, List.append_assoc]
      exact (bigEndian_apart (length_lt_of_lt h hlength) hb).append _ _
  | inr h => exact .tail (escaped_separates trivial trivial h)
  | sep => exact .head (by decide)

variable {u : Unicode}

/-- Every run of decimal digits is below `2 ^ 32` digits long. -/
def ShortRuns (u : Unicode) (value : Text) : Prop :=
  ∀ chunk ∈ naturalChunks u value, chunk.all (isDecimal u) = true → chunk.length < 2 ^ 32

theorem chunkBlob_eq (hu : DecimalDigits u) {value chunk : Text} (hruns : ShortRuns u value)
    (h : chunk ∈ naturalChunks u value) :
    chunkBlob u chunk = .ok (partBlob (naturalPart u chunk)) ∧ Fits (naturalPart u chunk) := by
  unfold chunkBlob naturalPart
  by_cases hdecimal : chunk.all (isDecimal u) = true
  · have hpos : 0 < chunk.length := List.length_pos_of_ne_nil (List.ne_nil_of_mem_splitBy h)
    have hlength : (magnitude (intOf u chunk)).length ≤ chunk.length :=
      (Nat.length_toDigits_le_iff (by decide) hpos).mpr (intOf_lt hu chunk)
    have hfits : (magnitude (intOf u chunk)).length < 256 ^ 4 :=
      hlength.trans_lt (hruns chunk h hdecimal)
    rw [if_pos hdecimal, if_pos hdecimal]
    refine ⟨?_, hfits⟩
    simp only [toBytes, if_pos hfits]
    rfl
  · rw [if_neg hdecimal, if_neg hdecimal]
    exact ⟨rfl, trivial⟩

theorem naturalBlob_eq (hu : DecimalDigits u) {value : Text} (hruns : ShortRuns u value) :
    naturalBlob u value = .ok ((naturalKey u value).flatMap partBlob) ∧
      ∀ part ∈ naturalKey u value, Fits part := by
  have hchunks : ∀ chunk ∈ naturalChunks u value,
      chunkBlob u chunk = .ok (partBlob (naturalPart u chunk)) ∧ Fits (naturalPart u chunk) :=
    fun chunk h => chunkBlob_eq hu hruns h
  unfold naturalBlob naturalKey
  constructor
  · rw [Fallible.mapM_eq_map fun chunk h => (hchunks chunk h).1]
    simp [Functor.map, Except.map, List.flatMap, Function.comp_def]
  · intro part hpart
    obtain ⟨chunk, hchunk, rfl⟩ := List.mem_map.mp hpart
    exact (hchunks chunk hchunk).2

theorem hex_separates : Separates (fun _ : UInt8 => True) fun b =>
    [Nat.digitChar (b.toNat / 16), Nat.digitChar (b.toNat % 16)] := by
  intro a b _ _ h
  have hlt : a.toNat < b.toNat := h
  have hmax := b.toNat_lt
  by_cases hhigh : a.toNat / 16 < b.toNat / 16
  · exact .head (digitChar_lt hhigh (by omega))
  · simp only [show a.toNat / 16 = b.toNat / 16 by omega]
    exact .tail (.head (digitChar_lt (by omega) (by omega)))

theorem hex_lt {a b : Bytes} (h : a < b) : hex a < hex b :=
  flatMap_lt hex_separates (fun _ _ => by simp) (fun _ _ => trivial) (fun _ _ => trivial) h

/-- The blobs of two texts, and their hexadecimal forms, compare like the natural keys. -/
theorem natural_blob_order (hu : DecimalDigits u) {a b : Text} (ha : ShortRuns u a)
    (hb : ShortRuns u b) :
    ∃ blobA blobB, naturalBlob u a = .ok blobA ∧ naturalBlob u b = .ok blobB ∧
      (blobA < blobB ↔ naturalKey u a < naturalKey u b) ∧
      (blobA = blobB ↔ naturalKey u a = naturalKey u b) ∧
      (hex blobA < hex blobB ↔ naturalKey u a < naturalKey u b) ∧
      (hex blobA = hex blobB ↔ naturalKey u a = naturalKey u b) := by
  obtain ⟨hblobA, hfitsA⟩ := naturalBlob_eq hu ha
  obtain ⟨hblobB, hfitsB⟩ := naturalBlob_eq hu hb
  have hblob : ∀ {k l : NaturalKey}, (∀ part ∈ k, Fits part) → (∀ part ∈ l, Fits part) → k < l →
      k.flatMap partBlob < l.flatMap partBlob := by
    intro k l hk hl h
    refine flatMap_lt partBlob_separates (fun part _ => ?_) hk hl h
    cases part with
    | inl _ => simp [partBlob]
    | inr _ => simp [partBlob]
  have hhex : ∀ {k l : NaturalKey}, (∀ part ∈ k, Fits part) → (∀ part ∈ l, Fits part) → k < l →
      hex (k.flatMap partBlob) < hex (l.flatMap partBlob) := fun hk hl h => hex_lt (hblob hk hl h)
  obtain ⟨hlt, heq⟩ := lt_iff_and_eq_iff hblob hfitsA hfitsB
  obtain ⟨hhexLt, hhexEq⟩ := lt_iff_and_eq_iff hhex hfitsA hfitsB
  exact ⟨_, _, hblobA, hblobB, hlt, heq, hhexLt, hhexEq⟩

theorem natural_blob_order_ascii :
    ∃ blobA blobB, naturalBlob ascii "a2".toList = .ok blobA ∧
      naturalBlob ascii "a10".toList = .ok blobB ∧
      (blobA < blobB ↔ naturalKey ascii "a2".toList < naturalKey ascii "a10".toList) ∧
      (blobA = blobB ↔ naturalKey ascii "a2".toList = naturalKey ascii "a10".toList) ∧
      (hex blobA < hex blobB ↔ naturalKey ascii "a2".toList < naturalKey ascii "a10".toList) ∧
      (hex blobA = hex blobB ↔ naturalKey ascii "a2".toList = naturalKey ascii "a10".toList) :=
  natural_blob_order decimalDigits_ascii (by unfold ShortRuns; decide +kernel)
    (by unfold ShortRuns; decide +kernel)

end NaturalBlob
