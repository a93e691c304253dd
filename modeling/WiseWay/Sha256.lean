import Mathlib.Data.List.Basic
import Mathlib.Tactic.Common
import WiseWay.JsonTexts

/-! # SHA-256

The digest of a byte string, written as 64 lowercase hexadecimal digits. Words are numbers
below 2 ^ 32. -/
namespace Sha256

open TextCodecs JsonTexts

def wordSize : ℕ := 0x100000000

def rotr (n x : ℕ) : ℕ := (x >>> n ||| x <<< (32 - n)) % wordSize

def smallSigma0 (x : ℕ) : ℕ := rotr 7 x ^^^ rotr 18 x ^^^ x >>> 3

def smallSigma1 (x : ℕ) : ℕ := rotr 17 x ^^^ rotr 19 x ^^^ x >>> 10

def bigSigma0 (x : ℕ) : ℕ := rotr 2 x ^^^ rotr 13 x ^^^ rotr 22 x

def bigSigma1 (x : ℕ) : ℕ := rotr 6 x ^^^ rotr 11 x ^^^ rotr 25 x

def choose (x y z : ℕ) : ℕ := (x &&& y) ^^^ ((wordSize - 1 - x) &&& z)

def majority (x y z : ℕ) : ℕ := (x &&& y) ^^^ (x &&& z) ^^^ (y &&& z)

/-- The first 32 bits of the fractional parts of the cube roots of the first 64 primes. -/
def roundConstants : List ℕ := [
    0x428a2f98, 0x71374491, 0xb5c0fbcf, 0xe9b5dba5, 0x3956c25b, 0x59f111f1, 0x923f82a4, 0xab1c5ed5,
    0xd807aa98, 0x12835b01, 0x243185be, 0x550c7dc3, 0x72be5d74, 0x80deb1fe, 0x9bdc06a7, 0xc19bf174,
    0xe49b69c1, 0xefbe4786, 0x0fc19dc6, 0x240ca1cc, 0x2de92c6f, 0x4a7484aa, 0x5cb0a9dc, 0x76f988da,
    0x983e5152, 0xa831c66d, 0xb00327c8, 0xbf597fc7, 0xc6e00bf3, 0xd5a79147, 0x06ca6351, 0x14292967,
    0x27b70a85, 0x2e1b2138, 0x4d2c6dfc, 0x53380d13, 0x650a7354, 0x766a0abb, 0x81c2c92e, 0x92722c85,
    0xa2bfe8a1, 0xa81a664b, 0xc24b8b70, 0xc76c51a3, 0xd192e819, 0xd6990624, 0xf40e3585, 0x106aa070,
    0x19a4c116, 0x1e376c08, 0x2748774c, 0x34b0bcb5, 0x391c0cb3, 0x4ed8aa4a, 0x5b9cca4f, 0x682e6ff3,
    0x748f82ee, 0x78a5636f, 0x84c87814, 0x8cc70208, 0x90befffa, 0xa4506ceb, 0xbef9a3f7, 0xc67178f2]

structure Working where
  a : ℕ
  b : ℕ
  c : ℕ
  d : ℕ
  e : ℕ
  f : ℕ
  g : ℕ
  h : ℕ
  deriving DecidableEq

/-- The first 32 bits of the fractional parts of the square roots of the first 8 primes. -/
def initial : Working := ⟨
    0x6a09e667, 0xbb67ae85, 0x3c6ef372, 0xa54ff53a,
    0x510e527f, 0x9b05688c, 0x1f83d9ab, 0x5be0cd19⟩

def schedule : ℕ → List ℕ → List ℕ
  | 0, words => words
  | n + 1, words =>
    let word := (smallSigma1 (words.getD 1 0) + words.getD 6 0 + smallSigma0 (words.getD 14 0) +
      words.getD 15 0) % wordSize
    schedule n (word :: words)

def round (w : Working) (input : ℕ × ℕ) : Working :=
  let first := w.h + bigSigma1 w.e + choose w.e w.f w.g + input.1 + input.2
  let second := bigSigma0 w.a + majority w.a w.b w.c
  ⟨(first + second) % wordSize, w.a, w.b, w.c, (w.d + first) % wordSize, w.e, w.f, w.g⟩

def compress (hash : Working) (block : List ℕ) : Working :=
  let words := (schedule 48 block.reverse).reverse
  let w := (roundConstants.zip words).foldl round hash
  ⟨(hash.a + w.a) % wordSize, (hash.b + w.b) % wordSize, (hash.c + w.c) % wordSize,
    (hash.d + w.d) % wordSize, (hash.e + w.e) % wordSize, (hash.f + w.f) % wordSize,
    (hash.g + w.g) % wordSize, (hash.h + w.h) % wordSize⟩

def wordsOf : Bytes → List ℕ
  | a :: b :: c :: d :: rest =>
    (((a.toNat * 256 + b.toNat) * 256 + c.toNat) * 256 + d.toNat) :: wordsOf rest
  | _ => []

/-- The message with its closing bit, zeros up to a whole number of blocks, and its length. -/
def padded (message : Bytes) : List ℕ :=
  let zeros := (119 - message.length % 64) % 64
  let bits := 8 * message.length
  wordsOf (message ++ 0x80 :: List.replicate zeros 0) ++
    [bits / wordSize % wordSize, bits % wordSize]

def compressBlocks : ℕ → Working → List ℕ → Working
  | 0, hash, _ => hash
  | n + 1, hash, words => compressBlocks n (compress hash (words.take 16)) (words.drop 16)

def hash (message : Bytes) : Working :=
  compressBlocks ((padded message).length / 16) initial (padded message)

def hex8 (word : ℕ) : Str := hex4 (word / 0x10000) ++ hex4 word

def hexdigest (message : Bytes) : Str :=
  let w := hash message
  hex8 w.a ++ hex8 w.b ++ hex8 w.c ++ hex8 w.d ++ hex8 w.e ++ hex8 w.f ++ hex8 w.g ++ hex8 w.h

def HexDigit (c : ℕ) : Prop := c ∈ str "0123456789abcdef"

instance (c : ℕ) : Decidable (HexDigit c) := inferInstanceAs (Decidable (_ ∈ _))

theorem hexDigit_mod (n : ℕ) : HexDigit (hexDigit (n % 16)) := by
  have hall : ∀ d < 16, HexDigit (hexDigit d) := by decide
  exact hall _ (Nat.mod_lt n (by decide))

theorem hexDigit_hex4 (unit : ℕ) : ∀ c ∈ hex4 unit, HexDigit c := by
  intro c hc
  simp only [hex4, List.mem_cons, List.not_mem_nil, or_false] at hc
  rcases hc with rfl | rfl | rfl | rfl
  all_goals apply hexDigit_mod

theorem hexDigit_hex8 (word : ℕ) : ∀ c ∈ hex8 word, HexDigit c := by
  intro c hc
  rcases List.mem_append.mp hc with hc | hc
  · exact hexDigit_hex4 _ c hc
  · exact hexDigit_hex4 _ c hc

theorem length_hexdigest (message : Bytes) : (hexdigest message).length = 64 := rfl

theorem hexDigit_hexdigest (message : Bytes) : ∀ c ∈ hexdigest message, HexDigit c := by
  intro c hc
  simp only [hexdigest, List.mem_append, or_assoc] at hc
  rcases hc with hc | hc | hc | hc | hc | hc | hc | hc
  all_goals exact hexDigit_hex8 _ c hc

set_option maxRecDepth 10000 in
example : hexdigest (ascii (str "abc")) =
    str "ba7816bf8f01cfea414140de5dae2223b00361a396177a9cb410ff61f20015ad" := by
  decide +kernel

end Sha256
