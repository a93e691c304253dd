import Mathlib.Data.Int.Log
import Mathlib.Data.Rat.Floor
import Mathlib.Tactic.Linarith
import Mathlib.Tactic.NormNum

/-! # Nearest doubles

A rational number rounded to 53 significant bits, ties to even. Numbers that are further apart
than the last bit of the larger one keep their order. -/
namespace Doubles

/-- The nearest integer, the even one of two. -/
def roundEven (q : ℚ) : ℤ :=
  if 2 * (q - ⌊q⌋) < 1 then ⌊q⌋
  else if 1 < 2 * (q - ⌊q⌋) then ⌊q⌋ + 1
  else if ⌊q⌋ % 2 = 0 then ⌊q⌋ else ⌊q⌋ + 1

/-- The exponent of the last of 53 bits. -/
def lastBit (q : ℚ) : ℤ := Int.log 2 |q| - 52

/-- The nearest double of a number whose exponent a double can have. -/
def double (q : ℚ) : ℚ :=
  if q = 0 then 0 else roundEven (q / 2 ^ lastBit q) * 2 ^ lastBit q

theorem abs_roundEven_sub_le (q : ℚ) : |(roundEven q : ℚ) - q| ≤ 1 / 2 := by
  have hlow := Int.floor_le q
  have hhigh := Int.lt_floor_add_one q
  unfold roundEven
  rw [abs_le]
  split
  · constructor <;> linarith
  · split
    · push_cast
      constructor <;> linarith
    · split
      · constructor <;> linarith
      · push_cast
        constructor <;> linarith

theorem le_roundEven {m : ℤ} {q : ℚ} (h : (m : ℚ) ≤ q) : m ≤ roundEven q := by
  have hfloor : m ≤ ⌊q⌋ := Int.le_floor.mpr h
  unfold roundEven
  split
  · exact hfloor
  · split
    · omega
    · split <;> omega

theorem roundEven_le {m : ℤ} {q : ℚ} (h : q ≤ m) : roundEven q ≤ m := by
  have hfloor : ⌊q⌋ ≤ m := Int.floor_le_iff.mpr (by linarith)
  by_cases heq : ⌊q⌋ = m
  · have hq : q = m := le_antisymm h (heq ▸ Int.floor_le q)
    have hfrac : 2 * (q - ⌊q⌋) < 1 := by
      rw [heq, hq]
      norm_num
    unfold roundEven
    rw [if_pos hfrac]
    exact hfloor
  · unfold roundEven
    split
    · exact hfloor
    · split
      · omega
      · split <;> omega

theorem pow_lastBit_pos (q : ℚ) : (0 : ℚ) < 2 ^ lastBit q :=
  zpow_pos (by norm_num) _

theorem abs_double_sub_le (q : ℚ) : |double q - q| ≤ 2 ^ lastBit q / 2 := by
  have hpos := pow_lastBit_pos q
  unfold double
  split
  · rename_i h
    rw [h] at hpos ⊢
    rw [sub_self, abs_zero]
    linarith
  · have hround := abs_roundEven_sub_le (q / 2 ^ lastBit q)
    have hq : (roundEven (q / 2 ^ lastBit q) : ℚ) * 2 ^ lastBit q - q =
        ((roundEven (q / 2 ^ lastBit q) : ℚ) - q / 2 ^ lastBit q) * 2 ^ lastBit q := by
      rw [sub_mul, div_mul_cancel₀ _ hpos.ne']
    rw [hq, abs_mul, abs_of_pos hpos]
    calc _ ≤ 1 / 2 * 2 ^ lastBit q := mul_le_mul_of_nonneg_right hround hpos.le
      _ = _ := by ring

theorem lastBit_le {k : ℤ} {q : ℚ} (hq : q ≠ 0) (h : |q| < 2 ^ k) : lastBit q ≤ k - 53 := by
  have hlog := Int.zpow_log_le_self (R := ℚ) (b := 2) (by norm_num) (abs_pos.mpr hq)
  have hlt : ((2 : ℕ) : ℚ) ^ Int.log 2 |q| < (2 : ℚ) ^ k := hlog.trans_lt h
  have := (zpow_lt_zpow_iff_right₀ (by norm_num : (1 : ℚ) < 2)).mp (by exact_mod_cast hlt)
  unfold lastBit
  omega

theorem abs_double_sub_lt {k : ℤ} {q : ℚ} (h : |q| < 2 ^ k) :
    |double q - q| ≤ 2 ^ (k - 53) / 2 := by
  by_cases hq : q = 0
  · subst hq
    have : (0 : ℚ) < 2 ^ (k - 53) := zpow_pos (by norm_num) _
    rw [double, if_pos rfl, sub_self, abs_zero]
    linarith
  · refine (abs_double_sub_le q).trans ?_
    have := zpow_le_zpow_right₀ (by norm_num : (1 : ℚ) ≤ 2) (lastBit_le hq h)
    linarith

theorem pow_eq_lastBit (q : ℚ) :
    (2 : ℚ) ^ Int.log 2 |q| = ((2 ^ 52 : ℤ) : ℚ) * 2 ^ lastBit q := by
  have hadd : (2 : ℚ) ^ ((52 : ℤ) + lastBit q) = 2 ^ (52 : ℤ) * 2 ^ lastBit q :=
    zpow_add₀ (by norm_num) _ _
  rw [show Int.log 2 |q| = 52 + lastBit q by unfold lastBit; omega, hadd]
  norm_num

theorem pow_log_le {q : ℚ} (hq : q ≠ 0) : (2 : ℚ) ^ Int.log 2 |q| ≤ |q| := by
  have := Int.zpow_log_le_self (R := ℚ) (b := 2) (by norm_num) (abs_pos.mpr hq)
  exact_mod_cast this

theorem le_log {k : ℤ} {q : ℚ} (hq : q ≠ 0) (h : 2 ^ k ≤ |q|) : k ≤ Int.log 2 |q| :=
  (Int.zpow_le_iff_le_log (b := 2) (by norm_num) (abs_pos.mpr hq)).mp (by exact_mod_cast h)

theorem le_double {k : ℤ} {q : ℚ} (h : 2 ^ k ≤ q) : 2 ^ k ≤ double q := by
  have hpos : (0 : ℚ) < 2 ^ k := zpow_pos (by norm_num) _
  have hq : 0 < q := hpos.trans_le h
  have hbit := pow_lastBit_pos q
  have habs := abs_of_pos hq
  have hround : (2 ^ 52 : ℤ) ≤ roundEven (q / 2 ^ lastBit q) := by
    refine le_roundEven ((le_div_iff₀ hbit).mpr ?_)
    rw [← pow_eq_lastBit]
    exact (pow_log_le hq.ne').trans habs.le
  calc (2 : ℚ) ^ k ≤ 2 ^ Int.log 2 |q| :=
        zpow_le_zpow_right₀ (by norm_num) (le_log hq.ne' (by rwa [habs]))
    _ = ((2 ^ 52 : ℤ) : ℚ) * 2 ^ lastBit q := pow_eq_lastBit q
    _ ≤ roundEven (q / 2 ^ lastBit q) * 2 ^ lastBit q :=
        mul_le_mul_of_nonneg_right (by exact_mod_cast hround) hbit.le
    _ = double q := by rw [double, if_neg hq.ne']

theorem double_le {k : ℤ} {q : ℚ} (h : q ≤ -2 ^ k) : double q ≤ -2 ^ k := by
  have hpos : (0 : ℚ) < 2 ^ k := zpow_pos (by norm_num) _
  have hq : q < 0 := h.trans_lt (neg_neg_of_pos hpos)
  have hbit := pow_lastBit_pos q
  have habs := abs_of_neg hq
  have hround : roundEven (q / 2 ^ lastBit q) ≤ -(2 ^ 52 : ℤ) := by
    refine roundEven_le ((div_le_iff₀ hbit).mpr ?_)
    rw [Int.cast_neg, neg_mul, ← pow_eq_lastBit, le_neg]
    exact (pow_log_le hq.ne).trans habs.le
  calc double q = roundEven (q / 2 ^ lastBit q) * 2 ^ lastBit q := by rw [double, if_neg hq.ne]
    _ ≤ ((-(2 ^ 52) : ℤ) : ℚ) * 2 ^ lastBit q :=
        mul_le_mul_of_nonneg_right (by exact_mod_cast hround) hbit.le
    _ = -2 ^ Int.log 2 |q| := by rw [Int.cast_neg, neg_mul, ← pow_eq_lastBit]
    _ ≤ -2 ^ k := neg_le_neg
        (zpow_le_zpow_right₀ (by norm_num) (le_log hq.ne (by rw [habs]; linarith)))

/-! Numbers that a last bit tells apart. -/

section Apart

variable {k : ℤ} {a b : ℚ} (hapart : a + 2 ^ (k - 53) < b)

include hapart

theorem double_lt_of_left (hlow : -2 ^ k < a) (hhigh : a + 2 ^ (k - 53) < 2 ^ k) :
    double a < double b := by
  have hulp : (0 : ℚ) < 2 ^ (k - 53) := zpow_pos (by norm_num) _
  have ha := abs_le.mp (abs_double_sub_lt (abs_lt.mpr ⟨hlow, by linarith⟩))
  by_cases hb : b < 2 ^ k
  · have hb' := abs_le.mp (abs_double_sub_lt (abs_lt.mpr ⟨by linarith, hb⟩))
    linarith [ha.2, hb'.1]
  · have := le_double (not_lt.mp hb)
    linarith [ha.2]

theorem double_lt_of_right (hlow : -2 ^ k + 2 ^ (k - 53) < b) (hhigh : b < 2 ^ k) :
    double a < double b := by
  have hulp : (0 : ℚ) < 2 ^ (k - 53) := zpow_pos (by norm_num) _
  have hb := abs_le.mp (abs_double_sub_lt (abs_lt.mpr ⟨by linarith, hhigh⟩))
  by_cases ha : -2 ^ k < a
  · have ha' := abs_le.mp (abs_double_sub_lt (abs_lt.mpr ⟨ha, by linarith⟩))
    linarith [hb.1, ha'.2]
  · have := double_le (not_lt.mp ha)
    linarith [hb.1]

end Apart

/-! Integers. Up to 2 ^ 53 they are doubles, and from there on not every one is. -/

theorem roundEven_intCast (m : ℤ) : roundEven m = m :=
  le_antisymm (roundEven_le le_rfl) (le_roundEven le_rfl)

theorem double_of_multiple {q : ℚ} {m : ℤ} (h : q = m * 2 ^ lastBit q) : double q = q := by
  by_cases hq : q = 0
  · rw [hq, double, if_pos rfl]
  · have hdiv : q / 2 ^ lastBit q = m := by
      rw [div_eq_iff (pow_lastBit_pos q).ne']
      exact h
    rw [double, if_neg hq, hdiv, roundEven_intCast, ← h]

theorem double_natCast {n : ℕ} (h : n < 2 ^ 53) : double n = n := by
  by_cases hn : n = 0
  · rw [hn, Nat.cast_zero, double, if_pos rfl]
  · have hq : (n : ℚ) ≠ 0 := Nat.cast_ne_zero.mpr hn
    have hlt : |(n : ℚ)| < 2 ^ (53 : ℤ) := by
      rw [abs_of_nonneg (Nat.cast_nonneg n)]
      exact_mod_cast h
    have hbit := lastBit_le hq hlt
    obtain ⟨k, hk⟩ := Int.eq_ofNat_of_zero_le (by omega : 0 ≤ -lastBit (n : ℚ))
    apply double_of_multiple (m := n * 2 ^ k)
    rw [show lastBit (n : ℚ) = -(k : ℤ) by omega, zpow_neg, zpow_natCast]
    push_cast
    rw [mul_assoc, mul_inv_cancel₀ (pow_ne_zero k (by norm_num)), mul_one]

theorem lastBit_two_pow_53 {n : ℕ} (hlow : 2 ^ 53 ≤ n) (hhigh : n < 2 ^ 54) :
    lastBit (n : ℚ) = 1 := by
  have hq : (n : ℚ) ≠ 0 := by
    have : 0 < n := lt_of_lt_of_le (by norm_num) hlow
    exact_mod_cast this.ne'
  have habs : |(n : ℚ)| = n := abs_of_nonneg (Nat.cast_nonneg n)
  have hge : (53 : ℤ) ≤ Int.log 2 |(n : ℚ)| := by
    apply le_log hq
    rw [habs]
    exact_mod_cast hlow
  have hle : lastBit (n : ℚ) ≤ 54 - 53 := by
    apply lastBit_le hq
    rw [habs]
    exact_mod_cast hhigh
  unfold lastBit at hle ⊢
  omega

theorem double_two_pow_53 : double ((2 ^ 53 : ℕ) : ℚ) = (2 ^ 53 : ℕ) := by
  apply double_of_multiple (m := 2 ^ 52)
  rw [lastBit_two_pow_53 le_rfl (by norm_num)]
  norm_num

theorem double_two_pow_53_succ : double ((2 ^ 53 + 1 : ℕ) : ℚ) = (2 ^ 53 : ℕ) := by
  have hround : roundEven (((2 ^ 53 + 1 : ℕ) : ℚ) / 2 ^ (1 : ℤ)) = 2 ^ 52 := by
    have hfloor : ⌊((2 ^ 53 + 1 : ℕ) : ℚ) / 2 ^ (1 : ℤ)⌋ = 2 ^ 52 := by
      rw [Int.floor_eq_iff]
      constructor <;> norm_num
    unfold roundEven
    rw [hfloor]
    norm_num
  rw [double, if_neg (by norm_num), lastBit_two_pow_53 (by norm_num) (by norm_num), hround]
  norm_num

theorem lt_double_natCast {n : ℕ} (h : 2 ^ 53 + 2 ≤ n) : ((2 ^ 53 : ℕ) : ℚ) < double n := by
  by_cases hhigh : n < 2 ^ 54
  · have hround : (2 ^ 52 + 1 : ℤ) ≤ roundEven ((n : ℚ) / 2 ^ (1 : ℤ)) := by
      apply le_roundEven
      rw [zpow_one, le_div_iff₀ (by norm_num)]
      push_cast
      have : ((2 ^ 53 + 2 : ℕ) : ℚ) ≤ n := by exact_mod_cast h
      push_cast at this
      linarith
    have hn : (n : ℚ) ≠ 0 := by
      have : 0 < n := lt_of_lt_of_le (by norm_num) h
      exact_mod_cast this.ne'
    have hcast : ((2 ^ 52 + 1 : ℤ) : ℚ) ≤ roundEven ((n : ℚ) / 2 ^ (1 : ℤ)) := by
      exact_mod_cast hround
    rw [double, if_neg hn, lastBit_two_pow_53 (by omega) hhigh, zpow_one] at *
    push_cast at *
    linarith
  · have hge : (2 : ℚ) ^ (54 : ℤ) ≤ n := by
      rw [not_lt] at hhigh
      exact_mod_cast hhigh
    have := le_double hge
    norm_num at this ⊢
    linarith

end Doubles
