import Mathlib.Algebra.Order.Field.Basic
import Mathlib.Data.List.DropRight
import Mathlib.Tactic.IntervalCases
import Mathlib.Tactic.LinearCombination
import Mathlib.Tactic.Ring
import Mathlib.Tactic.Linarith
import WiseWay.SearchText

/-! # Keys of instants

`instant_sort_key` beside the instants that its values denote. The key keeps the digits as they
are written, and decimal digits of every script are taken. -/
namespace InstantKeys

open Records SearchText Calendar

section Instants

variable (u : Unicode)

def digit (c : Char) : ℕ := (u.decimal c).getD 0

/-- The number `0.d₁d₂…`. -/
def decimals : Text → ℚ
  | [] => 0
  | c :: s => (digit u c + decimals s) / 10

/-- The instant that an accepted value denotes, in seconds. -/
def instant (value : Text) : Option ℚ :=
  match wholeSecond u value, fraction u (value.drop 19) with
  | some civil, some digits => some (civil.seconds + decimals u digits)
  | _, _ => none

def secondDigits : Text → Text
  | y₁ :: y₂ :: y₃ :: y₄ :: _ :: m₁ :: m₂ :: _ :: d₁ :: d₂ :: _ :: h₁ :: h₂ :: _ ::
      n₁ :: n₂ :: _ :: s₁ :: s₂ :: _ =>
    [y₁, y₂, y₃, y₄, m₁, m₂, d₁, d₂, h₁, h₂, n₁, n₂, s₁, s₂]
  | _ => []

def spelled (value : Text) : Text :=
  secondDigits value ++ (fraction u (value.drop 19)).getD []

/-- At the first place where two spellings differ, the characters are ordered like the digits, or,
if they are one digit in two scripts, like what the digits after them say. A spelling that goes
on after the other one goes on with ASCII zeros, or with a digit other than zero. -/
def InOrder : Text → Text → Prop
  | [], [] => True
  | [], t => (∀ d ∈ t, d = '0') ∨ ∃ d ∈ t, digit u d ≠ 0
  | s, [] => (∀ c ∈ s, c = '0') ∨ ∃ c ∈ s, digit u c ≠ 0
  | c :: s, d :: t =>
    if c = d then InOrder s t
    else if digit u c = digit u d then
      c < d ∧ decimals u s < decimals u t ∨ d < c ∧ decimals u t < decimals u s
    else (c < d ↔ digit u c < digit u d)

/-- The keys are ordered like the instants. -/
def Ordered (k l : Text) (x y : ℚ) : Prop := (k < l ↔ x < y) ∧ (k = l ↔ x = y)

end Instants

structure Digits (u : Unicode) : Prop where
  below : DecimalDigits u
  ascii : ∀ n < 10, u.decimal (Nat.digitChar n) = some n
  least : ∀ c, isDecimal u c = true → '0' ≤ c

variable {u : Unicode}

/-! Decimals. -/

theorem Digits.zero (hu : Digits u) : digit u '0' = 0 := by
  have h := hu.ascii 0 (by decide)
  exact congrArg (Option.getD · 0) h

theorem Digits.digit_lt (hu : Digits u) (c : Char) : digit u c < 10 := by
  unfold digit
  cases h : u.decimal c with
  | none => decide
  | some n => exact hu.below c n h

theorem decimals_cons (c : Char) (s : Text) :
    decimals u (c :: s) = (digit u c + decimals u s) / 10 := rfl

theorem decimals_nonneg (s : Text) : 0 ≤ decimals u s := by
  induction s with
  | nil => exact le_rfl
  | cons c s ih =>
    rw [decimals_cons]
    positivity

theorem Digits.decimals_lt (hu : Digits u) (s : Text) : decimals u s < 1 := by
  induction s with
  | nil => exact zero_lt_one
  | cons c s ih =>
    have hdigit : (digit u c : ℚ) ≤ 9 := by exact_mod_cast Nat.le_of_lt_succ (hu.digit_lt c)
    rw [decimals_cons]
    linarith

theorem decimals_eq_zero {s : Text} : decimals u s = 0 ↔ ∀ c ∈ s, digit u c = 0 := by
  induction s with
  | nil => simp [decimals]
  | cons c s ih =>
    have hdigit : (0 : ℚ) ≤ digit u c := Nat.cast_nonneg _
    have hrest := decimals_nonneg (u := u) s
    rw [List.forall_mem_cons, ← ih, decimals_cons]
    constructor
    · intro h
      have hsum : (digit u c : ℚ) + decimals u s = 0 := by linarith
      have hzero : (digit u c : ℚ) = 0 := by linarith
      exact ⟨by exact_mod_cast hzero, by linarith⟩
    · rintro ⟨hc, hs⟩
      rw [hc, hs]
      norm_num

/-! Keys of digits. -/

/-- `rstrip("0")`. -/
abbrev strip (s : Text) : Text := s.rdropWhile (· = '0')

theorem strip_cons (c : Char) (s : Text) :
    strip (c :: s) = if strip s = [] ∧ c = '0' then [] else c :: strip s := by
  unfold strip List.rdropWhile
  rw [List.reverse_cons, List.dropWhile_append]
  by_cases hs : List.dropWhile (fun c : Char => decide (c = '0')) s.reverse = []
  · by_cases hc : c = '0'
    · simp [hs, hc]
    · simp [hs, hc]
  · simp [hs]

theorem ordered_cons_same {c : Char} {k l : Text} {x y n : ℚ} :
    Ordered (c :: k) (c :: l) ((n + x) / 10) ((n + y) / 10) ↔ Ordered k l x y := by
  have hlt : (n + x) / 10 < (n + y) / 10 ↔ x < y :=
    ⟨fun h => by linarith, fun h => by linarith⟩
  have heq : (n + x) / 10 = (n + y) / 10 ↔ x = y :=
    ⟨fun h => by linarith, fun h => by rw [h]⟩
  unfold Ordered
  rw [hlt, heq, List.cons_lt_cons_iff, List.cons.injEq]
  simp

theorem ordered_cons_ne (hu : Digits u) {c d : Char} (hne : c ≠ d) {k l s t : Text} :
    Ordered (c :: k) (d :: l) (decimals u (c :: s)) (decimals u (d :: t)) ↔
      if digit u c = digit u d then
        c < d ∧ decimals u s < decimals u t ∨ d < c ∧ decimals u t < decimals u s
      else (c < d ↔ digit u c < digit u d) := by
  have hs := hu.decimals_lt s
  have ht := hu.decimals_lt t
  have hs' := decimals_nonneg (u := u) s
  have ht' := decimals_nonneg (u := u) t
  have hkey : c :: k < d :: l ↔ c < d := by
    rw [List.cons_lt_cons_iff]
    simp [hne]
  unfold Ordered
  rw [hkey, List.cons.injEq, decimals_cons, decimals_cons]
  by_cases hdigit : digit u c = digit u d
  · rw [if_pos hdigit, hdigit]
    have hlt : ((digit u d : ℚ) + decimals u s) / 10 < (digit u d + decimals u t) / 10 ↔
        decimals u s < decimals u t := ⟨fun h => by linarith, fun h => by linarith⟩
    have heq : ((digit u d : ℚ) + decimals u s) / 10 = (digit u d + decimals u t) / 10 ↔
        decimals u s = decimals u t := ⟨fun h => by linarith, fun h => by rw [h]⟩
    rw [hlt, heq]
    constructor
    · rintro ⟨horder, hsame⟩
      rcases lt_or_gt_of_ne hne with hcd | hdc
      · exact .inl ⟨hcd, horder.mp hcd⟩
      · refine .inr ⟨hdc, lt_of_le_of_ne ?_ ?_⟩
        · exact not_lt.mp fun h => absurd hdc (horder.mpr h).asymm
        · exact fun h => absurd (hsame.mpr h.symm).1 hne
    · rintro (⟨hcd, hlt⟩ | ⟨hdc, hlt⟩)
      · exact ⟨⟨fun _ => hlt, fun _ => hcd⟩, fun h => absurd h.1 hne, fun h => absurd h hlt.ne⟩
      · exact ⟨⟨fun h => absurd h hdc.asymm, fun h => absurd h hlt.asymm⟩,
          fun h => absurd h.1 hne, fun h => absurd h hlt.ne'⟩
  · rw [if_neg hdigit]
    have hlt : ((digit u c : ℚ) + decimals u s) / 10 < (digit u d + decimals u t) / 10 ↔
        digit u c < digit u d := by
      constructor
      · intro h
        by_contra hle
        have hstep : digit u d + 1 ≤ digit u c := by omega
        have hcast : (digit u d : ℚ) + 1 ≤ digit u c := by exact_mod_cast hstep
        linarith
      · intro h
        have hcast : (digit u c : ℚ) + 1 ≤ digit u d := by exact_mod_cast h
        linarith
    have heq : ((digit u c : ℚ) + decimals u s) / 10 ≠ (digit u d + decimals u t) / 10 := by
      intro h
      rcases lt_or_gt_of_ne hdigit with h' | h'
      · exact absurd h (hlt.mpr h').ne
      · have hcast : (digit u d : ℚ) + 1 ≤ digit u c := by exact_mod_cast h'
        linarith
    rw [hlt]
    exact ⟨fun h => h.1, fun h => ⟨h, fun he => absurd he.1 hne, fun he => absurd he heq⟩⟩

theorem strip_lt (hu : Digits u) {c d : Char} (hc : isDecimal u c = true)
    (hd : isDecimal u d = true) (hne : c ≠ d) {s t : Text} :
    (strip (c :: s) < strip (d :: t) ↔ c :: strip s < d :: strip t) ∧
      (strip (c :: s) = strip (d :: t) ↔ c :: strip s = d :: strip t) := by
  have hkey : c :: strip s < d :: strip t ↔ c < d := by
    rw [List.cons_lt_cons_iff]
    simp [hne]
  have hsame : ¬c :: strip s = d :: strip t := fun h => hne (List.cons.inj h).1
  rw [strip_cons, strip_cons, hkey]
  by_cases hleft : strip s = [] ∧ c = '0'
  · have hright : ¬(strip t = [] ∧ d = '0') := fun h => hne (hleft.2.trans h.2.symm)
    rw [if_pos hleft, if_neg hright]
    have hcd : c < d := lt_of_le_of_ne (hleft.2 ▸ hu.least d hd) hne
    exact ⟨⟨fun _ => hcd, fun _ => List.nil_lt_cons ..⟩, by simp [hsame]⟩
  · rw [if_neg hleft]
    by_cases hright : strip t = [] ∧ d = '0'
    · rw [if_pos hright]
      have hdc : d < c := lt_of_le_of_ne (hright.2 ▸ hu.least c hc) hne.symm
      exact ⟨⟨fun h => absurd h (List.not_lt_nil _), fun h => absurd h hdc.asymm⟩,
        by simp [hsame]⟩
    · rw [if_neg hright, hkey]
      exact ⟨Iff.rfl, Iff.rfl⟩

theorem strip_eq_nil {s : Text} : strip s = [] ↔ ∀ c ∈ s, c = '0' := by
  unfold strip
  rw [List.rdropWhile_eq_nil_iff]
  simp

theorem ordered_nil {t : Text} : Ordered [] (strip t) 0 (decimals u t) ↔
    (strip t ≠ [] ↔ decimals u t ≠ 0) := by
  have hkey : [] < strip t ↔ strip t ≠ [] := by
    cases strip t with
    | nil => simp
    | cons _ _ => simp
  have hvalue : 0 < decimals u t ↔ decimals u t ≠ 0 := (decimals_nonneg t).lt_iff_ne.trans ne_comm
  unfold Ordered
  rw [hkey, hvalue, eq_comm, @eq_comm _ 0]
  exact ⟨fun h => h.1, fun h => ⟨h, not_iff_not.mp h⟩⟩

theorem ordered_comm {k l : Text} {x y : ℚ} : Ordered k l x y ↔ Ordered l k y x := by
  have hforward : ∀ {k l : Text} {x y : ℚ}, Ordered k l x y → Ordered l k y x := by
    intro k l x y h
    refine ⟨?_, by rw [eq_comm, h.2, eq_comm]⟩
    rw [← not_le, ← not_le, not_iff_not, le_iff_lt_or_eq, le_iff_lt_or_eq, h.1, h.2]
  exact ⟨hforward, hforward⟩

theorem ordered_rest (hu : Digits u) {t : Text} : Ordered [] (strip t) 0 (decimals u t) ↔
    (∀ d ∈ t, d = '0') ∨ ∃ d ∈ t, digit u d ≠ 0 := by
  have hvalue : decimals u t ≠ 0 ↔ ∃ d ∈ t, digit u d ≠ 0 := by
    rw [ne_eq, decimals_eq_zero]
    simp
  rw [ordered_nil, ← hvalue, ← strip_eq_nil]
  by_cases hstrip : strip t = []
  · have hzero : decimals u t = 0 := by
      rw [decimals_eq_zero]
      intro c hc
      rw [strip_eq_nil.mp hstrip c hc]
      exact hu.zero
    simp [hstrip, hzero]
  · simp [hstrip]

theorem inOrder_fractions (hu : Digits u) : ∀ {s t : Text},
    (∀ c ∈ s, isDecimal u c = true) → (∀ d ∈ t, isDecimal u d = true) →
      (InOrder u s t ↔ Ordered (strip s) (strip t) (decimals u s) (decimals u t))
  | [], [], _, _ => by simp [InOrder, Ordered]
  | [], d :: t, _, _ => (ordered_rest hu).symm
  | c :: s, [], _, _ => ((ordered_comm).trans (ordered_rest hu)).symm
  | c :: s, d :: t, hs, ht => by
    unfold InOrder
    by_cases hne : c = d
    · subst hne
      have ih := inOrder_fractions hu (fun b hb => hs b (List.mem_cons_of_mem _ hb))
        fun b hb => ht b (List.mem_cons_of_mem _ hb)
      rw [if_pos rfl, ih, decimals_cons, decimals_cons,
        ← ordered_cons_same (c := c) (n := digit u c), strip_cons, strip_cons]
      by_cases hzero : c = '0'
      · cases hstrip : strip s with
        | nil =>
          cases hstrip' : strip t with
          | nil => simp [hzero, Ordered]
          | cons _ _ => simp [hzero, Ordered]
        | cons _ _ =>
          cases hstrip' : strip t with
          | nil => simp [hzero, Ordered]
          | cons _ _ => simp [hzero, Ordered]
      · simp [hzero]
    · rw [if_neg hne, ← ordered_cons_ne hu hne (k := strip s) (l := strip t)]
      obtain ⟨hlt, heq⟩ := strip_lt hu (hs c (List.mem_cons_self ..)) (ht d (List.mem_cons_self ..))
        hne (s := s) (t := t)
      unfold Ordered
      rw [hlt, heq]

theorem inOrder_spellings (hu : Digits u) {s t : Text} (hs : ∀ c ∈ s, isDecimal u c = true)
    (ht : ∀ d ∈ t, isDecimal u d = true) : ∀ {p q : Text}, p.length = q.length →
      (InOrder u (p ++ s) (q ++ t) ↔
        Ordered (p ++ strip s) (q ++ strip t) (decimals u (p ++ s)) (decimals u (q ++ t)))
  | [], [], _ => inOrder_fractions hu hs ht
  | [], _ :: _, h => by simp at h
  | _ :: _, [], h => by simp at h
  | c :: p, d :: q, h => by
    simp only [List.cons_append]
    unfold InOrder
    by_cases hne : c = d
    · subst hne
      rw [if_pos rfl, inOrder_spellings hu hs ht (by simpa using h), decimals_cons, decimals_cons,
        ordered_cons_same]
    · rw [if_neg hne, ordered_cons_ne hu hne]

/-! Values. -/

/-- The characters at the places of the digits, with the marks between them. -/
def layout : Text → Text
  | [y₁, y₂, y₃, y₄, m₁, m₂, d₁, d₂, h₁, h₂, n₁, n₂, s₁, s₂] =>
    [y₁, y₂, y₃, y₄, '-', m₁, m₂, '-', d₁, d₂, 'T', h₁, h₂, ':', n₁, n₂, ':', s₁, s₂]
  | _ => []

def civilOf (u : Unicode) : Text → Civil
  | [y₁, y₂, y₃, y₄, m₁, m₂, d₁, d₂, h₁, h₂, n₁, n₂, s₁, s₂] =>
    ⟨intOf u [y₁, y₂, y₃, y₄], intOf u [m₁, m₂], intOf u [d₁, d₂], intOf u [h₁, h₂],
      intOf u [n₁, n₂], intOf u [s₁, s₂]⟩
  | _ => ⟨0, 0, 0, 0, 0, 0⟩

theorem Digits.decimal (hu : Digits u) {c : Char} (hlow : '0' ≤ c) (hhigh : c ≤ '9') :
    isDecimal u c = true := by
  have hlow' : 48 ≤ c.toNat := hlow
  have hhigh' : c.toNat ≤ 57 := hhigh
  have hchar : Nat.digitChar (c.toNat - 48) = c := by
    have hall : ∀ n < 10, Nat.digitChar n = Char.ofNat (n + 48) := by decide
    rw [hall _ (by omega), Nat.sub_add_cancel hlow', Char.ofNat_toNat]
  unfold isDecimal
  rw [← hchar, hu.ascii _ (by omega)]
  rfl

/-- The patterns of `strptime` take decimal digits only. -/
theorem Digits.field (hu : Digits u) {c d : Char}
    (h : monthDigits c d = true ∨ dayDigits u c d = true ∨ hourDigits u c d = true ∨
      sixtyDigits u c d = true) : isDecimal u c = true ∧ isDecimal u d = true := by
  have hascii : ∀ {c low high : Char}, '0' ≤ low → high ≤ '9' → low ≤ c → c ≤ high →
      isDecimal u c = true := fun hlow hhigh hl hh => hu.decimal (hlow.trans hl) (hh.trans hhigh)
  simp only [monthDigits, dayDigits, hourDigits, sixtyDigits, decide_eq_true_eq] at h
  rcases h with (⟨rfl, hl, hh⟩ | ⟨rfl, hl, hh⟩) |
    (⟨rfl, hl, hh⟩ | ⟨hl, hh, hd⟩ | ⟨rfl, hl, hh⟩) | (⟨rfl, hl, hh⟩ | ⟨hl, hh, hd⟩) | ⟨hl, hh, hd⟩
  · exact ⟨hu.decimal (by decide) (by decide), hascii (by decide) (by decide) hl hh⟩
  · exact ⟨hu.decimal (by decide) (by decide), hascii (by decide) (by decide) hl hh⟩
  · exact ⟨hu.decimal (by decide) (by decide), hascii (by decide) (by decide) hl hh⟩
  · exact ⟨hascii (by decide) (by decide) hl hh, hd⟩
  · exact ⟨hu.decimal (by decide) (by decide), hascii (by decide) (by decide) hl hh⟩
  · exact ⟨hu.decimal (by decide) (by decide), hascii (by decide) (by decide) hl hh⟩
  · exact ⟨hascii (by decide) (by decide) hl hh, hd⟩
  · exact ⟨hascii (by decide) (by decide) hl hh, hd⟩

structure Accepted (u : Unicode) (value : Text) (p f : Text) : Prop where
  length : p.length = 14
  digits : ∀ c ∈ p, isDecimal u c = true
  fraction : ∀ c ∈ f, isDecimal u c = true
  spelled : spelled u value = p ++ f
  valid : (civilOf u p).Valid
  instant : instant u value = some ((civilOf u p).seconds + decimals u f)
  key : instantSortKey u value = .ok (layout p ++ '.' :: strip f)

theorem fraction_digits {text f : Text} (h : SearchText.fraction u text = some f) :
    ∀ c ∈ f, isDecimal u c = true := by
  unfold SearchText.fraction at h
  split at h
  · cases h
    exact fun c hc => absurd hc List.not_mem_nil
  · split at h
    · rename_i hall
      cases h
      exact List.all_eq_true.mp hall.2.2
    · cases h
  · cases h

theorem accepted (hu : Digits u) {value key : Text} (h : instantSortKey u value = .ok key) :
    ∃ p f, Accepted u value p f := by
  unfold instantSortKey at h
  cases hsecond : wholeSecond u value with
  | none =>
    rw [hsecond] at h
    cases h
  | some civil =>
    cases hfraction : SearchText.fraction u (value.drop 19) with
    | none =>
      rw [hsecond, hfraction] at h
      cases h
    | some f =>
      have hwhole := hsecond
      unfold wholeSecond at hwhole
      split at hwhole
      · rename_i y₁ y₂ y₃ y₄ m₁ m₂ d₁ d₂ h₁ h₂ n₁ n₂ s₁ s₂ rest
        simp only at hwhole
        split at hwhole
        · rename_i hfields
          cases hwhole
          obtain ⟨hyear, hmonth, hday, hhour, hminute, hsec, -, hvalid⟩ := hfields
          refine ⟨[y₁, y₂, y₃, y₄, m₁, m₂, d₁, d₂, h₁, h₂, n₁, n₂, s₁, s₂], f, rfl, ?_,
            fraction_digits hfraction, ?_, hvalid, ?_, ?_⟩
          · obtain ⟨hm₁, hm₂⟩ := hu.field (.inl hmonth)
            obtain ⟨hd₁, hd₂⟩ := hu.field (.inr (.inl hday))
            obtain ⟨hh₁, hh₂⟩ := hu.field (.inr (.inr (.inl hhour)))
            obtain ⟨hn₁, hn₂⟩ := hu.field (.inr (.inr (.inr hminute)))
            obtain ⟨hs₁, hs₂⟩ := hu.field (.inr (.inr (.inr hsec)))
            have hyears := List.all_eq_true.mp hyear
            simp only [List.forall_mem_cons] at hyears ⊢
            obtain ⟨hy₁, hy₂, hy₃, hy₄, hend⟩ := hyears
            exact ⟨hy₁, hy₂, hy₃, hy₄, hm₁, hm₂, hd₁, hd₂, hh₁, hh₂, hn₁, hn₂, hs₁, hs₂, hend⟩
          · unfold InstantKeys.spelled
            rw [hfraction]
            rfl
          · unfold InstantKeys.instant
            rw [hsecond, hfraction]
            rfl
          · unfold instantSortKey
            rw [hsecond, hfraction]
            rfl
        · cases hwhole
      · cases hwhole

/-! The fourteen digits as a number. -/

theorem intOf_append (a b : Text) :
    intOf u (a ++ b) = intOf u a * 10 ^ b.length + intOf u b := by
  have hfold : ∀ (b : Text) (n : ℕ), b.foldl (fun n c => 10 * n + (u.decimal c).getD 0) n =
      n * 10 ^ b.length + intOf u b := by
    intro b
    induction b with
    | nil => simp [intOf]
    | cons c b ih =>
      intro n
      have hzero := ih (10 * 0 + (u.decimal c).getD 0)
      have hstep := ih (10 * n + (u.decimal c).getD 0)
      unfold intOf at *
      rw [List.foldl_cons, List.foldl_cons, hstep, hzero, List.length_cons, pow_succ]
      ring
  calc intOf u (a ++ b) = b.foldl (fun n c => 10 * n + (u.decimal c).getD 0) (intOf u a) :=
        List.foldl_append ..
    _ = intOf u a * 10 ^ b.length + intOf u b := hfold b _

theorem decimals_append (p s : Text) :
    decimals u (p ++ s) * 10 ^ p.length = intOf u p + decimals u s := by
  induction p with
  | nil => simp [intOf]
  | cons c p ih =>
    have hint : intOf u (c :: p) = digit u c * 10 ^ p.length + intOf u p := by
      rw [← List.singleton_append, intOf_append]
      simp [intOf, digit]
    rw [List.cons_append, decimals_cons, List.length_cons, pow_succ, hint]
    push_cast
    linear_combination ih

theorem eq_of_length {p : Text} (h : p.length = 14) :
    p = [p[0], p[1], p[2], p[3], p[4], p[5], p[6], p[7], p[8], p[9], p[10], p[11], p[12],
      p[13]] := by
  refine List.ext_getElem (by simpa using h) fun i hi _ => ?_
  rw [h] at hi
  interval_cases i <;> rfl

theorem civilOf_order {p q : Text} (hp : p.length = 14) (hq : q.length = 14)
    (hvalid : (civilOf u p).Valid) (hvalid' : (civilOf u q).Valid) :
    ((civilOf u p).seconds < (civilOf u q).seconds ↔ intOf u p < intOf u q) ∧
      ((civilOf u p).seconds = (civilOf u q).seconds ↔ intOf u p = intOf u q) := by
  have hnumber : ∀ {p : Text}, p.length = 14 → intOf u p =
      ((((((civilOf u p).year * 100 + (civilOf u p).month) * 100 + (civilOf u p).day) * 100 +
        (civilOf u p).hour) * 100 + (civilOf u p).minute) * 100 + (civilOf u p).second) := by
    intro p hp
    rw [eq_of_length hp]
    simp only [civilOf, intOf, List.foldl_cons, List.foldl_nil]
    omega
  have hdays := daysInMonth_le (civilOf u p).year (civilOf u p).month
  have hdays' := daysInMonth_le (civilOf u q).year (civilOf u q).month
  have hbefore := before_iff hvalid hvalid'
  have hsame : (civilOf u p).seconds = (civilOf u q).seconds ↔ civilOf u p = civilOf u q :=
    ⟨seconds_injective hvalid hvalid', fun h => by rw [h]⟩
  rw [← hbefore, hsame, hnumber hp, hnumber hq, Civil.ext_iff]
  obtain ⟨_, _, _, _, _, _, _⟩ := hvalid
  obtain ⟨_, _, _, _, _, _, _⟩ := hvalid'
  unfold Civil.Before
  generalize civilOf u p = c at *
  generalize civilOf u q = d at *
  omega

theorem layout_order {p q f g : Text} (hp : p.length = 14) (hq : q.length = 14) :
    (layout p ++ '.' :: f < layout q ++ '.' :: g ↔ p ++ f < q ++ g) ∧
      (layout p ++ '.' :: f = layout q ++ '.' :: g ↔ p ++ f = q ++ g) := by
  rw [eq_of_length hp, eq_of_length hq]
  constructor
  · simp only [layout, List.cons_append, List.nil_append, List.cons_lt_cons_iff, lt_self_iff_false,
      false_or, true_and]
  · simp only [layout, List.cons_append, List.nil_append, List.cons.injEq, true_and]

/-- The instants of accepted values compare like the numbers that their digits spell. -/
theorem instant_order (hu : Digits u) {p q f g : Text} (hp : p.length = 14) (hq : q.length = 14)
    (hvalid : (civilOf u p).Valid) (hvalid' : (civilOf u q).Valid) :
    ((((civilOf u p).seconds : ℚ) + decimals u f < (civilOf u q).seconds + decimals u g ↔
      decimals u (p ++ f) < decimals u (q ++ g)) ∧
    (((civilOf u p).seconds : ℚ) + decimals u f = (civilOf u q).seconds + decimals u g ↔
      decimals u (p ++ f) = decimals u (q ++ g))) := by
  -- A whole number with a fraction compares like the pair of them.
  have hpair : ∀ {m n : ℕ}, ((m : ℚ) + decimals u f < n + decimals u g ↔
      m < n ∨ m = n ∧ decimals u f < decimals u g) ∧
      ((m : ℚ) + decimals u f = n + decimals u g ↔ m = n ∧ decimals u f = decimals u g) := by
    intro m n
    have hf := decimals_nonneg (u := u) f
    have hg := decimals_nonneg (u := u) g
    have hf' := hu.decimals_lt f
    have hg' := hu.decimals_lt g
    rcases lt_trichotomy m n with h | rfl | h
    · have hcast : (m : ℚ) + 1 ≤ n := by exact_mod_cast h
      exact ⟨⟨fun _ => .inl h, fun _ => by linarith⟩, fun he => by linarith,
        fun he => absurd he.1 h.ne⟩
    · simp
    · have hcast : (n : ℚ) + 1 ≤ m := by exact_mod_cast h
      refine ⟨⟨fun hlt => by linarith, ?_⟩, fun he => by linarith, fun he => absurd he.1 h.ne'⟩
      rintro (hlt | ⟨he, _⟩)
      · exact absurd hlt h.asymm
      · exact absurd he h.ne'
  obtain ⟨hlt, heq⟩ := civilOf_order hp hq hvalid hvalid'
  have hscaled : decimals u (p ++ f) * 10 ^ 14 = intOf u p + decimals u f :=
    hp ▸ decimals_append p f
  have hscaled' : decimals u (q ++ g) * 10 ^ 14 = intOf u q + decimals u g :=
    hq ▸ decimals_append q g
  have hpow : (0 : ℚ) < 10 ^ 14 := by norm_num
  have hdecimals : decimals u (p ++ f) < decimals u (q ++ g) ↔
      (intOf u p : ℚ) + decimals u f < intOf u q + decimals u g := by
    rw [← hscaled, ← hscaled']
    exact (mul_lt_mul_iff_left₀ hpow).symm
  have hdecimals' : decimals u (p ++ f) = decimals u (q ++ g) ↔
      (intOf u p : ℚ) + decimals u f = intOf u q + decimals u g := by
    rw [← hscaled, ← hscaled']
    exact (mul_left_inj' hpow.ne').symm
  rw [hdecimals, hdecimals', hpair.1, hpair.2, hpair.1, hpair.2, hlt, heq]
  exact ⟨Iff.rfl, Iff.rfl⟩

/-- The keys of two accepted values are ordered like their instants exactly if the values are
spelled in order. -/
theorem instant_keys (hu : Digits u) {a b keyA keyB : Text} (ha : instantSortKey u a = .ok keyA)
    (hb : instantSortKey u b = .ok keyB) :
    ∃ instantA instantB, instant u a = some instantA ∧ instant u b = some instantB ∧
      (Ordered keyA keyB instantA instantB ↔ InOrder u (spelled u a) (spelled u b)) := by
  obtain ⟨p, f, hA⟩ := accepted hu ha
  obtain ⟨q, g, hB⟩ := accepted hu hb
  refine ⟨_, _, hA.instant, hB.instant, ?_⟩
  obtain rfl := Except.ok.inj (ha.symm.trans hA.key)
  obtain rfl := Except.ok.inj (hb.symm.trans hB.key)
  obtain ⟨hlt, heq⟩ := layout_order hA.length hB.length (f := strip f) (g := strip g)
  obtain ⟨hlt', heq'⟩ := instant_order hu hA.length hB.length hA.valid hB.valid (f := f) (g := g)
  rw [hA.spelled, hB.spelled,
    inOrder_spellings hu hA.fraction hB.fraction (hA.length.trans hB.length.symm)]
  unfold Ordered
  rw [hlt, heq, hlt', heq']

/-! Values that are written in ASCII digits are in order. -/

def arabic : Unicode :=
  { ascii with decimal := fun c =>
      if '\u0660' ≤ c ∧ c ≤ '\u0669' then some (c.toNat - 0x660) else ascii.decimal c }

theorem arabic_digits : Digits arabic where
  below := by
    intro c n h
    simp only [arabic] at h
    split at h
    · rename_i hdigit
      have hhigh : c.toNat ≤ Char.toNat '\u0669' := hdigit.2
      rw [show Char.toNat '\u0669' = 1641 from by decide +kernel] at hhigh
      rw [Option.some.injEq] at h
      omega
    · exact decimalDigits_ascii c n h
  ascii := by decide +kernel
  least c h := by
    simp only [isDecimal, arabic] at h
    split at h
    · rename_i hdigit
      exact le_trans (by decide) hdigit.1
    · simp only [ascii] at h
      split at h
      · rename_i hdigit
        exact (Char.isDigit_iff_toNat.mp hdigit).1
      · cases h

theorem instant_keys_ascii :
    ∃ instantA instantB, instant arabic "2026-01-01T00:00:00.000Z".toList = some instantA ∧
      instant arabic "2026-01-01T00:00:00.001Z".toList = some instantB ∧
      (Ordered "2026-01-01T00:00:00.".toList "2026-01-01T00:00:00.001".toList instantA instantB ↔
        InOrder arabic (spelled arabic "2026-01-01T00:00:00.000Z".toList)
          (spelled arabic "2026-01-01T00:00:00.001Z".toList)) :=
  instant_keys arabic_digits (by decide +kernel) (by decide +kernel)

/-- Five seconds, the five in Arabic-Indic, come after six. -/
theorem five_after_six :
    instantSortKey arabic "2026-01-01T00:00:0\u0665Z".toList =
        .ok "2026-01-01T00:00:0\u0665.".toList ∧
      instantSortKey arabic "2026-01-01T00:00:06Z".toList = .ok "2026-01-01T00:00:06.".toList ∧
      instant arabic "2026-01-01T00:00:0\u0665Z".toList = some 63934444805 ∧
      instant arabic "2026-01-01T00:00:06Z".toList = some 63934444806 ∧
      ¬Ordered "2026-01-01T00:00:0\u0665.".toList "2026-01-01T00:00:06.".toList
        63934444805 63934444806 := by
  refine ⟨by decide +kernel, by decide +kernel, by decide +kernel, by decide +kernel, ?_⟩
  intro h
  have hlt : "2026-01-01T00:00:0\u0665.".toList < "2026-01-01T00:00:06.".toList :=
    h.1.mpr (by norm_num)
  exact absurd hlt (by decide +kernel)

end InstantKeys
