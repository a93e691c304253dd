import Mathlib.Data.Char
import Mathlib.Data.List.Induction
import Mathlib.Data.List.Lex
import Mathlib.Data.Nat.Find
import Mathlib.Order.Monotone.Basic
import Mathlib.Tactic.IntervalCases
import Mathlib.Tactic.NormNum

/-! # Civil dates and times

The proleptic Gregorian calendar from the year 0: seconds since its start, the date of a second,
and texts of fixed width that are ordered like what they say. -/
namespace Calendar

def isLeap (year : ℕ) : Bool := year % 4 = 0 ∧ (year % 100 ≠ 0 ∨ year % 400 = 0)

def daysInMonth (year month : ℕ) : ℕ :=
  if month = 2 then (if isLeap year then 29 else 28)
  else if month ∈ [4, 6, 9, 11] then 30 else 31

@[ext] structure Civil where
  year : ℕ
  month : ℕ
  day : ℕ
  hour : ℕ
  minute : ℕ
  second : ℕ
  deriving DecidableEq, Repr

structure Civil.Valid (c : Civil) : Prop where
  month_pos : 1 ≤ c.month
  month_le : c.month ≤ 12
  day_pos : 1 ≤ c.day
  day_le : c.day ≤ daysInMonth c.year c.month
  hour_lt : c.hour < 24
  minute_lt : c.minute < 60
  second_lt : c.second < 60

instance (c : Civil) : Decidable c.Valid :=
  decidable_of_iff (1 ≤ c.month ∧ c.month ≤ 12 ∧ 1 ≤ c.day ∧
      c.day ≤ daysInMonth c.year c.month ∧ c.hour < 24 ∧ c.minute < 60 ∧ c.second < 60)
    ⟨fun ⟨h1, h2, h3, h4, h5, h6, h7⟩ => ⟨h1, h2, h3, h4, h5, h6, h7⟩,
      fun h => ⟨h.1, h.2, h.3, h.4, h.5, h.6, h.7⟩⟩

/-! Days. -/

def daysBeforeYear (year : ℕ) : ℕ :=
  365 * year + (year + 3) / 4 - (year + 99) / 100 + (year + 399) / 400

def daysBeforeMonth (year : ℕ) : ℕ → ℕ
  | 0 => 0
  | month + 1 => if month = 0 then 0 else daysBeforeMonth year month + daysInMonth year month

def Civil.dayNumber (c : Civil) : ℕ :=
  daysBeforeYear c.year + daysBeforeMonth c.year c.month + (c.day - 1)

def Civil.seconds (c : Civil) : ℕ :=
  c.dayNumber * 86400 + c.hour * 3600 + c.minute * 60 + c.second

def yearLength (year : ℕ) : ℕ := if isLeap year then 366 else 365

theorem daysBeforeYear_succ (year : ℕ) :
    daysBeforeYear (year + 1) = daysBeforeYear year + yearLength year := by
  -- A fourth, a hundredth or a four-hundredth year more when the last one was.
  have h4 : (year + 1 + 3) / 4 = (year + 3) / 4 + if year % 4 = 0 then 1 else 0 := by
    split <;> omega
  have h100 : (year + 1 + 99) / 100 = (year + 99) / 100 + if year % 100 = 0 then 1 else 0 := by
    split <;> omega
  have h400 : (year + 1 + 399) / 400 = (year + 399) / 400 + if year % 400 = 0 then 1 else 0 := by
    split <;> omega
  have hle : (year + 99) / 100 ≤ 365 * year := by omega
  have hmul : year % 400 = 0 → year % 100 = 0 := by omega
  have hmul' : year % 100 = 0 → year % 4 = 0 := by omega
  unfold daysBeforeYear
  rw [h4, h100, h400]
  generalize (year + 3) / 4 = fourths at *
  generalize (year + 99) / 100 = hundredths at *
  generalize (year + 399) / 400 = fourHundredths at *
  unfold yearLength isLeap
  by_cases h : year % 4 = 0
  · by_cases h' : year % 100 = 0
    · by_cases h'' : year % 400 = 0
      · simp only [h, h', h'', ne_eq, not_true_eq_false, or_true, and_self, decide_true, if_true]
        omega
      · simp only [h, h', h'', ne_eq, not_true_eq_false, or_false, and_false, decide_false,
          if_true, if_false, Bool.false_eq_true]
        omega
    · simp only [h, h', mt hmul h', ne_eq, not_false_eq_true, true_or, and_self, decide_true,
        if_true, if_false]
      omega
  · simp only [h, mt hmul' h, mt (hmul' ∘ hmul) h, false_and, decide_false, if_false,
      Bool.false_eq_true]
    omega

theorem daysBeforeYear_strictMono : StrictMono daysBeforeYear :=
  strictMono_nat_of_lt_succ fun year => by
    rw [daysBeforeYear_succ]
    unfold yearLength
    split <;> omega

theorem daysBeforeMonth_succ {year month : ℕ} (h : 1 ≤ month) :
    daysBeforeMonth year (month + 1) = daysBeforeMonth year month + daysInMonth year month := by
  rw [daysBeforeMonth, if_neg (by omega)]

theorem daysBeforeMonth_mono (year : ℕ) {a b : ℕ} (ha : 1 ≤ a) (h : a < b) :
    daysBeforeMonth year a + daysInMonth year a ≤ daysBeforeMonth year b := by
  induction b with
  | zero => omega
  | succ b ih =>
    rcases Nat.lt_succ_iff_lt_or_eq.mp h with hlt | rfl
    · rw [daysBeforeMonth_succ (by omega)]
      have := ih hlt
      omega
    · rw [daysBeforeMonth_succ ha]

theorem daysBeforeMonth_thirteen (year : ℕ) : daysBeforeMonth year 13 = yearLength year := by
  simp only [daysBeforeMonth, daysInMonth, yearLength]
  by_cases h : isLeap year = true
  · simp [h]
  · simp [h]

theorem Civil.Valid.day_of_year {c : Civil} (h : c.Valid) :
    daysBeforeMonth c.year c.month + c.day ≤ yearLength c.year := by
  have hle : daysBeforeMonth c.year c.month + daysInMonth c.year c.month ≤
      daysBeforeMonth c.year 13 := daysBeforeMonth_mono _ h.month_pos (by have := h.month_le; omega)
  rw [daysBeforeMonth_thirteen] at hle
  have := h.day_le
  omega

theorem Civil.Valid.dayNumber_lt {c : Civil} (h : c.Valid) :
    c.dayNumber < daysBeforeYear (c.year + 1) := by
  have := h.day_of_year
  have := h.day_pos
  rw [daysBeforeYear_succ, Civil.dayNumber]
  omega

/-! Order. -/

/-- The first field in which two times differ is smaller. -/
def Civil.Before (a b : Civil) : Prop :=
  a.year < b.year ∨ a.year = b.year ∧ (a.month < b.month ∨ a.month = b.month ∧
    (a.day < b.day ∨ a.day = b.day ∧ (a.hour < b.hour ∨ a.hour = b.hour ∧
      (a.minute < b.minute ∨ a.minute = b.minute ∧ a.second < b.second))))

theorem before_total (a b : Civil) : a.Before b ∨ a = b ∨ b.Before a := by
  rw [Civil.ext_iff]
  unfold Civil.Before
  omega

theorem dayNumber_lt_of_year {a b : Civil} (ha : a.Valid) (h : a.year < b.year) :
    a.dayNumber < b.dayNumber := by
  have hlt := ha.dayNumber_lt
  have hle := daysBeforeYear_strictMono.monotone (show a.year + 1 ≤ b.year from h)
  unfold Civil.dayNumber at *
  omega

theorem dayNumber_lt_of_month {a b : Civil} (ha : a.Valid) (hyear : a.year = b.year)
    (h : a.month < b.month) : a.dayNumber < b.dayNumber := by
  have hle := daysBeforeMonth_mono a.year ha.month_pos h
  have := ha.day_le
  have := ha.day_pos
  unfold Civil.dayNumber
  rw [← hyear]
  omega

theorem seconds_lt_of_dayNumber {a b : Civil} (ha : a.Valid) (h : a.dayNumber < b.dayNumber) :
    a.seconds < b.seconds := by
  have := ha.hour_lt
  have := ha.minute_lt
  have := ha.second_lt
  unfold Civil.seconds
  omega

theorem seconds_lt_of_before {a b : Civil} (ha : a.Valid) (h : a.Before b) :
    a.seconds < b.seconds := by
  rcases h with hyear | ⟨hyear, hmonth | ⟨hmonth, hday | ⟨hday, h⟩⟩⟩
  · exact seconds_lt_of_dayNumber ha (dayNumber_lt_of_year ha hyear)
  · exact seconds_lt_of_dayNumber ha (dayNumber_lt_of_month ha hyear hmonth)
  · refine seconds_lt_of_dayNumber ha ?_
    have := ha.day_pos
    unfold Civil.dayNumber
    rw [hyear, hmonth]
    omega
  · have := ha.minute_lt
    have := ha.second_lt
    have hdays : a.dayNumber = b.dayNumber := by
      unfold Civil.dayNumber
      rw [hyear, hmonth, hday]
    unfold Civil.seconds
    omega

theorem before_iff {a b : Civil} (ha : a.Valid) (hb : b.Valid) :
    a.Before b ↔ a.seconds < b.seconds := by
  refine ⟨seconds_lt_of_before ha, fun h => ?_⟩
  rcases before_total a b with hab | rfl | hba
  · exact hab
  · omega
  · have := seconds_lt_of_before hb hba
    omega

theorem seconds_injective {a b : Civil} (ha : a.Valid) (hb : b.Valid)
    (h : a.seconds = b.seconds) : a = b := by
  rcases before_total a b with hab | rfl | hba
  · have := seconds_lt_of_before ha hab
    omega
  · rfl
  · have := seconds_lt_of_before hb hba
    omega

/-! The date of a second. -/

theorem le_daysBeforeYear (year : ℕ) : 365 * year ≤ daysBeforeYear year := by
  unfold daysBeforeYear
  omega

def yearOf (day : ℕ) : ℕ := Nat.findGreatest (fun year => daysBeforeYear year ≤ day) (day / 365)

/-- The month of a day that is counted from the start of its year. -/
def monthOf (year day : ℕ) : ℕ :=
  1 + Nat.findGreatest (fun month => daysBeforeMonth year (month + 1) ≤ day) 11

def civilOf (second : ℕ) : Civil :=
  let day := second / 86400
  let year := yearOf day
  let rest := day - daysBeforeYear year
  let month := monthOf year rest
  { year := year
    month := month
    day := rest - daysBeforeMonth year month + 1
    hour := second % 86400 / 3600
    minute := second % 3600 / 60
    second := second % 60 }

theorem yearOf_spec (day : ℕ) :
    daysBeforeYear (yearOf day) ≤ day ∧ day < daysBeforeYear (yearOf day + 1) := by
  have hzero : daysBeforeYear 0 ≤ day := by
    rw [show daysBeforeYear 0 = 0 from rfl]
    omega
  refine ⟨Nat.findGreatest_spec (P := fun year => daysBeforeYear year ≤ day) (Nat.zero_le _)
    hzero, ?_⟩
  by_contra h
  rw [not_lt] at h
  have hle := (le_daysBeforeYear (yearOf day + 1)).trans h
  have hbound : yearOf day + 1 ≤ day / 365 := by omega
  have := Nat.le_findGreatest (P := fun year => daysBeforeYear year ≤ day) hbound h
  change yearOf day + 1 ≤ yearOf day at this
  omega

theorem monthOf_spec (year day : ℕ) (h : day < yearLength year) :
    1 ≤ monthOf year day ∧ monthOf year day ≤ 12 ∧
      daysBeforeMonth year (monthOf year day) ≤ day ∧
        day < daysBeforeMonth year (monthOf year day) +
          daysInMonth year (monthOf year day) := by
  have hle : Nat.findGreatest (fun month => daysBeforeMonth year (month + 1) ≤ day) 11 ≤ 11 :=
    Nat.findGreatest_le 11
  have hspec := Nat.findGreatest_spec (P := fun month => daysBeforeMonth year (month + 1) ≤ day)
    (m := 0) (n := 11) (Nat.zero_le _) (Nat.zero_le _)
  have hlast : day < daysBeforeMonth year (monthOf year day + 1) := by
    unfold monthOf
    generalize hfound : Nat.findGreatest (fun month => daysBeforeMonth year (month + 1) ≤ day) 11 =
      found at *
    by_cases heleven : found = 11
    · rw [heleven, daysBeforeMonth_thirteen]
      exact h
    · by_contra hnot
      rw [not_lt, show 1 + found + 1 = (found + 1) + 1 by omega] at hnot
      have := Nat.le_findGreatest (P := fun month => daysBeforeMonth year (month + 1) ≤ day)
        (show found + 1 ≤ 11 by omega) hnot
      omega
  rw [daysBeforeMonth_succ (by unfold monthOf; omega)] at hlast
  unfold monthOf at *
  rw [Nat.add_comm 1] at *
  exact ⟨by omega, by omega, hspec, hlast⟩

theorem civilOf_valid (second : ℕ) : (civilOf second).Valid := by
  obtain ⟨hlow, hhigh⟩ := yearOf_spec (second / 86400)
  rw [daysBeforeYear_succ] at hhigh
  obtain ⟨hpos, hle, hbefore, hafter⟩ := monthOf_spec (yearOf (second / 86400))
    (second / 86400 - daysBeforeYear (yearOf (second / 86400))) (by omega)
  refine ⟨hpos, hle, Nat.succ_pos _, ?_, ?_, ?_, ?_⟩
  · dsimp only [civilOf]
    omega
  · dsimp only [civilOf]
    omega
  · dsimp only [civilOf]
    omega
  · dsimp only [civilOf]
    omega

theorem seconds_civilOf (second : ℕ) : (civilOf second).seconds = second := by
  obtain ⟨hlow, hhigh⟩ := yearOf_spec (second / 86400)
  rw [daysBeforeYear_succ] at hhigh
  obtain ⟨_, _, hbefore, _⟩ := monthOf_spec (yearOf (second / 86400))
    (second / 86400 - daysBeforeYear (yearOf (second / 86400))) (by omega)
  have hday : (civilOf second).dayNumber = second / 86400 := by
    dsimp only [civilOf, Civil.dayNumber]
    omega
  rw [Civil.seconds, hday]
  dsimp only [civilOf]
  omega

/-- The seconds of the years before the year 10000. -/
def endOfYears : ℕ := daysBeforeYear 10000 * 86400

theorem civilOf_year_lt {second : ℕ} (h : second < endOfYears) :
    (civilOf second).year < 10000 := by
  by_contra hnot
  have hle := daysBeforeYear_strictMono.monotone (not_lt.mp hnot)
  have hlow : daysBeforeYear (civilOf second).year ≤ second / 86400 := (yearOf_spec _).1
  unfold endOfYears at h
  omega

/-! Texts of fixed width. -/

/-- A number in decimal digits, filled up with zeros. -/
def padded : ℕ → ℕ → List Char
  | 0, _ => []
  | width + 1, n => padded width (n / 10) ++ [Nat.digitChar (n % 10)]

@[simp] theorem length_padded : ∀ width n : ℕ, (padded width n).length = width
  | 0, _ => rfl
  | width + 1, n => by simp [padded, length_padded width]

theorem digitChar_lt {a b : ℕ} (h : a < b) (hb : b < 10) : Nat.digitChar a < Nat.digitChar b := by
  interval_cases b <;> interval_cases a <;> decide

theorem append_lt_append : ∀ {p q r s : List Char}, p.length = q.length → p < q → p ++ r < q ++ s
  | [], [], _, _, _, h => absurd h (List.not_lt_nil _)
  | [], _ :: _, _, _, h, _ => by simp at h
  | _ :: _, [], _, _, h, _ => by simp at h
  | x :: p, y :: q, r, s, hlength, h => by
    rw [List.cons_append, List.cons_append, List.cons_lt_cons_iff]
    rcases List.cons_lt_cons_iff.mp h with hxy | ⟨hxy, hpq⟩
    · exact .inl hxy
    · exact .inr ⟨hxy, append_lt_append (by simpa using hlength) hpq⟩

theorem append_left_lt (p : List Char) {r s : List Char} (h : r < s) : p ++ r < p ++ s := by
  induction p with
  | nil => exact h
  | cons x p ih => exact List.cons_lt_cons_iff.mpr (.inr ⟨rfl, ih⟩)

theorem padded_lt : ∀ {width a b : ℕ}, a < b → b < 10 ^ width → padded width a < padded width b
  | 0, a, b, h, hb => by omega
  | width + 1, a, b, h, hb => by
    rw [pow_succ] at hb
    unfold padded
    by_cases hdiv : a / 10 < b / 10
    · exact append_lt_append (by simp) (padded_lt hdiv (by omega))
    · rw [show a / 10 = b / 10 by omega]
      exact append_left_lt _ (List.cons_lt_cons_iff.mpr
        (.inl (digitChar_lt (by omega) (Nat.mod_lt _ (by norm_num)))))

/-- `YYYY-MM-DD`, a separator and `HH:MM:SS`. -/
def Civil.textWith (separator : Char) (c : Civil) : List Char :=
  padded 4 c.year ++ '-' :: (padded 2 c.month ++ '-' :: (padded 2 c.day ++ separator ::
    (padded 2 c.hour ++ ':' :: (padded 2 c.minute ++ ':' :: padded 2 c.second))))

def Civil.text (c : Civil) : List Char := c.textWith 'T'

@[simp] theorem length_textWith (separator : Char) (c : Civil) :
    (c.textWith separator).length = 19 := by
  simp [Civil.textWith]

@[simp] theorem length_text (c : Civil) : c.text.length = 19 := length_textWith ..

theorem field_lt {width a b : ℕ} {r s : List Char} (hb : b < 10 ^ width)
    (h : a < b ∨ a = b ∧ r < s) : padded width a ++ r < padded width b ++ s := by
  rcases h with h | ⟨rfl, h⟩
  · exact append_lt_append (by simp) (padded_lt h hb)
  · exact append_left_lt _ h

theorem separator_lt {c : Char} {r s : List Char} (h : r < s) : c :: r < c :: s :=
  append_left_lt [c] h

theorem daysInMonth_le (year month : ℕ) : daysInMonth year month ≤ 31 := by
  unfold daysInMonth
  split
  · split <;> omega
  · split <;> omega

theorem text_lt_of_before {a b : Civil} (hb : b.Valid) (hyear : b.year < 10000)
    (h : a.Before b) : a.text < b.text := by
  have := hb.month_le
  have := hb.day_le.trans (daysInMonth_le _ _)
  have := hb.hour_lt
  have := hb.minute_lt
  have := hb.second_lt
  refine field_lt (by omega) (h.imp id fun h => ⟨h.1, separator_lt ?_⟩)
  refine field_lt (by omega) (h.2.imp id fun h => ⟨h.1, separator_lt ?_⟩)
  refine field_lt (by omega) (h.2.imp id fun h => ⟨h.1, separator_lt ?_⟩)
  refine field_lt (by omega) (h.2.imp id fun h => ⟨h.1, separator_lt ?_⟩)
  refine field_lt (by omega) (h.2.imp id fun h => ⟨h.1, separator_lt ?_⟩)
  have := padded_lt h.2 (show b.second < 10 ^ 2 by omega)
  exact this

theorem text_lt_iff {a b : Civil} (ha : a.Valid) (hb : b.Valid) (hyear : a.year < 10000)
    (hyear' : b.year < 10000) : a.text < b.text ↔ a.seconds < b.seconds := by
  rw [← before_iff ha hb]
  refine ⟨fun h => ?_, text_lt_of_before hb hyear'⟩
  rcases before_total a b with hab | rfl | hba
  · exact hab
  · exact absurd h (lt_irrefl _)
  · exact absurd h (lt_asymm (text_lt_of_before ha hyear hba))

/-! Reading. -/

def digitOf (c : Char) : Option ℕ :=
  if '0' ≤ c ∧ c ≤ '9' then some (c.toNat - '0'.toNat) else none

/-- The value of exactly `width` digits in front of a text, and what follows them. -/
def readNumber : ℕ → ℕ → List Char → Option (ℕ × List Char)
  | 0, value, rest => some (value, rest)
  | _ + 1, _, [] => none
  | width + 1, value, c :: rest =>
    match digitOf c with
    | some digit => readNumber width (10 * value + digit) rest
    | none => none

theorem digitOf_digitChar {n : ℕ} (h : n < 10) : digitOf (Nat.digitChar n) = some n := by
  interval_cases n <;> decide

theorem readNumber_append (c : Char) {digit : ℕ} (hc : digitOf c = some digit)
    (rest : List Char) : ∀ (width value : ℕ) (text : List Char) (found : ℕ),
      text.length = width → readNumber width value text = some (found, []) →
        readNumber (width + 1) value (text ++ c :: rest) = some (10 * found + digit, rest)
  | 0, value, [], found, _, h => by
    cases h
    simp [readNumber, hc]
  | width + 1, value, x :: text, found, hlength, h => by
    rw [List.cons_append, readNumber]
    rw [readNumber] at h
    cases hx : digitOf x with
    | none =>
      rw [hx] at h
      cases h
    | some d =>
      rw [hx] at h
      exact readNumber_append c hc rest width _ text found (by simpa using hlength) h

theorem readNumber_padded : ∀ (width n : ℕ) (rest : List Char), n < 10 ^ width →
    readNumber width 0 (padded width n ++ rest) = some (n, rest)
  | 0, n, rest, h => by
    obtain rfl : n = 0 := by omega
    rfl
  | width + 1, n, rest, h => by
    rw [pow_succ] at h
    have hinitial := readNumber_padded width (n / 10) [] (by omega)
    rw [List.append_nil] at hinitial
    rw [padded, List.append_assoc, List.singleton_append,
      readNumber_append _ (digitOf_digitChar (Nat.mod_lt n (by norm_num))) rest width 0 _ _
        (length_padded ..) hinitial]
    congr 2
    omega

def valueOf (digits : List Char) : ℕ :=
  digits.foldl (fun n c => 10 * n + (digitOf c).getD 0) 0

def isDigit (c : Char) : Bool := (digitOf c).isSome

theorem digitChar_digitOf {c : Char} (h : isDigit c = true) :
    (digitOf c).getD 0 < 10 ∧ Nat.digitChar ((digitOf c).getD 0) = c := by
  unfold isDigit digitOf at h
  split at h
  · rename_i hc
    have hlow : 48 ≤ c.toNat := hc.1
    have hhigh : c.toNat ≤ 57 := hc.2
    have hdigit : (digitOf c).getD 0 = c.toNat - 48 := by
      rw [digitOf, if_pos hc]
      rfl
    rw [hdigit]
    refine ⟨by omega, Char.ext (UInt32.toNat_inj.mp ?_)⟩
    have hval : c.val.toNat = c.toNat := rfl
    rw [hval]
    interval_cases c.toNat <;> rfl
  · cases h

theorem padded_valueOf {digits : List Char} (h : ∀ c ∈ digits, isDigit c = true) :
    padded digits.length (valueOf digits) = digits ∧ valueOf digits < 10 ^ digits.length := by
  induction digits using List.reverseRecOn with
  | nil => exact ⟨rfl, by decide⟩
  | append_singleton digits c ih =>
    obtain ⟨ihtext, ihlt⟩ := ih fun d hd => h d (List.mem_append_left _ hd)
    obtain ⟨hlt, hc⟩ := digitChar_digitOf (h c (by simp))
    have hvalue : valueOf (digits ++ [c]) = 10 * valueOf digits + (digitOf c).getD 0 := by
      simp [valueOf]
    rw [hvalue, List.length_append, List.length_singleton, padded, pow_succ]
    refine ⟨?_, by omega⟩
    rw [show (10 * valueOf digits + (digitOf c).getD 0) / 10 = valueOf digits by omega,
      show (10 * valueOf digits + (digitOf c).getD 0) % 10 = (digitOf c).getD 0 by omega,
      ihtext, hc]

theorem isDigit_padded : ∀ (width n : ℕ), ∀ c ∈ padded width n, isDigit c = true
  | 0, _, c, h => by cases h
  | width + 1, n, c, h => by
    rcases List.mem_append.mp h with h | h
    · exact isDigit_padded width _ c h
    · rw [List.mem_singleton.mp h, isDigit, digitOf_digitChar (Nat.mod_lt n (by norm_num))]
      rfl

end Calendar
