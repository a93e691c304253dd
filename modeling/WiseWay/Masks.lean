import Mathlib.Data.List.Forall2
import Mathlib.Tactic.Linarith
import WiseWay.Rules
import WiseWay.Wildcards

/-! # Masks

The loop of `_match_glob` against the patterns that a mask is meant to describe. The loop asks
for equal characters before it asks for a star, so a star of the mask that meets a `*` of the
value takes this one character: what it decides is the pattern with `*` pinned. -/
namespace Masks

open Records Rules Wildcards

def symbol (c : Char) : Symbol Char :=
  if c = '*' then .star else if c = '?' then .one else .itself c

def isStar (c : Char) : Bool := c = '*'

/-- The mask prescribes a cut of the value into one part for each of its characters. -/
def Prescribed (mask value : Text) : Prop :=
  ∃ parts : List Text, List.Forall₂ (fun c part => StandsFor (symbol c) part) mask parts ∧
    parts.flatten = value

/-- There is such a cut in which a star whose part would begin at a `*` takes just that. -/
def PinnedSplit (mask value : Text) : Prop := Splits isStar (mask.map symbol) value

theorem prescribed_iff {mask value : Text} :
    Prescribed mask value ↔ Splits (fun _ => false) (mask.map symbol) value := by
  rw [splits_free]
  unfold Prescribed
  simp only [List.forall₂_map_left_iff]

theorem PinnedSplit.prescribed {mask value : Text} (h : PinnedSplit mask value) :
    Prescribed mask value :=
  prescribed_iff.mpr h.free

theorem takes_iff {m c : Char} : Takes isStar (symbol m) c ↔ m = '?' ∨ m = c := by
  unfold symbol
  by_cases hstar : m = '*'
  · subst hstar
    simp [Takes, isStar, eq_comm]
  · by_cases hone : m = '?'
    · simp [hone, Takes]
    · simp [hstar, hone, Takes]

def restMask (mask : Text) (i : ℕ) : List (Symbol Char) := (mask.drop i).map symbol

theorem restMask_cons {mask : Text} {i : ℕ} {c : Char} (h : mask[i]? = some c) :
    restMask mask i = symbol c :: restMask mask (i + 1) := by
  obtain ⟨hi, rfl⟩ := List.getElem?_eq_some_iff.mp h
  unfold restMask
  rw [List.drop_eq_getElem_cons hi, List.map_cons]

theorem drop_cons {value : Text} {i : ℕ} {c : Char} (h : value[i]? = some c) :
    value.drop i = c :: value.drop (i + 1) := by
  obtain ⟨hi, rfl⟩ := List.getElem?_eq_some_iff.mp h
  exact List.drop_eq_getElem_cons hi

/-- The last star is still to be moved on: some later place for it completes the split. -/
def Retry (mask value : Text) (c : GlobCursor) : Prop :=
  ∃ star, c.lastStar = some star ∧ ∃ rest, rest <:+ value.drop (c.retryValue + 1) ∧
    Splits isStar (restMask mask (star + 1)) rest

/-- Since the last star every symbol took one character, and nothing that was given up could
still complete the split. -/
structure Reads (mask value : Text) (c : GlobCursor) : Prop where
  retry_le : c.retryValue ≤ c.valueIndex
  valueIndex_le : c.valueIndex ≤ value.length
  aligned : ∀ star, c.lastStar = some star → ∃ done taken,
    restMask mask (star + 1) = done ++ restMask mask c.maskIndex ∧
      value.drop c.retryValue = taken ++ value.drop c.valueIndex ∧
        List.Forall₂ (Takes isStar) done taken
  answer : PinnedSplit mask value ↔
    Splits isStar (restMask mask c.maskIndex) (value.drop c.valueIndex) ∨ Retry mask value c

theorem reads_start (mask value : Text) : Reads mask value ⟨0, 0, none, 0⟩ := by
  refine ⟨Nat.le_refl _, Nat.zero_le _, ?_, ?_⟩
  · rintro star ⟨⟩
  · have hretry : ¬Retry mask value ⟨0, 0, none, 0⟩ := by
      rintro ⟨star, ⟨⟩, _⟩
    simp [hretry, PinnedSplit, restMask]

theorem Reads.advance {mask value : Text} {c : GlobCursor} (h : Reads mask value c) {m d : Char}
    (hm : mask[c.maskIndex]? = some m) (hd : value[c.valueIndex]? = some d)
    (htakes : Takes isStar (symbol m) d) :
    Reads mask value { c with maskIndex := c.maskIndex + 1, valueIndex := c.valueIndex + 1 } := by
  have hlt : c.valueIndex < value.length := (List.getElem?_eq_some_iff.mp hd).1
  refine ⟨Nat.le_succ_of_le h.retry_le, hlt, ?_, ?_⟩
  · intro star hstar
    obtain ⟨done, taken, hmask, hvalue, hdone⟩ := h.aligned star hstar
    refine ⟨done ++ [symbol m], taken ++ [d], ?_, ?_, ?_⟩
    · rw [hmask, restMask_cons hm, List.append_assoc, List.singleton_append]
    · rw [hvalue, drop_cons hd, List.append_assoc, List.singleton_append]
    · exact List.rel_append hdone (.cons htakes .nil)
  · rw [h.answer, restMask_cons hm, drop_cons hd, splits_takes htakes]
    rfl

/-- A star that meets another character becomes the last star. What the star before it could
still do, it can do as well. -/
theorem Reads.commit {mask value : Text} {c : GlobCursor} (h : Reads mask value c) {d : Char}
    (hm : mask[c.maskIndex]? = some '*') (hd : value[c.valueIndex]? = some d) (hstar : d ≠ '*') :
    Reads mask value ⟨c.maskIndex + 1, c.valueIndex, some c.maskIndex, c.valueIndex⟩ := by
  have hfree : isStar d = false := decide_eq_false hstar
  have hsplit : Splits isStar (restMask mask c.maskIndex) (value.drop c.valueIndex) ↔
      ∃ rest, rest <:+ value.drop c.valueIndex ∧
        Splits isStar (restMask mask (c.maskIndex + 1)) rest := by
    rw [restMask_cons hm, drop_cons hd]
    exact splits_star hfree
  refine ⟨Nat.le_refl _, h.valueIndex_le, ?_, ?_⟩
  · rintro star ⟨⟩
    exact ⟨[], [], rfl, rfl, .nil⟩
  · rw [h.answer]
    constructor
    · intro hold
      obtain ⟨rest, hrest, hlast⟩ : ∃ rest, rest <:+ value.drop c.valueIndex ∧
          Splits isStar (restMask mask (c.maskIndex + 1)) rest := by
        rcases hold with hold | ⟨star, hlast, rest, hrest, hold⟩
        · exact hsplit.mp hold
        · obtain ⟨done, taken, hmask, hvalue, hdone⟩ := h.aligned star hlast
          rw [hmask] at hold
          have hwhole : rest <:+ taken ++ value.drop c.valueIndex := by
            rw [← hvalue]
            exact hrest.trans (List.drop_suffix_drop_left value (Nat.le_succ _))
          obtain ⟨last, hsuffix, hsplits⟩ := splits_append_of_suffix hdone hwhole hold
          rw [restMask_cons hm] at hsplits
          obtain ⟨rest', hrest', hsplits⟩ := hsplits.tail
          exact ⟨rest', hrest'.trans hsuffix, hsplits⟩
      rw [drop_cons hd] at hrest
      rcases List.suffix_cons_iff.mp hrest with rfl | hrest
      · left
        rwa [drop_cons hd]
      · exact .inr ⟨_, rfl, rest, hrest, hlast⟩
    · intro hnew
      left
      rw [hsplit]
      rcases hnew with hnew | ⟨star, hlast, rest, hrest, hnew⟩
      · exact ⟨_, List.suffix_refl _, hnew⟩
      · cases hlast
        exact ⟨rest, hrest.trans (List.drop_suffix_drop_left value (Nat.le_succ _)), hnew⟩

theorem stuck {mask value : Text} {c : GlobCursor} {d : Char}
    (hd : value[c.valueIndex]? = some d)
    (htakes : ∀ m, mask[c.maskIndex]? = some m → ¬Takes isStar (symbol m) d ∧ m ≠ '*') :
    ¬Splits isStar (restMask mask c.maskIndex) (value.drop c.valueIndex) := by
  intro hsplit
  rw [drop_cons hd] at hsplit
  cases hm : mask[c.maskIndex]? with
  | none =>
    have hnil : restMask mask c.maskIndex = [] := by
      unfold restMask
      rw [List.drop_eq_nil_of_le (List.getElem?_eq_none_iff.mp hm), List.map_nil]
    rw [hnil] at hsplit
    cases hsplit
  | some m =>
    obtain ⟨hno, hstar⟩ := htakes m hm
    rw [takes_iff] at hno
    have hsymbol : symbol m = .itself m := by
      unfold symbol
      rw [if_neg hstar, if_neg fun h => hno (.inl h)]
    rw [restMask_cons hm, hsymbol] at hsplit
    cases hsplit with
    | itself _ => exact hno (.inr rfl)

theorem Reads.retry {mask value : Text} {c : GlobCursor} (h : Reads mask value c) {d : Char}
    (hd : value[c.valueIndex]? = some d) {star : ℕ} (hlast : c.lastStar = some star)
    (hstuck : ¬Splits isStar (restMask mask c.maskIndex) (value.drop c.valueIndex)) :
    Reads mask value ⟨star + 1, c.retryValue + 1, some star, c.retryValue + 1⟩ := by
  have hlt : c.valueIndex < value.length := (List.getElem?_eq_some_iff.mp hd).1
  have hle := h.retry_le
  refine ⟨Nat.le_refl _, by show c.retryValue + 1 ≤ value.length; omega, ?_, ?_⟩
  · rintro star' ⟨⟩
    exact ⟨[], [], rfl, rfl, .nil⟩
  · rw [h.answer]
    constructor
    · rintro (hold | ⟨star', hlast', rest, hrest, hold⟩)
      · exact absurd hold hstuck
      · obtain rfl : star = star' := Option.some.inj (hlast.symm.trans hlast')
        by_cases hwhole : rest = value.drop (c.retryValue + 1)
        · left
          rwa [← hwhole]
        · right
          refine ⟨star, rfl, rest, ?_, hold⟩
          show rest <:+ value.drop (c.retryValue + 1 + 1)
          cases hnext : value[c.retryValue + 1]? with
          | none =>
            rw [List.drop_eq_nil_of_le (List.getElem?_eq_none_iff.mp hnext)] at hrest hwhole
            exact absurd (List.suffix_nil.mp hrest) hwhole
          | some e =>
            rw [drop_cons hnext] at hrest hwhole
            exact (List.suffix_cons_iff.mp hrest).resolve_left hwhole
    · rintro (hnew | ⟨star', hlast', rest, hrest, hnew⟩)
      · exact .inr ⟨star, hlast, _, List.suffix_refl _, hnew⟩
      · cases hlast'
        refine .inr ⟨star, hlast, rest, ?_, hnew⟩
        exact hrest.trans (List.drop_suffix_drop_left value (Nat.le_succ _))

/-- At the end of the value the stars that are left take nothing. -/
theorem Reads.finish {mask value : Text} {c : GlobCursor} (h : Reads mask value c)
    (hend : value.length ≤ c.valueIndex) :
    (mask.drop c.maskIndex).all (· = '*') = true ↔ PinnedSplit mask value := by
  have hnil : value.drop c.valueIndex = [] := List.drop_eq_nil_of_le hend
  have hstars : (mask.drop c.maskIndex).all (· = '*') = true ↔
      Splits isStar (restMask mask c.maskIndex) [] := by
    rw [splits_nil, List.all_eq_true]
    unfold restMask
    rw [List.forall_mem_map]
    refine forall₂_congr fun m _ => ?_
    unfold symbol
    by_cases hstar : m = '*'
    · simp [hstar]
    · by_cases hone : m = '?'
      · simp [hone]
      · simp [hstar, hone]
  rw [hstars, h.answer, hnil]
  constructor
  · exact .inl
  · rintro (hold | ⟨star, hlast, rest, hrest, hold⟩)
    · exact hold
    · obtain ⟨done, taken, hmask, hvalue, hdone⟩ := h.aligned star hlast
      rw [hmask] at hold
      have hwhole : rest <:+ taken ++ [] := by
        rw [← hnil, ← hvalue]
        exact hrest.trans (List.drop_suffix_drop_left value (Nat.le_succ _))
      obtain ⟨last, hsuffix, hsplit⟩ := splits_append_of_suffix hdone hwhole hold
      rwa [List.suffix_nil.mp hsuffix] at hsplit

theorem globTurn_cases {mask value : Text} {c : GlobCursor} (h : Reads mask value c) :
    (∃ next, globTurn mask value c = .inl next ∧ Reads mask value next ∧
      (next.maskIndex = c.maskIndex + 1 ∧ c.maskIndex < mask.length ∧
        c.retryValue ≤ next.retryValue ∨ next.retryValue = c.retryValue + 1) ∧
      next.retryValue ≤ value.length) ∨
    ∃ result, globTurn mask value c = .inr result ∧
      (result = true ↔ PinnedSplit mask value) := by
  unfold globTurn
  split
  · rename_i hlt
    obtain ⟨d, hd⟩ : ∃ d, value[c.valueIndex]? = some d := ⟨_, List.getElem?_eq_getElem hlt⟩
    have hle := h.retry_le
    split
    · rename_i hchar
      left
      obtain ⟨hm, hchar⟩ := hchar
      have hget : mask[c.maskIndex]? = some mask[c.maskIndex] := List.getElem?_eq_getElem hm
      have htakes : Takes isStar (symbol mask[c.maskIndex]) d := by
        rw [takes_iff]
        rw [hget, hd] at hchar
        exact hchar.imp Option.some.inj Option.some.inj
      refine ⟨_, rfl, h.advance hget hd htakes, .inl ⟨rfl, hm, Nat.le_refl _⟩, ?_⟩
      show c.retryValue ≤ value.length
      omega
    · rename_i hchar
      split
      · rename_i hstar
        left
        obtain ⟨hm, hstar⟩ := hstar
        have hd' : d ≠ '*' := by
          rintro rfl
          exact hchar ⟨hm, .inr (hstar.trans hd.symm)⟩
        exact ⟨_, rfl, h.commit hstar hd hd', .inl ⟨rfl, hm, hle⟩, h.valueIndex_le⟩
      · rename_i hstar
        have hstuck := stuck (c := c) hd fun m hm => by
          have hlt' : c.maskIndex < mask.length := (List.getElem?_eq_some_iff.mp hm).1
          rw [takes_iff]
          constructor
          · rintro (rfl | rfl)
            · exact hchar ⟨hlt', .inl hm⟩
            · exact hchar ⟨hlt', .inr (hm.trans hd.symm)⟩
          · rintro rfl
            exact hstar ⟨hlt', hm⟩
        split
        · rename_i star hlast
          left
          refine ⟨_, rfl, h.retry hd hlast hstuck, .inr rfl, ?_⟩
          show c.retryValue + 1 ≤ value.length
          omega
        · rename_i hlast
          right
          refine ⟨false, rfl, ?_⟩
          rw [h.answer]
          constructor
          · intro hfalse
            cases hfalse
          · rintro (hold | ⟨star, hbad, _⟩)
            · exact absurd hold hstuck
            · rw [hlast] at hbad
              cases hbad
  · rename_i hend
    exact .inr ⟨_, rfl, h.finish (Nat.le_of_not_lt hend)⟩

/-- The characters a retry can still move to, weighed against the mask that is left. -/
def turnsLeft (mask value : Text) (c : GlobCursor) : ℕ :=
  (value.length - c.retryValue) * (mask.length + 1) + (mask.length - c.maskIndex)

theorem turnsLeft_lt {mask value : Text} {c next : GlobCursor}
    (hnext : next.maskIndex = c.maskIndex + 1 ∧ c.maskIndex < mask.length ∧
      c.retryValue ≤ next.retryValue ∨ next.retryValue = c.retryValue + 1)
    (hle : next.retryValue ≤ value.length) :
    turnsLeft mask value next < turnsLeft mask value c := by
  unfold turnsLeft
  rcases hnext with ⟨hmask, hlt, hretry⟩ | hretry
  · have hmono : (value.length - next.retryValue) * (mask.length + 1) ≤
        (value.length - c.retryValue) * (mask.length + 1) :=
      Nat.mul_le_mul_right _ (Nat.sub_le_sub_left hretry _)
    omega
  · obtain ⟨k, hk⟩ : ∃ k, value.length - c.retryValue = k + 1 :=
      Nat.exists_eq_add_one.mpr (by omega)
    have hk' : value.length - next.retryValue = k := by omega
    rw [hk, hk', Nat.succ_mul]
    omega

theorem globLoop_decides {mask value : Text} : ∀ {n : ℕ} {c : GlobCursor},
    Reads mask value c → turnsLeft mask value c < n →
      ∃ result, globLoop mask value n c = some result ∧
        (result = true ↔ PinnedSplit mask value)
  | 0, c, _, hn => absurd hn (Nat.not_lt_zero _)
  | n + 1, c, h, hn => by
    rcases globTurn_cases h with ⟨next, hturn, hnext, hmoves, hle⟩ | ⟨result, hturn, hanswer⟩
    · have hless := turnsLeft_lt hmoves hle
      obtain ⟨result, hloop, hanswer⟩ := globLoop_decides hnext (n := n) (by omega)
      refine ⟨result, ?_, hanswer⟩
      rw [globLoop, hturn]
      exact hloop
    · refine ⟨result, ?_, hanswer⟩
      rw [globLoop, hturn]

theorem turnsLeft_start (mask value : Text) : turnsLeft mask value ⟨0, 0, none, 0⟩ <
    (value.length + 1) * (mask.length + value.length + 2) := by
  unfold turnsLeft
  show (value.length - 0) * (mask.length + 1) + (mask.length - 0) < _
  rw [Nat.sub_zero, Nat.sub_zero]
  nlinarith [Nat.zero_le (value.length * value.length)]

theorem matchGlob_eq_true {mask value : Text} :
    matchGlob mask value = true ↔ PinnedSplit mask value := by
  obtain ⟨result, hloop, hanswer⟩ :=
    globLoop_decides (reads_start mask value) (turnsLeft_start mask value)
  unfold matchGlob
  rw [hloop]
  exact hanswer

/-- In a value without a `*` a mask means what it is meant to mean. -/
theorem matchGlob_plain {mask value : Text} (h : '*' ∉ value) :
    matchGlob mask value = true ↔ Prescribed mask value := by
  rw [matchGlob_eq_true]
  constructor
  · exact PinnedSplit.prescribed
  · intro hsplit
    refine (prescribed_iff.mp hsplit).pin fun c hc => decide_eq_false ?_
    rintro rfl
    exact h hc

/-- The loop always ends, and its answer is the one the mask prescribes exactly where a value
that can be cut at all can also be cut with every star pinned that meets a `*`. -/
theorem mask_matching (mask value : Text) :
    (∃ turns, globLoop mask value turns ⟨0, 0, none, 0⟩ = some (matchGlob mask value)) ∧
      ((matchGlob mask value = true ↔ Prescribed mask value) ↔
        (Prescribed mask value → PinnedSplit mask value)) := by
  constructor
  · obtain ⟨result, hloop, _⟩ :=
      globLoop_decides (reads_start mask value) (turnsLeft_start mask value)
    refine ⟨_, hloop.trans ?_⟩
    unfold matchGlob
    rw [hloop]
    rfl
  · rw [matchGlob_eq_true]
    constructor
    · exact fun h => h.mpr
    · exact fun h => ⟨PinnedSplit.prescribed, h⟩

/-- The mask `*a` and the name `*xa`. -/
theorem star_in_name : ¬(matchGlob "*a".toList "*xa".toList = true ↔
    Prescribed "*a".toList "*xa".toList) := by
  have hcut : Prescribed "*a".toList "*xa".toList :=
    ⟨["*x".toList, "a".toList], .cons trivial (.cons rfl .nil), rfl⟩
  have hfalse : matchGlob "*a".toList "*xa".toList = false := by decide +kernel
  rw [hfalse]
  intro h
  cases h.mpr hcut

end Masks
