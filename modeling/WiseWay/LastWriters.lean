import Mathlib.Data.List.Induction
import Mathlib.Order.Lattice

/-! # Stores in which the greatest version wins

A write is kept unless the store has a greater version of its key. Writes may come in any order
and more than once. What a store holds is then known from two facts: which writes it has seen,
and where its values come from. -/
namespace LastWriters

variable {K V A B : Type}

structure Write (K V A : Type) where
  key : K
  version : V
  value : A

abbrev Store (K V A : Type) := K → Option (V × A)

/-- The store is not behind a write. -/
def Seen [LE V] (s : Store K V A) (w : Write K V A) : Prop :=
  ∃ version value, s w.key = some (version, value) ∧ w.version ≤ version

/-- Everything in the store was written by one of these. -/
def From (s : Store K V A) (P : Write K V A → Prop) : Prop :=
  ∀ k version value, s k = some (version, value) → P ⟨k, version, value⟩

/-! Writing. -/

section Writes

variable [DecidableEq K] [LinearOrder V]

def Store.write (s : Store K V A) (w : Write K V A) : Store K V A := fun k =>
  if k = w.key then
    match s k with
    | some (version, value) =>
      if version ≤ w.version then some (w.version, w.value) else some (version, value)
    | none => some (w.version, w.value)
  else s k

theorem write_other (s : Store K V A) {w : Write K V A} {k : K} (h : k ≠ w.key) :
    s.write w k = s k := if_neg h

theorem write_none {s : Store K V A} {w : Write K V A} (h : s w.key = none) :
    s.write w w.key = some (w.version, w.value) := by
  rw [Store.write, if_pos rfl, h]

theorem write_some {s : Store K V A} {w : Write K V A} {version : V} {value : A}
    (h : s w.key = some (version, value)) : s.write w w.key =
      if version ≤ w.version then some (w.version, w.value) else some (version, value) := by
  rw [Store.write, if_pos rfl, h]

theorem seen_write (s : Store K V A) (w : Write K V A) : Seen (s.write w) w := by
  cases hkey : s w.key with
  | none => exact ⟨w.version, w.value, write_none hkey, le_rfl⟩
  | some old =>
    have hnow := write_some hkey
    by_cases hle : old.1 ≤ w.version
    · exact ⟨w.version, w.value, hnow.trans (if_pos hle), le_rfl⟩
    · exact ⟨old.1, old.2, hnow.trans (if_neg hle), le_of_not_ge hle⟩

theorem Seen.write {s : Store K V A} {u : Write K V A} (h : Seen s u) (w : Write K V A) :
    Seen (s.write w) u := by
  obtain ⟨version, value, hkey, hle⟩ := h
  by_cases hsame : u.key = w.key
  · rw [hsame] at hkey
    have hnow := write_some hkey
    rw [Seen, hsame]
    by_cases hversion : version ≤ w.version
    · exact ⟨w.version, w.value, hnow.trans (if_pos hversion), le_trans hle hversion⟩
    · exact ⟨version, value, hnow.trans (if_neg hversion), hle⟩
  · exact ⟨version, value, (write_other s hsame).trans hkey, hle⟩

theorem From.write {s : Store K V A} {P : Write K V A → Prop} (h : From s P) {w : Write K V A}
    (hw : P w) : From (s.write w) P := by
  intro k version value hk
  unfold Store.write at hk
  split at hk
  · rename_i hsame
    subst hsame
    split at hk
    · rename_i old hold
      split at hk
      · cases hk
        exact hw
      · cases hk
        exact h _ _ _ hold
    · cases hk
      exact hw
  · exact h k version value hk

theorem seen_writes {s : Store K V A} {ws : List (Write K V A)} {u : Write K V A}
    (h : Seen s u ∨ u ∈ ws) : Seen (ws.foldl Store.write s) u := by
  induction ws generalizing s with
  | nil => exact h.resolve_right (List.not_mem_nil)
  | cons w ws ih =>
    apply ih
    rcases h with hseen | hmem
    · exact .inl (hseen.write w)
    · rcases List.mem_cons.mp hmem with rfl | hmem
      · exact .inl (seen_write s u)
      · exact .inr hmem

theorem From.writes {s : Store K V A} {P : Write K V A → Prop} (h : From s P)
    {ws : List (Write K V A)} (hws : ∀ w ∈ ws, P w) : From (ws.foldl Store.write s) P := by
  induction ws generalizing s with
  | nil => exact h
  | cons w ws ih =>
    apply ih
    · exact h.write (hws w (List.mem_cons_self ..))
    · intro u hu
      exact hws u (List.mem_cons_of_mem _ hu)

end Writes

/-! Writes in the order of their versions, against the same assignments in that order. -/

section Order

variable [DecidableEq K]

def lastWrite (k : K) (ws : List (Write K V A)) : Option (Write K V A) :=
  ws.reverse.find? fun w => w.key = k

theorem lastWrite_append (k : K) (ws : List (Write K V A)) (w : Write K V A) :
    lastWrite k (ws ++ [w]) = if w.key = k then some w else lastWrite k ws := by
  rw [lastWrite, List.reverse_append, List.reverse_singleton, List.singleton_append,
    List.find?_cons]
  by_cases h : w.key = k
  · simp [h]
  · simp [h, lastWrite]

theorem lastWrite_some {k : K} {ws : List (Write K V A)} {w : Write K V A}
    (h : lastWrite k ws = some w) : w ∈ ws ∧ w.key = k := by
  have hmem := List.mem_of_find?_eq_some h
  have hkey := List.find?_some h
  exact ⟨List.mem_reverse.mp hmem, of_decide_eq_true hkey⟩

theorem lastWrite_none {k : K} {ws : List (Write K V A)} (h : lastWrite k ws = none) :
    ∀ w ∈ ws, w.key ≠ k := by
  intro w hw hkey
  have hnot := List.find?_eq_none.mp h w (List.mem_reverse.mpr hw)
  exact hnot (decide_eq_true hkey)

theorem lastWrite_max [Preorder V] {k : K} {ws : List (Write K V A)} {w u : Write K V A}
    (hasc : ws.Pairwise fun a b => a.version < b.version) (h : lastWrite k ws = some w)
    (hu : u ∈ ws) (hkey : u.key = k) : u = w ∨ u.version < w.version := by
  induction ws using List.reverseRecOn with
  | nil => cases hu
  | append_singleton ws last ih =>
    rw [List.pairwise_append] at hasc
    rw [lastWrite_append] at h
    split at h
    · cases h
      rcases List.mem_append.mp hu with hu | hu
      · exact .inr (hasc.2.2 u hu _ (List.mem_singleton_self _))
      · exact .inl (List.mem_singleton.mp hu)
    · rename_i hlast
      rcases List.mem_append.mp hu with hu | hu
      · exact ih hasc.1 h hu
      · rw [List.mem_singleton.mp hu] at hkey
        exact absurd hkey hlast

theorem read_eq_lastWrite [LinearOrder V] {s : Store K V A} {ws : List (Write K V A)}
    (hasc : ws.Pairwise fun a b => a.version < b.version) (hseen : ∀ w ∈ ws, Seen s w)
    (hfrom : From s (· ∈ ws)) (k : K) :
    s k = (lastWrite k ws).map fun w => (w.version, w.value) := by
  cases hlast : lastWrite k ws with
  | none =>
    cases hk : s k with
    | none => rfl
    | some held => exact absurd rfl (lastWrite_none hlast _ (hfrom k held.1 held.2 hk))
  | some w =>
    obtain ⟨hw, hkey⟩ := lastWrite_some hlast
    obtain ⟨version, value, hk, hle⟩ := hseen w hw
    rw [hkey] at hk
    have hheld := hfrom k version value hk
    rcases lastWrite_max hasc hlast hheld rfl with rfl | hlt
    · exact hk
    · exact absurd hle (not_le_of_gt hlt)

/-- An assignment gives its key a value or takes it away. -/
def assign (s : K → Option B) (u : K × Option B) : K → Option B := fun k =>
  if k = u.1 then u.2 else s k

theorem foldl_assign (value : A → Option B) (ws : List (Write K V A)) (k : K) :
    (ws.foldl (fun s w => assign s (w.key, value w.value)) fun _ => none) k =
      (lastWrite k ws).bind fun w => value w.value := by
  induction ws using List.reverseRecOn with
  | nil => rfl
  | append_singleton ws w ih =>
    rw [List.foldl_append, List.foldl_cons, List.foldl_nil, lastWrite_append, assign]
    by_cases h : w.key = k
    · simp [h]
    · rw [if_neg h, if_neg fun hk => h hk.symm, ih]

end Order

end LastWriters
