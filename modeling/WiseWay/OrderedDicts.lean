import Mathlib.Algebra.Order.BigOperators.Group.List
import Mathlib.Algebra.Order.Group.Nat
import Mathlib.Algebra.Ring.Nat
import Mathlib.Data.List.Nodup
import Mathlib.Tactic.Common

/-! # Insertion-ordered dictionaries

A dictionary that remembers the order of its keys: an assignment keeps the place of a key it
has, a new key goes last, and the first key is the one to evict. -/
namespace OrderedDicts

variable {K V : Type*}

structure OrderedDict (K V : Type*) where
  entries : List (K × V)
  distinct : (entries.map Prod.fst).Nodup

def OrderedDict.empty : OrderedDict K V := ⟨[], List.nodup_nil⟩

def OrderedDict.keys (d : OrderedDict K V) : List K := d.entries.map Prod.fst

def OrderedDict.values (d : OrderedDict K V) : List V := d.entries.map Prod.snd

def OrderedDict.size (d : OrderedDict K V) : ℕ := d.entries.length

theorem distinct_filter {entries : List (K × V)} (h : (entries.map Prod.fst).Nodup)
    (p : K × V → Bool) : ((entries.filter p).map Prod.fst).Nodup :=
  h.sublist (List.filter_sublist.map Prod.fst)

theorem distinct_append {entries : List (K × V)} {k : K}
    (h : (entries.map Prod.fst).Nodup) (hk : k ∉ entries.map Prod.fst) (v : V) :
    ((entries ++ [(k, v)]).map Prod.fst).Nodup := by
  rw [List.map_append, List.map_singleton]
  exact List.nodup_append_comm.mp (List.nodup_cons.mpr ⟨hk, h⟩)

variable [DecidableEq K]

def OrderedDict.get (d : OrderedDict K V) (k : K) : Option V := d.entries.lookup k

def OrderedDict.pop (d : OrderedDict K V) (k : K) : OrderedDict K V :=
  ⟨d.entries.filter (·.1 ≠ k), distinct_filter d.distinct _⟩

theorem key_popped (entries : List (K × V)) (k : K) :
    k ∉ (entries.filter (·.1 ≠ k)).map Prod.fst := by
  intro h
  obtain ⟨e, he, hk⟩ := List.mem_map.mp h
  exact of_decide_eq_true (List.mem_filter.mp he).2 hk

def overwrite (k : K) (v : V) (e : K × V) : K × V := if e.1 = k then (k, v) else e

theorem overwrite_key (k : K) (v : V) (e : K × V) : (overwrite k v e).1 = e.1 := by
  unfold overwrite
  split
  · next h => exact h.symm
  · rfl

theorem keys_overwrite (entries : List (K × V)) (k : K) (v : V) :
    (entries.map (overwrite k v)).map Prod.fst = entries.map Prod.fst := by
  rw [List.map_map]
  exact List.map_congr_left fun e _ => overwrite_key k v e

def OrderedDict.set (d : OrderedDict K V) (k : K) (v : V) : OrderedDict K V :=
  if h : k ∈ d.entries.map Prod.fst then
    ⟨d.entries.map (overwrite k v), by rw [keys_overwrite]; exact d.distinct⟩
  else ⟨d.entries ++ [(k, v)], distinct_append d.distinct h v⟩

def OrderedDict.moveToEnd (d : OrderedDict K V) (k : K) : OrderedDict K V :=
  match d.get k with
  | none => d
  | some v => ⟨d.entries.filter (·.1 ≠ k) ++ [(k, v)],
      distinct_append (distinct_filter d.distinct _) (key_popped d.entries k) v⟩

/-! Lookups. -/

variable {d : OrderedDict K V} {k k' : K} {v : V}

theorem lookup_eq_some {entries : List (K × V)} (h : (entries.map Prod.fst).Nodup) :
    entries.lookup k = some v ↔ (k, v) ∈ entries := by
  induction entries with
  | nil => simp
  | cons e entries ih =>
    obtain ⟨a, b⟩ := e
    rw [List.map_cons, List.nodup_cons] at h
    by_cases hk : k = a
    · subst hk
      have hrest : (k, v) ∉ entries := fun hmem => h.1 (List.mem_map.mpr ⟨(k, v), hmem, rfl⟩)
      simp [hrest, eq_comm]
    · have hbeq : (k == a) = false := beq_eq_false_iff_ne.mpr hk
      simp [List.lookup_cons, hbeq, hk, ih h.2]

theorem get_eq_some : d.get k = some v ↔ (k, v) ∈ d.entries := lookup_eq_some d.distinct

theorem get_isSome : (d.get k).isSome ↔ k ∈ d.keys := by
  rw [Option.isSome_iff_exists]
  constructor
  · rintro ⟨v, h⟩
    exact List.mem_map.mpr ⟨(k, v), get_eq_some.mp h, rfl⟩
  · intro h
    obtain ⟨⟨a, v⟩, he, rfl⟩ := List.mem_map.mp h
    exact ⟨v, get_eq_some.mpr he⟩

theorem get_eq_none : d.get k = none ↔ k ∉ d.keys := by
  rw [← get_isSome, Option.not_isSome_iff_eq_none]

@[simp] theorem get_empty : (OrderedDict.empty : OrderedDict K V).get k = none := rfl

theorem get_pop : (d.pop k).get k' = if k' = k then none else d.get k' := by
  apply Option.ext
  intro v
  rw [get_eq_some, OrderedDict.pop, List.mem_filter, decide_eq_true_eq, ← get_eq_some]
  by_cases h : k' = k <;> simp [h]

theorem get_set : (d.set k v).get k' = if k' = k then some v else d.get k' := by
  apply Option.ext
  intro u
  rw [get_eq_some]
  by_cases hmem : k ∈ d.entries.map Prod.fst
  · rw [OrderedDict.set, dif_pos hmem, List.mem_map]
    obtain ⟨old, hold, hkey⟩ := List.mem_map.mp hmem
    by_cases hk : k' = k
    · rw [if_pos hk, hk]
      constructor
      · rintro ⟨e, -, he⟩
        have hfst : e.1 = k := by rw [← overwrite_key k v e, he]
        rw [overwrite, if_pos hfst, Prod.mk.injEq] at he
        exact congrArg some he.2
      · intro hu
        refine ⟨old, hold, ?_⟩
        rw [overwrite, if_pos hkey, Option.some.inj hu]
    · rw [if_neg hk, get_eq_some]
      constructor
      · rintro ⟨e, he, heq⟩
        have hfst : e.1 ≠ k := by rwa [← overwrite_key k v e, heq]
        rw [overwrite, if_neg hfst] at heq
        rwa [← heq]
      · intro he
        exact ⟨(k', u), he, if_neg hk⟩
  · rw [OrderedDict.set, dif_neg hmem, List.mem_append, List.mem_singleton, Prod.mk.injEq]
    by_cases hk : k' = k
    · have hnone : (k', u) ∉ d.entries := fun he => hmem (List.mem_map.mpr ⟨_, he, hk⟩)
      simp [hk, hk ▸ hnone, eq_comm]
    · rw [if_neg hk, get_eq_some]
      simp [hk]

@[simp] theorem get_moveToEnd : (d.moveToEnd k).get k' = d.get k' := by
  rw [OrderedDict.moveToEnd]
  cases h : d.get k with
  | none => rfl
  | some v =>
    apply Option.ext
    intro u
    rw [get_eq_some, get_eq_some, List.mem_append, List.mem_filter, decide_eq_true_eq,
      List.mem_singleton, Prod.mk.injEq]
    by_cases hk : k' = k
    · rw [hk, ← get_eq_some, h]
      simp [eq_comm]
    · simp [hk]

theorem pop_eq_self : d.pop k = d ↔ d.get k = none := by
  constructor
  · intro h
    rw [← h, get_pop, if_pos rfl]
  · intro h
    have hkey := get_eq_none.mp h
    have hfilter : d.entries.filter (·.1 ≠ k) = d.entries := by
      rw [List.filter_eq_self]
      intro e he
      exact decide_eq_true fun hk => hkey (hk ▸ List.mem_map_of_mem he)
    obtain ⟨entries, distinct⟩ := d
    simp only [OrderedDict.pop, hfilter]

/-! Sizes. -/

theorem size_pop_le : (d.pop k).size ≤ d.size := List.length_filter_le ..

@[simp] theorem size_moveToEnd : (d.moveToEnd k).size = d.size := by
  rw [OrderedDict.moveToEnd]
  cases h : d.get k with
  | none => rfl
  | some v =>
    have hcount : (d.entries.filter (·.1 = k)).length = 1 := by
      have hkeys : (d.entries.map Prod.fst).count k = 1 :=
        List.count_eq_one_of_mem d.distinct (get_isSome.mp (by rw [h]; rfl))
      rw [← hkeys, List.count, List.countP_map, List.countP_eq_length_filter]
      congr 2
    have hsplit := List.length_eq_length_filter_add (l := d.entries) (fun e => decide (e.1 = k))
    simp only [OrderedDict.size, List.length_append, List.length_singleton, ne_eq,
      decide_not] at hsplit hcount ⊢
    omega

theorem sum_pop_le {d : OrderedDict K ℕ} : (d.pop k).values.sum ≤ d.values.sum :=
  List.Sublist.sum_le_sum (List.filter_sublist.map Prod.snd) fun _ _ => Nat.zero_le _

theorem entries_eq_nil (h : ∀ k, d.get k = none) : d.entries = [] := by
  rw [List.eq_nil_iff_forall_not_mem]
  rintro ⟨k, v⟩ hmem
  have hsome := get_eq_some.mpr hmem
  rw [h k] at hsome
  cases hsome

theorem get_tail {e : K × V} {rest : List (K × V)} (h : ((e :: rest).map Prod.fst).Nodup)
    (hrest : (rest.map Prod.fst).Nodup) :
    (⟨rest, hrest⟩ : OrderedDict K V).get k' =
      if k' = e.1 then none else (⟨e :: rest, h⟩ : OrderedDict K V).get k' := by
  rw [List.map_cons, List.nodup_cons] at h
  by_cases hk : k' = e.1
  · rw [if_pos hk, get_eq_none, hk]
    exact h.1
  · obtain ⟨a, b⟩ := e
    have hbeq : (k' == a) = false := beq_eq_false_iff_ne.mpr hk
    rw [if_neg hk, OrderedDict.get, OrderedDict.get, List.lookup_cons, hbeq]

end OrderedDicts
