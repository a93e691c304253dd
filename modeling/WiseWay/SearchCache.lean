import Mathlib.Algebra.BigOperators.Group.List.Basic
import Mathlib.Algebra.Order.Group.Int
import Mathlib.Algebra.Ring.Int.Defs
import Mathlib.Logic.Function.Basic
import WiseWay.OrderedDicts
import WiseWay.Records

/-! # The response cache

Concurrent calls of `SearchCache.get` share one dictionary of encoded results. Its critical
sections are single steps, a stripe is held from its entrance until the call leaves it, and
the clock shows any time at all. -/
namespace SearchCache

open OrderedDicts
open Records (Text)

/-- A JSON value at the top: a dictionary over the JSON values `J`, or no dictionary. -/
inductive Result (J : Type) where
  | dict (members : OrderedDict Text J)
  | other (value : J)

def requestStateId : Text := "request_state_id".toList

/-- `{**value, "request_state_id": id}`, a `TypeError` where the value is no dictionary. -/
def Result.withState {J : Type} (id : J) : Result J → Option (Result J)
  | .dict members => some (.dict (members.set requestStateId id))
  | .other _ => none

/-- `json` and `encode`: a result with a lone surrogate has no encoding. -/
structure Codec (J P : Type) where
  dumps : Result J → Option P
  loads : P → Result J
  length : P → ℕ

def Codec.Faithful {J P : Type} (codec : Codec J P) : Prop :=
  ∀ result payload, codec.dumps result = some payload → codec.loads payload = result

structure Limits where
  maxBytes : ℕ
  maxEntries : ℕ
  ttl : ℤ

/-- Everything that the key of a call is the digest of. -/
structure Query (G O B : Type) where
  generation : G
  operation : O
  body : B
  deriving DecidableEq

/-- The shared state: payloads with their time of expiry, and the sum of their lengths. -/
structure Cache (K P : Type) where
  values : OrderedDict K (ℤ × P)
  bytes : ℤ

def Cache.fresh {K P : Type} : Cache K P := ⟨OrderedDict.empty, 0⟩

section Sections

variable {K P : Type} (length : P → ℕ)

/-- The eviction loop; the entry that was used longest ago stands first. -/
def evict (limits : Limits) (size : ℕ) : (entries : List (K × (ℤ × P))) →
    (entries.map Prod.fst).Nodup → ℤ → Cache K P
  | [], h, bytes => ⟨⟨[], h⟩, bytes⟩
  | (key, removed) :: rest, h, bytes =>
    if limits.maxBytes < bytes + size ∨ limits.maxEntries ≤ rest.length + 1 then
      evict limits size rest (List.nodup_cons.mp h).2 (bytes - length removed.2)
    else ⟨⟨(key, removed) :: rest, h⟩, bytes⟩

def lengths (entries : List (K × (ℤ × P))) : ℤ := (entries.map fun e => (length e.2.2 : ℤ)).sum

variable {length}

/-- The loop stops with room for the payload and for one more entry. -/
theorem evict_spec {limits : Limits} {size : ℕ} (hsize : size ≤ limits.maxBytes)
    (hone : 1 ≤ limits.maxEntries) {entries : List (K × (ℤ × P))}
    (hkeys : (entries.map Prod.fst).Nodup) {bytes : ℤ}
    (hsum : bytes = lengths length entries) :
    let kept := evict length limits size entries hkeys bytes
    kept.values.entries <:+ entries ∧ kept.bytes = lengths length kept.values.entries ∧
      kept.bytes + size ≤ limits.maxBytes ∧ kept.values.size + 1 ≤ limits.maxEntries := by
  induction entries generalizing bytes with
  | nil =>
    refine ⟨List.suffix_refl _, hsum, ?_, hone⟩
    have hzero : bytes = 0 := hsum
    show bytes + size ≤ limits.maxBytes
    omega
  | cons entry rest ih =>
    obtain ⟨key, removed⟩ := entry
    by_cases hfull : limits.maxBytes < bytes + size ∨ limits.maxEntries ≤ rest.length + 1
    · have hrest : bytes - length removed.2 = lengths length rest := by
        rw [hsum]
        simp only [lengths, List.map_cons, List.sum_cons]
        omega
      have hspec := ih (List.nodup_cons.mp hkeys).2 hrest
      have hstep : evict length limits size ((key, removed) :: rest) hkeys bytes =
          evict length limits size rest (List.nodup_cons.mp hkeys).2
            (bytes - length removed.2) := if_pos hfull
      simp only [hstep]
      exact ⟨hspec.1.trans (List.suffix_cons _ _), hspec.2⟩
    · have hstep : evict length limits size ((key, removed) :: rest) hkeys bytes =
          ⟨⟨(key, removed) :: rest, hkeys⟩, bytes⟩ := if_neg hfull
      rw [not_or] at hfull
      simp only [hstep]
      refine ⟨List.suffix_refl _, hsum, not_lt.mp hfull.1, ?_⟩
      exact not_le.mp hfull.2

section Code

variable [DecidableEq K] (length)

/-- The critical section before the computation; a hit moves to the end. -/
def Cache.lookUp (c : Cache K P) (key : K) (now : ℤ) : Option P × Cache K P :=
  match c.values.get key with
  | none => (none, c)
  | some saved =>
    let popped : Cache K P := ⟨c.values.pop key, c.bytes - length saved.2⟩
    if now < saved.1 then
      (some saved.2, ⟨popped.values.set key saved, popped.bytes + length saved.2⟩)
    else (none, popped)

def Cache.store (limits : Limits) (c : Cache K P) (key : K) (now : ℤ) (payload : P) :
    Cache K P :=
  let kept := evict length limits (length payload) c.values.entries c.values.distinct c.bytes
  ⟨kept.values.set key (now + limits.ttl, payload), kept.bytes + length payload⟩

end Code

/-! ## Accounting -/

variable (length) in
structure Accounted (limits : Limits) (c : Cache K P) : Prop where
  sum : c.bytes = lengths length c.values.entries
  bytes_le : c.bytes ≤ limits.maxBytes
  entries_le : c.values.size ≤ limits.maxEntries

variable [DecidableEq K] {limits : Limits} {c : Cache K P} {key : K} {saved : ℤ × P}

theorem lengths_pop {d : OrderedDict K (ℤ × P)} (h : d.get key = some saved) :
    lengths length (d.pop key).entries = lengths length d.entries - length saved.2 := by
  have hmem := get_eq_some.mp h
  obtain ⟨before, after, hsplit⟩ := List.append_of_mem hmem
  have hkeys := d.distinct
  rw [hsplit, List.map_append, List.map_cons, List.nodup_append] at hkeys
  obtain ⟨-, hafter, hdisjoint⟩ := hkeys
  have hbefore : before.filter (fun e => decide (e.1 ≠ key)) = before := by
    rw [List.filter_eq_self]
    intro e he
    exact decide_eq_true (hdisjoint e.1 (List.mem_map_of_mem he) key List.mem_cons_self)
  have hrest : after.filter (fun e => decide (e.1 ≠ key)) = after := by
    rw [List.filter_eq_self]
    intro e he
    apply decide_eq_true
    intro hkey
    have he' : e.1 ∈ after.map Prod.fst := List.mem_map_of_mem he
    rw [hkey] at he'
    exact (List.nodup_cons.mp hafter).1 he'
  have hpop : (d.pop key).entries = before ++ after := by
    show d.entries.filter (fun e => decide (e.1 ≠ key)) = _
    rw [hsplit, List.filter_append, hbefore, List.filter_cons_of_neg (by simp), hrest]
  rw [hpop, hsplit]
  simp only [lengths, List.map_append, List.map_cons, List.sum_append, List.sum_cons]
  omega

theorem entries_set {d : OrderedDict K (ℤ × P)} (h : d.get key = none) :
    (d.set key saved).entries = d.entries ++ [(key, saved)] := by
  have hkey : key ∉ d.entries.map Prod.fst := get_eq_none.mp h
  rw [OrderedDict.set, dif_neg hkey]

theorem lengths_set {d : OrderedDict K (ℤ × P)} (h : d.get key = none) :
    lengths length (d.set key saved).entries = lengths length d.entries + length saved.2 := by
  rw [entries_set h]
  simp [lengths]

theorem size_set {d : OrderedDict K (ℤ × P)} (h : d.get key = none) :
    (d.set key saved).size = d.size + 1 := by
  rw [OrderedDict.size, entries_set h, List.length_append]
  rfl

theorem get_popped (d : OrderedDict K (ℤ × P)) (key : K) : (d.pop key).get key = none := by
  rw [get_pop, if_pos rfl]

theorem size_popped {d : OrderedDict K (ℤ × P)} (h : d.get key = some saved) :
    (d.pop key).size + 1 ≤ d.size := by
  have hmem : (key, saved) ∈ d.entries := get_eq_some.mp h
  have hlt : (d.pop key).size < d.size := by
    apply List.length_filter_lt_length_iff_exists.mpr
    exact ⟨(key, saved), hmem, by simp⟩
  exact hlt

variable (length) in
theorem lookUp_cases (c : Cache K P) (key : K) (now : ℤ) :
    (c.values.get key = none ∧ c.lookUp length key now = (none, c)) ∨
      ∃ saved, c.values.get key = some saved ∧
        ((now < saved.1 ∧ c.lookUp length key now = (some saved.2,
            ⟨(c.values.pop key).set key saved, c.bytes - length saved.2 + length saved.2⟩)) ∨
          (saved.1 ≤ now ∧ c.lookUp length key now =
            (none, ⟨c.values.pop key, c.bytes - length saved.2⟩))) := by
  unfold Cache.lookUp
  cases h : c.values.get key with
  | none => exact Or.inl ⟨rfl, rfl⟩
  | some saved =>
    refine Or.inr ⟨saved, rfl, ?_⟩
    by_cases hnow : now < saved.1
    · exact Or.inl ⟨hnow, if_pos hnow⟩
    · exact Or.inr ⟨not_lt.mp hnow, if_neg hnow⟩

theorem accounted_pop (h : Accounted length limits c) (hget : c.values.get key = some saved) :
    Accounted length limits ⟨c.values.pop key, c.bytes - length saved.2⟩ := by
  have hbytes := h.bytes_le
  have hsize := h.entries_le
  have hpopped := size_popped hget
  refine ⟨?_, ?_, ?_⟩
  · rw [lengths_pop hget, h.sum]
  · simp only
    omega
  · simp only
    omega

theorem accounted_lookUp (h : Accounted length limits c) (key : K) (now : ℤ) :
    Accounted length limits (c.lookUp length key now).2 := by
  rcases lookUp_cases length c key now with
    ⟨-, heq⟩ | ⟨saved, hget, ⟨-, heq⟩ | ⟨-, heq⟩⟩
  · rw [heq]
    exact h
  · have hpop := accounted_pop h hget
    have hnone := get_popped c.values key
    have hbytes := h.bytes_le
    have hsize := h.entries_le
    have hpopped := size_popped hget
    rw [heq]
    refine ⟨?_, ?_, ?_⟩
    · rw [lengths_set hnone, ← hpop.sum]
    · simp only
      omega
    · rw [size_set hnone]
      omega
  · rw [heq]
    exact accounted_pop h hget

theorem get_lookUp {key' : K} {now : ℤ} {saved : ℤ × P}
    (h : (c.lookUp length key now).2.values.get key' = some saved) :
    c.values.get key' = some saved := by
  rcases lookUp_cases length c key now with
    ⟨-, heq⟩ | ⟨old, hget, ⟨-, heq⟩ | ⟨-, heq⟩⟩
  · rwa [heq] at h
  · rw [heq, get_set] at h
    split_ifs at h with hk
    · rw [hk, hget, h]
    · rwa [get_pop, if_neg hk] at h
  · rw [heq, get_pop] at h
    split_ifs at h
    exact h

theorem get_lookUp_miss {now : ℤ} (h : (c.lookUp length key now).1 = none) :
    (c.lookUp length key now).2.values.get key = none := by
  rcases lookUp_cases length c key now with
    ⟨hget, heq⟩ | ⟨old, -, ⟨-, heq⟩ | ⟨-, heq⟩⟩
  · rw [heq]
    exact hget
  · rw [heq] at h
    cases h
  · rw [heq]
    exact get_popped c.values key

theorem get_lookUp_hit {now : ℤ} {payload : P} (h : (c.lookUp length key now).1 = some payload) :
    ∃ expiry, c.values.get key = some (expiry, payload) ∧ now < expiry := by
  rcases lookUp_cases length c key now with
    ⟨-, heq⟩ | ⟨saved, hget, ⟨hnow, heq⟩ | ⟨-, heq⟩⟩
  · rw [heq] at h
    cases h
  · rw [heq] at h
    cases h
    exact ⟨saved.1, hget, hnow⟩
  · rw [heq] at h
    cases h

/-- The entries after a store: the new one, and others that were there before. -/
theorem store_spec (h : Accounted length limits c) (hone : 1 ≤ limits.maxEntries)
    (habsent : c.values.get key = none) (now : ℤ) {payload : P}
    (hsize : length payload ≤ limits.maxBytes) :
    Accounted length limits (c.store length limits key now payload) ∧
      ∀ key' saved, (c.store length limits key now payload).values.get key' = some saved →
        (key' = key ∧ saved = (now + limits.ttl, payload)) ∨
          (key' ≠ key ∧ c.values.get key' = some saved) := by
  obtain ⟨hsuffix, hsum, hbytes, hentries⟩ :=
    evict_spec hsize hone c.values.distinct h.sum
  have hkept : ∀ key' saved, (evict length limits (length payload) c.values.entries
      c.values.distinct c.bytes).values.get key' = some saved →
      c.values.get key' = some saved := by
    intro key' saved hget
    exact get_eq_some.mpr (hsuffix.subset (get_eq_some.mp hget))
  have hnone : (evict length limits (length payload) c.values.entries
      c.values.distinct c.bytes).values.get key = none := by
    rw [Option.eq_none_iff_forall_ne_some]
    intro saved hget
    rw [hkept key saved hget] at habsent
    cases habsent
  refine ⟨⟨?_, ?_, ?_⟩, ?_⟩
  · rw [Cache.store, lengths_set hnone, ← hsum]
  · exact hbytes
  · rw [Cache.store, size_set hnone]
    exact hentries
  · intro key' saved hget
    rw [Cache.store, get_set] at hget
    by_cases hk : key' = key
    · rw [if_pos hk] at hget
      exact Or.inl ⟨hk, (Option.some.inj hget).symm⟩
    · rw [if_neg hk] at hget
      exact Or.inr ⟨hk, hkept key' saved hget⟩

end Sections

end SearchCache
