import Std.Data.ExtTreeMap
import Mathlib.Algebra.BigOperators.Group.List.Basic
import Mathlib.Algebra.Order.Ring.Nat
import Mathlib.Data.List.Induction
import Mathlib.Data.List.Sort
import Mathlib.Tactic.Common

/-! # Grouped rows

Rows are keyed pairs. `grouped` folds the values of each key with an aggregate of two values, and
`counted` counts values that are the same, in the order in which they are met. -/
namespace Groupings

variable {K V : Type} [Ord K] [Std.TransOrd K] [Std.LawfulEqOrd K] [DecidableEq K]

/-- The aggregate of some values, if there are any. -/
def reduce (f : V → V → V) : List V → Option V
  | [] => none
  | v :: rest => some (rest.foldl f v)

def grouped (f : V → V → V) (rows : List (K × V)) : Std.ExtTreeMap K V :=
  rows.foldl (fun groups row => groups.insert row.1
    (match groups[row.1]? with
      | some v => f v row.2
      | none => row.2)) ∅

theorem reduce_append (f : V → V → V) (values : List V) (v : V) :
    reduce f (values ++ [v]) = some (match reduce f values with
      | some w => f w v
      | none => v) := by
  cases values with
  | nil => rfl
  | cons w rest => simp [reduce, List.foldl_append]

theorem grouped_get (f : V → V → V) (rows : List (K × V)) (k : K) :
    (grouped f rows)[k]? = reduce f ((rows.filter fun row => row.1 = k).map Prod.snd) := by
  induction rows using List.reverseRecOn with
  | nil => simp [grouped, reduce]
  | append_singleton rows row ih =>
    rw [grouped, List.foldl_append, List.foldl_cons, List.foldl_nil, ← grouped,
      Std.ExtTreeMap.getElem?_insert, List.filter_append, List.map_append]
    by_cases hk : row.1 = k
    · subst hk
      rw [if_pos Std.ReflCmp.compare_self, ih, List.filter_singleton, decide_eq_true rfl]
      exact (reduce_append f _ _).symm
    · rw [if_neg (fun heq => hk (Std.LawfulEqOrd.eq_of_compare heq)), ih, List.filter_singleton,
        decide_eq_false hk]
      simp

theorem inserted_get (rows : List (K × V)) (hkeys : (rows.map Prod.fst).Nodup) (k : K) (v : V) :
    (rows.foldl (fun table row => table.insert row.1 row.2) (∅ : Std.ExtTreeMap K V))[k]? = some v ↔
      (k, v) ∈ rows := by
  induction rows using List.reverseRecOn with
  | nil => simp
  | append_singleton rows row ih =>
    rw [List.map_append, List.map_singleton] at hkeys
    obtain ⟨hinit, _, hapart⟩ := List.nodup_append.mp hkeys
    rw [List.foldl_append, List.foldl_cons, List.foldl_nil, Std.ExtTreeMap.getElem?_insert,
      List.mem_append, List.mem_singleton]
    by_cases hk : row.1 = k
    · subst hk
      rw [if_pos Std.ReflCmp.compare_self]
      constructor
      · intro h
        cases h
        exact .inr rfl
      · rintro (hmem | heq)
        · have hknown : row.1 ∈ rows.map Prod.fst := List.mem_map.mpr ⟨_, hmem, rfl⟩
          exact absurd rfl (hapart row.1 hknown row.1 (List.mem_singleton_self _))
        · rw [← heq]
    · rw [if_neg (fun heq => hk (Std.LawfulEqOrd.eq_of_compare heq)), ih hinit]
      constructor
      · exact .inl
      · rintro (hmem | heq)
        · exact hmem
        · exact absurd (congrArg Prod.fst heq).symm hk

omit [Ord K] [Std.TransOrd K] [Std.LawfulEqOrd K] in
theorem filter_key {α : Type} {key : α → K} {rows : List α} (hkeys : (rows.map key).Nodup) {row : α}
    (h : row ∈ rows) : rows.filter (fun other => key other = key row) = [row] := by
  obtain ⟨before, after, rfl⟩ := List.append_of_mem h
  rw [List.map_append, List.map_cons, List.nodup_append, List.nodup_cons] at hkeys
  obtain ⟨_, ⟨hafter, _⟩, hbefore⟩ := hkeys
  have hnone : before.filter (fun other => key other = key row) = [] := by
    refine List.filter_eq_nil_iff.mpr fun other hother heq => ?_
    have hmem : key other ∈ before.map key := List.mem_map_of_mem hother
    exact hbefore _ hmem _ (List.mem_cons_self ..) (of_decide_eq_true heq)
  have hnone' : after.filter (fun other => key other = key row) = [] := by
    refine List.filter_eq_nil_iff.mpr fun other hother heq => hafter ?_
    rw [← of_decide_eq_true heq]
    exact List.mem_map_of_mem hother
  rw [List.filter_append, hnone, List.filter_cons_of_pos (by simp), hnone', List.nil_append]

omit [DecidableEq K] in
theorem keys_nodup (table : Std.ExtTreeMap K V) : (table.toList.map Prod.fst).Nodup := by
  refine List.pairwise_map.mpr (Std.ExtTreeMap.distinct_keys_toList.imp fun {a b} h heq => h ?_)
  rw [heq]
  exact Std.ReflCmp.compare_self

theorem toList_filter_key (table : Std.ExtTreeMap K V) (k : K) :
    table.toList.filter (fun row => row.1 = k) = (table[k]?).toList.map (k, ·) := by
  cases hfound : table[k]? with
  | none =>
    refine List.filter_eq_nil_iff.mpr fun row hrow hk => ?_
    have hget := Std.ExtTreeMap.mem_toList_iff_getElem?_eq_some.mp hrow
    rw [of_decide_eq_true hk, hfound] at hget
    cases hget
  | some v =>
    have hmem : (k, v) ∈ table.toList := Std.ExtTreeMap.mem_toList_iff_getElem?_eq_some.mpr hfound
    exact filter_key (keys_nodup table) hmem

omit [Ord K] [Std.TransOrd K] [Std.LawfulEqOrd K] [DecidableEq K] in
theorem reduce_add (values : List ℕ) (hne : values ≠ []) :
    reduce (fun a b : ℕ × ℕ => (a.1 + b.1, a.2 + b.2)) (values.map (·, 1)) =
      some (values.sum, values.length) := by
  have hfold : ∀ (rest : List ℕ) (s n : ℕ), (rest.map fun v => (v, 1)).foldl
      (fun a b : ℕ × ℕ => (a.1 + b.1, a.2 + b.2)) (s, n) = (s + rest.sum, n + rest.length) := by
    intro rest
    induction rest with
    | nil => exact fun _ _ => rfl
    | cons v rest ih =>
      intro s n
      rw [List.map_cons, List.foldl_cons, ih, List.sum_cons, List.length_cons]
      simp only [Prod.mk.injEq]
      omega
  cases values with
  | nil => exact absurd rfl hne
  | cons v rest =>
    rw [List.map_cons, reduce, hfold, List.sum_cons, List.length_cons, Nat.add_comm 1]

omit [Ord K] [Std.TransOrd K] [Std.LawfulEqOrd K] [DecidableEq K] in
/-- Every element has an image just when none is missing. -/
theorem mapM_eq_some_iff {α : Type} {f : α → Option V} : ∀ {l : List α} {values : List V},
    l.mapM f = some values ↔ l.filterMap f = values ∧ values.length = l.length
  | [], values => by simp [eq_comm]
  | a :: l, values => by
    have hle : (l.filterMap f).length ≤ l.length := List.length_filterMap_le f l
    rw [List.mapM_cons]
    cases ha : f a with
    | none =>
      rw [List.filterMap_cons_none ha]
      constructor
      · intro h
        cases h
      · rintro ⟨rfl, hlength⟩
        rw [List.length_cons] at hlength
        omega
    | some v =>
      rw [List.filterMap_cons_some ha]
      constructor
      · intro h
        obtain ⟨_, ⟨⟩, h⟩ := Option.bind_eq_some_iff.mp h
        obtain ⟨rest, hrest, heq⟩ := Option.bind_eq_some_iff.mp h
        obtain ⟨rfl, hlength⟩ := mapM_eq_some_iff.mp hrest
        cases heq
        exact ⟨rfl, by rw [List.length_cons, List.length_cons, hlength]⟩
      · rintro ⟨rfl, hlength⟩
        rw [List.length_cons, List.length_cons, Nat.add_right_cancel_iff] at hlength
        rw [mapM_eq_some_iff.mpr ⟨rfl, hlength⟩]
        rfl

/-! Counting. -/

section Counting

variable {W X : Type}

/-- One more value, counted with those that are the same. -/
def counted (same : W → W → Prop) [DecidableRel same] (groups : List (W × ℕ)) (value : W) :
    List (W × ℕ) :=
  if groups.any fun known => same known.1 value then
    groups.map fun known => if same known.1 value then (known.1, known.2 + 1) else known
  else groups ++ [(value, 1)]

theorem counted_map (same : X → X → Prop) [DecidableRel same] (f : W → X) (values : List W) :
    ∀ groups : List (W × ℕ),
      (values.foldl (counted fun a b => same (f a) (f b)) groups).map
          (fun known => (f known.1, known.2)) =
        (values.map f).foldl (counted same) (groups.map fun known => (f known.1, known.2)) := by
  induction values with
  | nil => exact fun _ => rfl
  | cons value values ih =>
    intro groups
    rw [List.foldl_cons, ih, List.map_cons, List.foldl_cons]
    congr 1
    unfold counted
    rw [List.any_map]
    split
    · rename_i hany
      refine Eq.trans ?_ (if_pos hany).symm
      rw [List.map_map, List.map_map]
      refine List.map_congr_left fun known _ => ?_
      simp only [Function.comp_apply]
      split <;> rfl
    · rename_i hnone
      refine Eq.trans ?_ (if_neg hnone).symm
      rw [List.map_append]
      rfl

variable {same : W → W → Prop} [DecidableRel same]

theorem mem_counted : ∀ (values : List W) (groups : List (W × ℕ)) {known : W × ℕ},
    known ∈ values.foldl (counted same) groups →
      known.1 ∈ groups.map Prod.fst ∨ known.1 ∈ values
  | [], groups, known, h => .inl (List.mem_map_of_mem h)
  | value :: values, groups, known, h => by
    rcases mem_counted values (counted same groups value) h with h | h
    · obtain ⟨other, hother, heq⟩ := List.mem_map.mp h
      unfold counted at hother
      split at hother
      · obtain ⟨kept, hkept, rfl⟩ := List.mem_map.mp hother
        refine .inl (List.mem_map.mpr ⟨kept, hkept, ?_⟩)
        rw [← heq]
        split <;> rfl
      · rcases List.mem_append.mp hother with hother | hother
        · exact .inl (List.mem_map.mpr ⟨other, hother, heq⟩)
        · rw [List.mem_singleton.mp hother] at heq
          exact .inr (heq ▸ List.mem_cons_self ..)
    · exact .inr (List.mem_cons_of_mem _ h)

/-- A value is counted among the groups of a property, if it has the property itself. -/
theorem counted_filter_one {p : W → Bool} {groups : List (W × ℕ)} {value : W}
    (hknown : ∀ known ∈ groups, same known.1 value → p known.1 = p value) :
    (counted same groups value).filter (fun known => p known.1) =
      if p value then counted same (groups.filter fun known => p known.1) value
      else groups.filter fun known => p known.1 := by
  have hbumped : (groups.map fun known =>
      if same known.1 value then (known.1, known.2 + 1) else known).filter
        (fun known => p known.1) = (groups.filter fun known => p known.1).map fun known =>
          if same known.1 value then (known.1, known.2 + 1) else known := by
    rw [List.filter_map]
    congr 1
    refine List.filter_congr fun known _ => ?_
    simp only [Function.comp_apply]
    split <;> rfl
  have hlone : [(value, 1)].filter (fun known => p known.1) =
      if p value then [(value, 1)] else [] := by
    rw [List.filter_cons, List.filter_nil]
  by_cases hp : p value = true
  · have hany : ((groups.filter fun known => p known.1).any fun known => same known.1 value) =
        groups.any fun known => same known.1 value := by
      rw [List.any_filter, Bool.eq_iff_iff, List.any_eq_true, List.any_eq_true]
      refine exists_congr fun known => and_congr_right fun hin => ?_
      rw [Bool.and_eq_true]
      refine ⟨And.right, fun hsame => ⟨?_, hsame⟩⟩
      rw [hknown known hin (of_decide_eq_true hsame)]
      exact hp
    rw [if_pos hp, counted, counted, hany]
    split
    · exact hbumped
    · rw [List.filter_append, hlone, if_pos hp]
  · rw [if_neg hp, counted]
    split
    · rw [hbumped]
      refine Eq.trans (List.map_congr_left fun known hin => ?_) (List.map_id _)
      obtain ⟨hin, hkept⟩ := List.mem_filter.mp hin
      have hne : ¬same known.1 value := by
        intro hsame
        rw [hknown known hin hsame] at hkept
        exact hp hkept
      rw [if_neg hne]
      rfl
    · rw [List.filter_append, hlone, if_neg hp, List.append_nil]

theorem counted_filter {p : W → Bool} (values : List W)
    (hsame : ∀ a ∈ values, ∀ b ∈ values, same a b → p a = p b) :
    (values.filter p).foldl (counted same) [] =
      (values.foldl (counted same) []).filter fun known => p known.1 := by
  induction values using List.reverseRecOn with
  | nil => rfl
  | append_singleton values value ih =>
    have hknown : ∀ known ∈ values.foldl (counted same) [], same known.1 value →
        p known.1 = p value := by
      intro known hin
      have hmem : known.1 ∈ values := (mem_counted values [] hin).resolve_left List.not_mem_nil
      exact hsame _ (List.mem_append_left _ hmem) _
        (List.mem_append_right _ (List.mem_singleton_self _))
    rw [List.filter_append, List.foldl_append, List.foldl_append, List.foldl_cons, List.foldl_nil,
      counted_filter_one hknown, ih fun a ha b hb =>
        hsame a (List.mem_append_left _ ha) b (List.mem_append_left _ hb)]
    by_cases hp : p value = true
    · rw [List.filter_cons_of_pos hp, List.filter_nil, if_pos hp]
      rfl
    · rw [List.filter_cons_of_neg hp, List.filter_nil, if_neg hp]
      rfl

variable (same) in
theorem counted_head (values : List W) :
    (values.foldl (counted same) []).head?.map Prod.fst = values.head? := by
  have hkeep : ∀ (values : List W) (first : W) (count : ℕ) (groups : List (W × ℕ)),
      ((values.foldl (counted same) ((first, count) :: groups)).head?.map Prod.fst) =
        some first := by
    intro values
    induction values with
    | nil => exact fun _ _ _ => rfl
    | cons value values ih =>
      intro first count groups
      rw [List.foldl_cons, counted]
      split
      · rw [List.map_cons]
        split
        · exact ih _ _ _
        · exact ih _ _ _
      · exact ih _ _ _
  cases values with
  | nil => rfl
  | cons value values => exact hkeep values value 1 []

end Counting

end Groupings
