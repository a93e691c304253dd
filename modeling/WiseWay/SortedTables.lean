import Mathlib.Data.Char
import Mathlib.Data.List.Sort
import Mathlib.Data.List.Lex
import Std.Data.ExtTreeMap

/-! # Sorted lists and the folds of ordered tables

Bisection in a sorted list, the range of a prefix, and loops that write each key of a table at
most once. -/
namespace SortedTables

/-! Bisection. -/

section Bisect

variable {K : Type} [LT K] [DecidableLT K] (hirrefl : ∀ a : K, ¬a < a)
  (htrans : ∀ a b c : K, a < b → b < c → a < c)

include hirrefl

/-- The place of `x` among the smaller elements holds `x` when it is there at all. -/
theorem getElem_bisect {l : List K} (h : l.Pairwise (· < ·)) (x : K) :
    l[(l.takeWhile (· < x)).length]? = some x ↔ x ∈ l := by
  induction l with
  | nil => simp
  | cons a l ih =>
    rw [List.pairwise_cons] at h
    by_cases ha : a < x
    · have hne : x ≠ a := by
        rintro rfl
        exact hirrefl x ha
      simp [ha, ih h.2, hne]
    · have hnot : x ∉ l := fun hx => ha (h.1 x hx)
      simp [ha, hnot, eq_comm]

include htrans

omit [DecidableLT K] in
theorem takeWhile_convex {l : List K} {P : K → Bool} {x : K} (h : l.Pairwise (· < ·))
    (hle : ∀ t ∈ l, ¬t < x) (hconvex : ∀ s t, ¬s < x → ¬t < s → P t = true → P s = true) :
    l.takeWhile P = l.filter P := by
  induction l with
  | nil => rfl
  | cons a l ih =>
    rw [List.pairwise_cons] at h
    have hrest := ih h.2 fun t ht => hle t (List.mem_cons_of_mem _ ht)
    by_cases ha : P a = true
    · rw [List.takeWhile_cons_of_pos ha, List.filter_cons_of_pos ha, hrest]
    · rw [List.takeWhile_cons_of_neg ha, List.filter_cons_of_neg ha, eq_comm,
        List.filter_eq_nil_iff]
      intro t ht hP
      have hat : ¬t < a := fun hta => hirrefl a (htrans _ _ _ (h.1 t ht) hta)
      exact ha (hconvex a t (hle a (List.mem_cons_self ..)) hat hP)

/-- Scanning from the place of `x` finds every element of a convex set above `x`. -/
theorem scan_bisect {l : List K} {P : K → Bool} {x : K} (h : l.Pairwise (· < ·))
    (habove : ∀ t, P t = true → ¬t < x)
    (hconvex : ∀ s t, ¬s < x → ¬t < s → P t = true → P s = true) :
    (l.drop (l.takeWhile (· < x)).length).takeWhile P = l.filter P := by
  induction l with
  | nil => rfl
  | cons a l ih =>
    by_cases ha : a < x
    · rw [List.takeWhile_cons_of_pos (by simpa using ha), List.length_cons, List.drop_succ_cons,
        List.filter_cons_of_neg fun hP => habove a hP ha]
      exact ih (List.pairwise_cons.mp h).2
    · rw [List.takeWhile_cons_of_neg (by simpa using ha), List.length_nil, List.drop_zero]
      refine takeWhile_convex hirrefl htrans h (fun t ht htx => ?_) hconvex
      rcases List.mem_cons.mp ht with rfl | ht
      · exact ha htx
      · exact ha (htrans _ _ _ ((List.pairwise_cons.mp h).1 t ht) htx)

end Bisect

/-! Prefixes in the lexicographic order. -/

section Prefix

variable {A : Type} [LinearOrder A]

theorem not_lt_of_prefix {a b : List A} (h : a <+: b) : ¬b < a := by
  obtain ⟨c, rfl⟩ := h
  induction a with
  | nil => exact List.not_lt_nil _
  | cons x a ih =>
    rw [List.cons_append, List.cons_lt_cons_iff, not_or, not_and]
    exact ⟨lt_irrefl x, fun _ => ih⟩

theorem prefix_convex {a : List A} : ∀ {s t : List A}, ¬s < a → ¬t < s → a <+: t → a <+: s := by
  induction a with
  | nil => exact fun _ _ _ => List.nil_prefix
  | cons x a ih =>
    intro s t has hst hat
    obtain ⟨c, rfl⟩ := hat
    cases s with
    | nil => exact absurd (List.nil_lt_cons x a) has
    | cons y s =>
      rw [List.cons_append, List.cons_lt_cons_iff, not_or, not_and, not_lt] at hst
      rw [List.cons_lt_cons_iff, not_or, not_and, not_lt] at has
      obtain rfl := le_antisymm has.1 hst.1
      exact List.cons_prefix_cons.mpr
        ⟨rfl, ih (has.2 rfl) (hst.2 rfl) (List.prefix_append ..)⟩

end Prefix

theorem lt_of_compare {A : Type} [Ord A] [LT A] (hlt : ∀ a b : A, compare a b = .lt → a < b)
    (heq : ∀ a b : A, compare a b = .eq → a = b) :
    ∀ {a b : List A}, compare a b = .lt → a < b
  | [], [], h => by cases h
  | [], _ :: _, _ => List.nil_lt_cons ..
  | _ :: _, [], h => by cases h
  | x :: a, y :: b, h => by
    rw [List.cons_lt_cons_iff]
    rw [List.compare_eq_compareLex, List.compareLex_cons_cons, Ordering.then_eq_lt] at h
    rcases h with h | ⟨h, hrest⟩
    · exact .inl (hlt x y h)
    · exact .inr ⟨heq x y h, lt_of_compare hlt heq hrest⟩

theorem char_lt_of_compare (a b : Char) (h : compare a b = .lt) : a < b := by
  simpa using compare_lt_iff_lt.mp h

theorem text_lt_of_compare {a b : List Char} (h : compare a b = .lt) : a < b :=
  lt_of_compare char_lt_of_compare (fun _ _ h => Std.LawfulEqOrd.eq_of_compare h) h

/-! Tables. -/

theorem toList_sorted {V : Type} (t : Std.ExtTreeMap (List Char) V) :
    (t.toList.map Prod.fst).Pairwise (· < ·) := by
  rw [List.pairwise_map]
  exact Std.ExtTreeMap.ordered_keys_toList.imp fun h => text_lt_of_compare h

section Tables

variable {K V : Type} [Ord K] [Std.TransOrd K]

theorem foldl_keyed [DecidableEq K] {f : Std.ExtTreeMap K V → K → Std.ExtTreeMap K V}
    {g : K → Option V → Option V}
    (hf : ∀ m k p, (f m k)[p]? = if k = p then g k m[k]? else m[p]?) :
    ∀ {l : List K}, l.Nodup → ∀ (m : Std.ExtTreeMap K V) (p : K),
      (l.foldl f m)[p]? = if p ∈ l then g p m[p]? else m[p]?
  | [], _, m, p => by simp
  | k :: l, h, m, p => by
    rw [List.nodup_cons] at h
    rw [List.foldl_cons, foldl_keyed hf h.2, hf]
    by_cases hk : k = p
    · subst hk
      simp [h.1]
    · simp [hk, Ne.symm hk]

theorem toList_eq_filterMap [Std.LawfulEqOrd K] [LT K] (hlt : ∀ a b : K, compare a b = .lt → a < b)
    (hirrefl : ∀ a : K, ¬a < a) (htrans : ∀ a b c : K, a < b → b < c → a < c)
    {m : Std.ExtTreeMap K V} {l : List K} (hl : l.Pairwise (· < ·))
    (hkeys : ∀ k v, m[k]? = some v → k ∈ l) :
    m.toList = l.filterMap fun k => m[k]?.map (k, ·) := by
  have hirrefl' : Std.Irrefl fun a b : K × V => a.1 < b.1 := ⟨fun a => hirrefl a.1⟩
  have hantisymm : Std.Antisymm fun a b : K × V => a.1 < b.1 :=
    ⟨fun a b hab hba => absurd (htrans _ _ _ hab hba) (hirrefl _)⟩
  refine List.Pairwise.eq_of_mem_iff (r := fun a b : K × V => a.1 < b.1) ?_ ?_ fun entry => ?_
  · exact Std.ExtTreeMap.ordered_keys_toList.imp fun {a b} h => hlt _ _ h
  · refine List.Pairwise.filterMap _ (fun a b hab x hx y hy => ?_) hl
    obtain ⟨_, _, rfl⟩ := Option.map_eq_some_iff.mp hx
    obtain ⟨_, _, rfl⟩ := Option.map_eq_some_iff.mp hy
    exact hab
  · obtain ⟨k, v⟩ := entry
    rw [Std.ExtTreeMap.mem_toList_iff_getElem?_eq_some, List.mem_filterMap]
    constructor
    · intro h
      exact ⟨k, hkeys k v h, by simp [h]⟩
    · rintro ⟨j, _, hj⟩
      obtain ⟨w, hw, heq⟩ := Option.map_eq_some_iff.mp hj
      cases heq
      exact hw

end Tables

end SortedTables
