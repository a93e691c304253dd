import Mathlib.Data.List.Sort
import Mathlib.Data.Prod.Lex

/-! # Sorting twice and selecting the first

A stable sort by one key of rows that are already sorted by another leaves them in the
lexicographic order of both. Two sorted copies of the same rows have the same first rows when
the orders agree on each of these. -/
namespace StableSorting

variable {α β : Type}

theorem orderedInsert_stable {r s : α → α → Prop} [DecidableRel r] (htotal : ∀ a b, r a b ∨ r b a)
    (htrans : ∀ a b c, r a b → r b c → r a c) {a : α} : ∀ {l : List α},
    l.Pairwise (fun b c => r b c ∧ (r c b → s b c)) → (∀ b ∈ l, s a b) →
      (l.orderedInsert r a).Pairwise fun b c => r b c ∧ (r c b → s b c)
  | [], _, _ => List.pairwise_singleton _ _
  | b :: l, h, hs => by
    obtain ⟨hb, hl⟩ := List.pairwise_cons.mp h
    rw [List.orderedInsert_cons]
    split
    · rename_i hab
      refine List.pairwise_cons.mpr ⟨fun c hc => ?_, h⟩
      rcases List.mem_cons.mp hc with rfl | hc'
      · exact ⟨hab, fun _ => hs c hc⟩
      · exact ⟨htrans a b c hab (hb c hc').1, fun _ => hs c hc⟩
    · rename_i hab
      have hba : r b a := (htotal a b).resolve_left hab
      have hrest := orderedInsert_stable htotal htrans hl
        fun c hc => hs c (List.mem_cons_of_mem _ hc)
      refine List.pairwise_cons.mpr ⟨fun c hc => ?_, hrest⟩
      rcases (List.mem_orderedInsert r).mp hc with rfl | hc
      · exact ⟨hba, fun h => absurd h hab⟩
      · exact hb c hc

theorem insertionSort_stable {r s : α → α → Prop} [DecidableRel r]
    (htotal : ∀ a b, r a b ∨ r b a) (htrans : ∀ a b c, r a b → r b c → r a c) :
    ∀ {l : List α}, l.Pairwise s →
      (l.insertionSort r).Pairwise fun a b => r a b ∧ (r b a → s a b)
  | [], _ => .nil
  | a :: l, h => by
    obtain ⟨ha, hl⟩ := List.pairwise_cons.mp h
    rw [List.insertionSort_cons]
    refine orderedInsert_stable htotal htrans (insertionSort_stable htotal htrans hl) ?_
    intro b hb
    exact ha b ((List.mem_insertionSort r).mp hb)

theorem countP_head {r : α → α → Prop} [DecidableRel r] (hasymm : ∀ a b, r a b → ¬r b a) {a : α}
    {l : List α} (h : (a :: l).Pairwise r) : (a :: l).countP (r · a) = 0 := by
  refine List.countP_eq_zero.mpr fun b hb => ?_
  rw [decide_eq_true_eq]
  rcases List.mem_cons.mp hb with rfl | hb
  · exact fun hba => hasymm b b hba hba
  · exact hasymm a b ((List.pairwise_cons.mp h).1 b hb)

theorem countP_tail {r : α → α → Prop} [DecidableRel r] {a b : α} {l : List α}
    (h : (a :: l).Pairwise r) (hb : b ∈ l) :
    (a :: l).countP (r · b) = l.countP (r · b) + 1 :=
  List.countP_cons_of_pos (decide_eq_true ((List.pairwise_cons.mp h).1 b hb))

/-- Two sortings begin alike just when they order each of these first elements alike against
all others. -/
theorem take_eq_take_iff {r s : α → α → Prop} [DecidableRel r] (hr : ∀ a b, r a b → ¬r b a)
    (hs : ∀ a b, s a b → ¬s b a) : ∀ {k : ℕ} {l m : List α}, l.Pairwise r → m.Pairwise s →
      l.Perm m → (l.take k = m.take k ↔
        ∀ a ∈ l, ∀ b ∈ l, l.countP (r · a) < k → (r a b ↔ s a b))
  | 0, l, m, _, _, _ => by
    rw [List.take_zero, List.take_zero]
    exact ⟨fun _ a _ b _ hlt => absurd hlt (Nat.not_lt_zero _), fun _ => rfl⟩
  | k + 1, [], m, _, _, hperm => by
    rw [List.nil_perm.mp hperm]
    exact ⟨fun _ a ha => absurd ha List.not_mem_nil, fun _ => rfl⟩
  | k + 1, a :: l, [], _, _, hperm => absurd hperm.length_eq (by simp)
  | k + 1, a :: l, b :: m, hl, hm, hperm => by
    obtain ⟨hla, hl'⟩ := List.pairwise_cons.mp hl
    obtain ⟨hmb, hm'⟩ := List.pairwise_cons.mp hm
    by_cases hab : a = b
    · subst hab
      have hperm' := (List.perm_cons a).mp hperm
      rw [List.take_succ_cons, List.take_succ_cons, List.cons.injEq, eq_self_iff_true, true_and,
        take_eq_take_iff hr hs hl' hm' hperm']
      constructor
      · intro h x hx y hy hcount
        rcases List.mem_cons.mp hx with rfl | hx
        · rcases List.mem_cons.mp hy with rfl | hy
          · exact ⟨fun h => absurd h (hr _ _ h), fun h => absurd h (hs _ _ h)⟩
          · exact ⟨fun _ => hmb y (hperm'.mem_iff.mp hy), fun _ => hla y hy⟩
        · have hax := hla x hx
          have hbx := hmb x (hperm'.mem_iff.mp hx)
          rw [countP_tail hl hx] at hcount
          rcases List.mem_cons.mp hy with rfl | hy
          · exact ⟨fun h => absurd h (hr _ _ hax), fun h => absurd h (hs _ _ hbx)⟩
          · exact h x hx y hy (Nat.lt_of_succ_lt_succ hcount)
      · intro h x hx y hy hcount
        refine h x (List.mem_cons_of_mem _ hx) y (List.mem_cons_of_mem _ hy) ?_
        rw [countP_tail hl hx]
        exact Nat.succ_lt_succ hcount
    · have hbl : b ∈ l := by
        have hb : b ∈ a :: l := hperm.mem_iff.mpr (List.mem_cons_self ..)
        exact (List.mem_cons.mp hb).resolve_left fun h => hab h.symm
      have ham : a ∈ m := by
        have ha : a ∈ b :: m := hperm.mem_iff.mp (List.mem_cons_self ..)
        exact (List.mem_cons.mp ha).resolve_left hab
      constructor
      · intro h
        exact absurd (List.cons.inj h).1 hab
      · intro h
        have hzero : (a :: l).countP (r · a) < k + 1 := by
          rw [countP_head hr hl]
          exact Nat.succ_pos k
        have hsame := h a (List.mem_cons_self ..) b (List.mem_cons_of_mem _ hbl) hzero
        exact absurd (hsame.mp (hla b hbl)) (hs b a (hmb a ham))

theorem eq_of_sorted {r : α → α → Prop} (hr : ∀ a b, r a b → ¬r b a) {l m : List α}
    (hl : l.Pairwise r) (hm : m.Pairwise r) (h : l.Perm m) : l = m :=
  List.Perm.eq_of_pairwise (fun a b _ _ hab hba => absurd hba (hr a b hab)) hl hm h

end StableSorting
