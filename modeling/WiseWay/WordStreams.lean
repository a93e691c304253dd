import Mathlib.Data.List.Infix
import Mathlib.Data.List.Lex
import WiseWay.OrderedCodes

/-! # Streams of words

Several streams stand in one list with a barrier between them. A phrase without the barrier stands
in one of them. Codes that keep an order also keep beginnings, and the lists that begin with a
given list are a range of the order. -/
namespace WordStreams

variable {α : Type}

/-- The streams one after the other, with a barrier between two of them. -/
def barred (barrier : α) : List (List α) → List α
  | [] => []
  | [stream] => stream
  | stream :: next :: streams => stream ++ barrier :: barred barrier (next :: streams)

theorem infix_append_cons {barrier : α} {phrase a b : List α} (hbarrier : barrier ∉ phrase) :
    phrase <:+: a ++ barrier :: b ↔ phrase <:+: a ∨ phrase <:+: b := by
  constructor
  · rintro ⟨s, t, heq⟩
    rw [List.append_assoc, List.append_eq_append_iff] at heq
    rcases heq with ⟨c, rfl, heq⟩ | ⟨c, rfl, heq⟩
    · rw [List.append_eq_append_iff] at heq
      rcases heq with ⟨d, rfl, _⟩ | ⟨d, rfl, heq⟩
      · exact .inl ⟨s, d, by rw [List.append_assoc]⟩
      · cases d with
        | nil => exact .inl ⟨s, [], by simp⟩
        | cons x d =>
          rw [List.cons_append, List.cons.injEq] at heq
          rw [heq.1] at hbarrier
          exact absurd (List.mem_append_right c (List.mem_cons_self ..)) hbarrier
    · cases c with
      | nil =>
        cases phrase with
        | nil => exact .inl List.nil_infix
        | cons x phrase =>
          rw [List.nil_append, List.cons_append, List.cons.injEq] at heq
          rw [heq.1] at hbarrier
          exact absurd (List.mem_cons_self ..) hbarrier
      | cons x c =>
        rw [List.cons_append, List.cons.injEq] at heq
        exact .inr ⟨c, t, by rw [heq.2, List.append_assoc]⟩
  · rintro (h | h)
    · exact h.trans (List.prefix_append ..).isInfix
    · exact h.trans ((List.suffix_cons ..).trans (List.suffix_append ..)).isInfix

theorem infix_barred {barrier : α} {phrase : List α} (hbarrier : barrier ∉ phrase)
    (hne : phrase ≠ []) : ∀ {streams : List (List α)},
      phrase <:+: barred barrier streams ↔ ∃ stream ∈ streams, phrase <:+: stream
  | [] => by simp [barred, hne]
  | [stream] => by simp [barred]
  | stream :: next :: streams => by
    rw [barred, infix_append_cons hbarrier, infix_barred hbarrier hne]
    simp

theorem mem_barred {barrier word : α} (hne : word ≠ barrier) {streams : List (List α)} :
    word ∈ barred barrier streams ↔ ∃ stream ∈ streams, word ∈ stream := by
  have hbarrier : barrier ∉ [word] := by simpa using hne.symm
  have hsingle : ∀ l : List α, [word] <:+: l ↔ word ∈ l := by
    intro l
    constructor
    · intro h
      exact h.subset (List.mem_singleton_self word)
    · intro h
      obtain ⟨s, t, rfl⟩ := List.append_of_mem h
      exact ⟨s, t, by simp⟩
  rw [← hsingle, infix_barred hbarrier (List.cons_ne_nil _ _)]
  simp only [hsingle]

/-! Codes. -/

section Codes

variable {β : Type} [LT α] [LT β] [Std.Irrefl fun x y : β => x < y] {code : α → List β}

theorem not_prefix_of_apart {k l : List β} (h : OrderedCodes.Apart k l) :
    ¬k <+: l ∧ ¬l <+: k := by
  induction h with
  | @head x y _ _ hlt =>
    have hne : x ≠ y := by
      rintro rfl
      exact Std.Irrefl.irrefl (r := fun x y : β => x < y) x hlt
    constructor
    · intro h
      exact hne (List.cons_prefix_cons.mp h).1
    · intro h
      exact hne (List.cons_prefix_cons.mp h).1.symm
  | tail _ ih =>
    constructor
    · intro h
      exact ih.1 (List.cons_prefix_cons.mp h).2
    · intro h
      exact ih.2 (List.cons_prefix_cons.mp h).2

theorem flatMap_prefix (htotal : ∀ a b : α, a < b ∨ a = b ∨ b < a)
    (hcode : OrderedCodes.Separates (fun _ => True) code) (hne : ∀ a, code a ≠ []) {k l : List α} :
    k.flatMap code <+: l.flatMap code ↔ k <+: l := by
  constructor
  · intro h
    induction k generalizing l with
    | nil => exact List.nil_prefix
    | cons a k ih =>
      cases l with
      | nil =>
        rw [List.flatMap_cons, List.flatMap_nil, List.prefix_nil, List.append_eq_nil_iff] at h
        exact absurd h.1 (hne a)
      | cons b l =>
        rw [List.flatMap_cons, List.flatMap_cons] at h
        rcases htotal a b with hab | rfl | hba
        · have hapart := (hcode trivial trivial hab).append (k.flatMap code) (l.flatMap code)
          exact absurd h (not_prefix_of_apart hapart).1
        · exact List.cons_prefix_cons.mpr ⟨rfl, ih ((List.prefix_append_right_inj _).mp h)⟩
        · have hapart := (hcode trivial trivial hba).append (l.flatMap code) (k.flatMap code)
          exact absurd h (not_prefix_of_apart hapart).2
  · rintro ⟨t, rfl⟩
    rw [List.flatMap_append]
    exact List.prefix_append ..

end Codes

/-! Ranges. -/

/-- The lists from `l` to its successor are those that `l` begins. -/
theorem range_prefix {l : List ℕ} {n : ℕ} {x : List ℕ} :
    (¬x < l ++ [n] ∧ x < l ++ [n + 1]) ↔ l ++ [n] <+: x := by
  induction l generalizing x with
  | nil =>
    cases x with
    | nil => simp
    | cons m x =>
      simp only [List.nil_append, List.cons_prefix_cons, List.nil_prefix, and_true]
      rw [List.cons_lt_cons_iff, List.cons_lt_cons_iff]
      simp only [List.not_lt_nil, and_false, or_false]
      omega
  | cons a l ih =>
    cases x with
    | nil => simp
    | cons m x =>
      simp only [List.cons_append, List.cons_prefix_cons]
      rw [List.cons_lt_cons_iff, List.cons_lt_cons_iff, ← ih]
      constructor
      · rintro ⟨hlow, hhigh⟩
        rw [not_or, not_and] at hlow
        rcases hhigh with hhigh | ⟨heq, hhigh⟩
        · exact absurd hhigh (by omega)
        · exact ⟨heq.symm, hlow.2 heq, hhigh⟩
      · rintro ⟨rfl, hlow, hhigh⟩
        refine ⟨?_, .inr ⟨rfl, hhigh⟩⟩
        rintro (h | ⟨_, h⟩)
        · omega
        · exact hlow h

end WordStreams
