import Mathlib.Data.List.Lex
import Mathlib.Data.Prod.Lex
import Mathlib.Order.Lattice
import Mathlib.Order.Monotone.Basic

/-! # Codes that keep an order

A code separates when two codes differ at a place that both of them have. What follows them then
does not matter, so that the codes of the elements of a list can be written one after the other. -/
namespace OrderedCodes

variable {α β γ : Type} [LT β] [LT γ]

/-- The first place where two words differ decides. -/
inductive Apart : List β → List β → Prop where
  | head {x y s t} : x < y → Apart (x :: s) (y :: t)
  | tail {x s t} : Apart s t → Apart (x :: s) (x :: t)

theorem Apart.append {k l : List β} (h : Apart k l) (s t : List β) : Apart (k ++ s) (l ++ t) := by
  induction h with
  | head hlt => exact .head hlt
  | tail _ ih => exact .tail ih

theorem Apart.prepend {k l : List β} (h : Apart k l) (p : List β) : Apart (p ++ k) (p ++ l) := by
  induction p with
  | nil => exact h
  | cons x p ih => exact .tail ih

theorem Apart.map {f : β → γ} (hf : ∀ x y, x < y → f x < f y) {k l : List β} (h : Apart k l) :
    Apart (k.map f) (l.map f) := by
  induction h with
  | head hlt => exact .head (hf _ _ hlt)
  | tail _ ih => exact .tail ih

theorem Apart.lt {k l : List β} (h : Apart k l) : k < l := by
  induction h with
  | head hlt => exact List.cons_lt_cons_iff.mpr (.inl hlt)
  | tail _ ih => exact List.cons_lt_cons_iff.mpr (.inr ⟨rfl, ih⟩)

section Codes

variable [LT α]

/-- Codes of ordered values of `P` are apart. -/
def Separates (P : α → Prop) (code : α → List β) : Prop :=
  ∀ {a b}, P a → P b → a < b → Apart (code a) (code b)

theorem Apart.flatMap {code : β → List γ} (hcode : Separates (fun _ => True) code)
    {k l : List β} (h : Apart k l) : Apart (k.flatMap code) (l.flatMap code) := by
  induction h with
  | head hlt => exact (hcode trivial trivial hlt).append _ _
  | tail _ ih => exact ih.prepend _

variable {P : α → Prop} {code : α → List β} {stop : List β}

theorem separates_words (hcode : Separates P code) (hstop : ∀ a, P a → Apart stop (code a)) :
    Separates (fun word : List α => ∀ a ∈ word, P a) fun word => word.flatMap code ++ stop := by
  intro k l hk hl h
  induction k generalizing l with
  | nil =>
    cases l with
    | nil => exact absurd h (List.not_lt_nil _)
    | cons b l =>
      have hb := hstop b (hl b (List.mem_cons_self ..))
      simpa using hb.append [] (l.flatMap code ++ stop)
  | cons a k ih =>
    cases l with
    | nil => exact absurd h (List.not_lt_nil _)
    | cons b l =>
      simp only [List.flatMap_cons, List.append_assoc]
      rcases List.cons_lt_cons_iff.mp h with hab | ⟨rfl, hkl⟩
      · exact (hcode (hk a (List.mem_cons_self ..)) (hl b (List.mem_cons_self ..)) hab).append _ _
      · refine Apart.prepend ?_ _
        exact ih (fun c hc => hk c (List.mem_cons_of_mem _ hc))
          (fun c hc => hl c (List.mem_cons_of_mem _ hc)) hkl

theorem flatMap_lt (hcode : Separates P code) (hne : ∀ a, P a → code a ≠ []) {k l : List α}
    (hk : ∀ a ∈ k, P a) (hl : ∀ a ∈ l, P a) (h : k < l) : k.flatMap code < l.flatMap code := by
  induction k generalizing l with
  | nil =>
    cases l with
    | nil => exact absurd h (List.not_lt_nil _)
    | cons b l =>
      obtain ⟨x, s, hs⟩ := List.exists_cons_of_ne_nil (hne b (hl b (List.mem_cons_self ..)))
      rw [List.flatMap_nil, List.flatMap_cons, hs]
      exact List.nil_lt_cons ..
  | cons a k ih =>
    cases l with
    | nil => exact absurd h (List.not_lt_nil _)
    | cons b l =>
      simp only [List.flatMap_cons]
      rcases List.cons_lt_cons_iff.mp h with hab | ⟨rfl, hkl⟩
      · exact ((hcode (hk a (List.mem_cons_self ..)) (hl b (List.mem_cons_self ..)) hab).append
          _ _).lt
      · exact List.append_left_lt (ih (fun c hc => hk c (List.mem_cons_of_mem _ hc))
          (fun c hc => hl c (List.mem_cons_of_mem _ hc)) hkl)

end Codes

theorem lt_iff_and_eq_iff [LinearOrder α] [Std.Irrefl fun x y : γ => x < y]
    [Std.Asymm fun x y : γ => x < y] {P : α → Prop} {f : α → γ}
    (h : ∀ {a b}, P a → P b → a < b → f a < f b) {a b : α} (ha : P a) (hb : P b) :
    (f a < f b ↔ a < b) ∧ (f a = f b ↔ a = b) := by
  rcases lt_trichotomy a b with hab | rfl | hba
  · have hlt := h ha hb hab
    refine ⟨⟨fun _ => hab, fun _ => hlt⟩, fun he => ?_, fun he => absurd he hab.ne⟩
    rw [he] at hlt
    exact absurd hlt (Std.Irrefl.irrefl (f b))
  · exact ⟨⟨fun hlt => absurd hlt (Std.Irrefl.irrefl (f a)), fun hlt => absurd hlt (lt_irrefl a)⟩,
      ⟨fun _ => rfl, fun _ => rfl⟩⟩
  · have hlt := h hb ha hba
    refine ⟨⟨fun hlt' => absurd hlt (Std.Asymm.asymm _ _ hlt'), fun hab => absurd hba hab.asymm⟩,
      fun he => ?_, fun he => absurd he hba.ne'⟩
    rw [he] at hlt
    exact absurd hlt (Std.Irrefl.irrefl (f b))

/-! Pairs that compare alike. -/

section Alike

variable {δ ε : Type} [LinearOrder α] [LinearOrder δ] [LinearOrder ε]

def Alike (a a' : α) (b b' : δ) : Prop := (a < a' ↔ b < b') ∧ (a = a' ↔ b = b')

theorem Alike.refl (a a' : α) : Alike a a' a a' := ⟨Iff.rfl, Iff.rfl⟩

theorem Alike.le {a a' : α} {b b' : δ} (h : Alike a a' b b') : a ≤ a' ↔ b ≤ b' := by
  rw [le_iff_lt_or_eq, le_iff_lt_or_eq, h.1, h.2]

theorem Alike.lex {ζ : Type} [LinearOrder ζ] {a a' : α} {b b' : δ} {c c' : ε} {d d' : ζ}
    (h : Alike a a' b b') (hrest : Alike c c' d d') :
    Alike (toLex (a, c)) (toLex (a', c')) (toLex (b, d)) (toLex (b', d')) := by
  constructor
  · rw [Prod.Lex.toLex_lt_toLex, Prod.Lex.toLex_lt_toLex, h.1, h.2, hrest.1]
  · rw [toLex_inj, toLex_inj, Prod.mk.injEq, Prod.mk.injEq, h.2, hrest.2]

theorem Alike.dual {a a' : α} {b b' : δ} (h : Alike a' a b' b) :
    Alike (OrderDual.toDual a) (OrderDual.toDual a') (OrderDual.toDual b)
      (OrderDual.toDual b') := by
  refine ⟨OrderDual.toDual_lt_toDual.trans (h.1.trans OrderDual.toDual_lt_toDual.symm), ?_⟩
  rw [OrderDual.toDual_inj, OrderDual.toDual_inj, eq_comm, h.2, eq_comm]

end Alike

end OrderedCodes
