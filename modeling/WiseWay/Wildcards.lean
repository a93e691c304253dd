import Mathlib.Data.List.Basic
import Mathlib.Data.List.Infix

/-! # Wildcard patterns

A pattern is read against a list of characters: a star stands for any run of them, another
symbol for one. `pinned` names characters that a star which meets them takes alone; with none
of them pinned every star is free. The lemmas are those of a matcher that commits to the
first place of a star and only ever moves the last one. -/
namespace Wildcards

inductive Symbol (α : Type) where
  | star
  | one
  | itself (c : α)
  deriving DecidableEq, Repr

variable {α : Type}

/-- What a star may take from the front of a value. -/
def Run (pinned : α → Bool) (run value : List α) : Prop :=
  ∀ c, (run ++ value).head? = some c → pinned c = true → run = [c]

inductive Splits (pinned : α → Bool) : List (Symbol α) → List α → Prop where
  | done : Splits pinned [] []
  | one {mask c value} : Splits pinned mask value → Splits pinned (.one :: mask) (c :: value)
  | itself {mask c value} : Splits pinned mask value →
      Splits pinned (.itself c :: mask) (c :: value)
  | star {mask run value} : Splits pinned mask value → Run pinned run value →
      Splits pinned (.star :: mask) (run ++ value)

/-- The symbol stands for this one character, and for nothing else in front of it. -/
def Takes (pinned : α → Bool) : Symbol α → α → Prop
  | .star, c => pinned c = true
  | .one, _ => True
  | .itself a, c => a = c

/-- What a symbol stands for when no character is pinned. -/
def StandsFor : Symbol α → List α → Prop
  | .star, _ => True
  | .one, part => ∃ c, part = [c]
  | .itself c, part => part = [c]

theorem splits_nil {pinned : α → Bool} : ∀ {mask : List (Symbol α)},
    Splits pinned mask [] ↔ ∀ s ∈ mask, s = .star
  | [] => by
    constructor
    · intro _ s hs
      cases hs
    · intro _
      exact .done
  | s :: mask => by
    rw [List.forall_mem_cons]
    constructor
    · intro h
      generalize hvalue : ([] : List α) = value at h
      cases h with
      | one _ => cases hvalue
      | itself _ => cases hvalue
      | @star _ run value hrest _ =>
        obtain ⟨rfl, rfl⟩ := List.append_eq_nil_iff.mp hvalue.symm
        exact ⟨rfl, splits_nil.mp hrest⟩
    · rintro ⟨rfl, hmask⟩
      have hrun : Run pinned [] ([] : List α) := by
        intro c hc
        cases hc
      exact .star (splits_nil.mpr hmask) hrun

/-- A symbol that takes the next character leaves no choice. -/
theorem splits_takes {pinned : α → Bool} {s : Symbol α} {mask : List (Symbol α)} {c : α}
    {value : List α} (h : Takes pinned s c) :
    Splits pinned (s :: mask) (c :: value) ↔ Splits pinned mask value := by
  cases s with
  | star =>
    constructor
    · intro hsplit
      generalize hwhole : c :: value = whole at hsplit
      cases hsplit with
      | @star _ run rest hrest hrun =>
        have hc := hrun c (by rw [← hwhole]; rfl) h
        subst hc
        obtain rfl : value = rest := List.tail_eq_of_cons_eq hwhole
        exact hrest
    · intro hsplit
      refine @Splits.star _ pinned _ [c] _ hsplit fun d hd _ => ?_
      obtain rfl : c = d := Option.some.inj hd
      rfl
  | one =>
    constructor
    · intro hsplit
      cases hsplit with
      | one hrest => exact hrest
    · exact .one
  | itself a =>
    obtain rfl : a = c := h
    constructor
    · intro hsplit
      cases hsplit with
      | itself hrest => exact hrest
    · exact .itself

theorem splits_star {pinned : α → Bool} {mask : List (Symbol α)} {c : α} {value : List α}
    (h : pinned c = false) : Splits pinned (.star :: mask) (c :: value) ↔
      ∃ rest, rest <:+ c :: value ∧ Splits pinned mask rest := by
  constructor
  · intro hsplit
    generalize hwhole : c :: value = whole at hsplit ⊢
    cases hsplit with
    | @star _ run rest hrest _ => exact ⟨rest, List.suffix_append _ _, hrest⟩
  · rintro ⟨rest, ⟨run, hrun⟩, hrest⟩
    rw [← hrun]
    refine .star hrest fun d hd hpinned => ?_
    rw [hrun] at hd
    obtain rfl : c = d := Option.some.inj hd
    rw [h] at hpinned
    cases hpinned

theorem Splits.tail {pinned : α → Bool} {s : Symbol α} {mask : List (Symbol α)}
    {value : List α} (h : Splits pinned (s :: mask) value) :
    ∃ rest, rest <:+ value ∧ Splits pinned mask rest := by
  cases h with
  | one hrest => exact ⟨_, List.suffix_cons _ _, hrest⟩
  | itself hrest => exact ⟨_, List.suffix_cons _ _, hrest⟩
  | star hrest _ => exact ⟨_, List.suffix_append _ _, hrest⟩

theorem splits_append_of_suffix {pinned : α → Bool} {done : List (Symbol α)} {taken : List α}
    (h : List.Forall₂ (Takes pinned) done taken) {mask : List (Symbol α)} {value : List α} :
    ∀ {rest : List α}, rest <:+ taken ++ value → Splits pinned (done ++ mask) rest →
      ∃ last, last <:+ value ∧ Splits pinned mask last := by
  induction h with
  | nil =>
    intro rest hrest hsplit
    exact ⟨rest, hrest, hsplit⟩
  | @cons s c done taken htakes _ ih =>
    intro rest hrest hsplit
    rcases List.suffix_cons_iff.mp hrest with rfl | hrest
    · exact ih (List.suffix_refl _) ((splits_takes htakes).mp hsplit)
    · obtain ⟨last, hlast, hsplit⟩ := hsplit.tail
      exact ih (hlast.trans hrest) hsplit

/-- With no pinned character a pattern splits exactly the values it is cut into. -/
theorem splits_free {mask : List (Symbol α)} {value : List α} :
    Splits (fun _ => false) mask value ↔
      ∃ parts, List.Forall₂ StandsFor mask parts ∧ parts.flatten = value := by
  constructor
  · intro h
    induction h with
    | done => exact ⟨[], .nil, rfl⟩
    | @one mask c value _ ih =>
      obtain ⟨parts, hparts, rfl⟩ := ih
      exact ⟨[c] :: parts, .cons ⟨c, rfl⟩ hparts, rfl⟩
    | @itself mask c value _ ih =>
      obtain ⟨parts, hparts, rfl⟩ := ih
      exact ⟨[c] :: parts, .cons rfl hparts, rfl⟩
    | @star mask run value _ _ ih =>
      obtain ⟨parts, hparts, rfl⟩ := ih
      exact ⟨run :: parts, .cons trivial hparts, rfl⟩
  · rintro ⟨parts, hparts, rfl⟩
    induction hparts with
    | nil => exact .done
    | @cons s part mask parts hpart _ ih =>
      cases s with
      | star =>
        refine .star ih fun c _ hc => ?_
        cases hc
      | one =>
        obtain ⟨c, rfl⟩ := hpart
        exact .one ih
      | itself c =>
        obtain rfl : part = [c] := hpart
        exact .itself ih

theorem Splits.free {pinned : α → Bool} {mask : List (Symbol α)} {value : List α}
    (h : Splits pinned mask value) : Splits (fun _ => false) mask value := by
  induction h with
  | done => exact .done
  | one _ ih => exact .one ih
  | itself _ ih => exact .itself ih
  | star _ _ ih =>
    refine .star ih fun c _ hc => ?_
    cases hc

theorem Splits.pin {pinned : α → Bool} {mask : List (Symbol α)} {value : List α}
    (h : Splits (fun _ => false) mask value) (hvalue : ∀ c ∈ value, pinned c = false) :
    Splits pinned mask value := by
  induction h with
  | done => exact .done
  | one _ ih => exact .one (ih fun c hc => hvalue c (List.mem_cons_of_mem _ hc))
  | itself _ ih => exact .itself (ih fun c hc => hvalue c (List.mem_cons_of_mem _ hc))
  | @star mask run value _ _ ih =>
    refine .star (ih fun c hc => hvalue c (List.mem_append_right _ hc)) fun c hhead hc => ?_
    rw [hvalue c (List.mem_of_mem_head? hhead)] at hc
    cases hc

end Wildcards
