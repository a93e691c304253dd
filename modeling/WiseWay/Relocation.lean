import Mathlib.Data.List.Pairwise
import Mathlib.Logic.Function.Basic
import Mathlib.Tactic.Common

/-! # Relocations executed one at a time

A job finds its entry at a place and may have to move it to a free one. Jobs that are all
feasible when they are planned are executed in some order, each in the tree that the earlier
ones have left. They all come out as planned exactly when no two of them meet. -/
namespace Relocation

variable {P E : Type} [DecidableEq P]

structure Job (P E : Type) where
  source : P
  entry : E
  dest : Option P

def Job.home (j : Job P E) : P := j.dest.getD j.source

/-- The job finds its entry, and its destination is free. -/
def Feasible (tree : P → Option E) (j : Job P E) : Prop :=
  tree j.source = some j.entry ∧ ∀ d, j.dest = some d → tree d = none

def place (tree : P → Option E) (j : Job P E) : P → Option E :=
  match j.dest with
  | none => tree
  | some d => Function.update (Function.update tree j.source none) d (some j.entry)

open Classical in
/-- A job that is not feasible when its turn comes is left undone. -/
noncomputable def turn (tree : P → Option E) (j : Job P E) : P → Option E :=
  if Feasible tree j then place tree j else tree

/-- Every job is feasible when its turn comes. -/
def AllFeasible : (P → Option E) → List (Job P E) → Prop
  | _, [] => True
  | tree, j :: js => Feasible tree j ∧ AllFeasible (turn tree j) js

noncomputable def after (tree : P → Option E) (js : List (Job P E)) : P → Option E :=
  js.foldl turn tree

/-- Neither moves what the other needs or takes the place that the other takes. -/
def Apart (j k : Job P E) : Prop :=
  (j.dest ≠ none ∨ k.dest ≠ none → j.source ≠ k.source) ∧ ∀ d, j.dest = some d → k.dest ≠ some d

omit [DecidableEq P] in
theorem Apart.symm {j k : Job P E} (h : Apart j k) : Apart k j :=
  ⟨fun hd heq => h.1 hd.symm heq.symm, fun d hk hj => h.2 d hj hk⟩

instance : Std.Symm (Apart (P := P) (E := E)) := ⟨fun _ _ => Apart.symm⟩

theorem allFeasible_append (js : List (Job P E)) : ∀ (tree : P → Option E) (ks : List (Job P E)),
    AllFeasible tree (js ++ ks) ↔ AllFeasible tree js ∧ AllFeasible (after tree js) ks := by
  induction js with
  | nil => simp [AllFeasible, after]
  | cons j js ih =>
    intro tree ks
    simp only [List.cons_append, AllFeasible, after, List.foldl_cons, and_assoc]
    rw [ih]
    rfl

theorem after_append (tree : P → Option E) (js ks : List (Job P E)) :
    after tree (js ++ ks) = after (after tree js) ks := List.foldl_append

/-! One turn. -/

theorem turn_of_feasible {tree : P → Option E} {j : Job P E} (h : Feasible tree j) :
    turn tree j = place tree j := if_pos h

theorem place_other {tree : P → Option E} {j : Job P E} {p : P}
    (hsource : j.dest ≠ none → j.source ≠ p) (hdest : j.dest ≠ some p) :
    place tree j p = tree p := by
  unfold place
  cases hd : j.dest with
  | none => rfl
  | some d =>
    have hdp : p ≠ d := fun h => hdest (h ▸ hd)
    have hsp : p ≠ j.source := fun h => hsource (by simp [hd]) h.symm
    simp [Function.update_of_ne, hdp, hsp]

theorem turn_other {tree : P → Option E} {j : Job P E} {p : P}
    (hsource : j.dest ≠ none → j.source ≠ p) (hdest : j.dest ≠ some p) :
    turn tree j p = tree p := by
  unfold turn
  split
  · exact place_other hsource hdest
  · rfl

theorem place_home {tree : P → Option E} {j : Job P E} (h : Feasible tree j) :
    place tree j j.home = some j.entry := by
  unfold place Job.home
  cases hd : j.dest with
  | none => exact h.1
  | some d => simp

theorem place_source {tree : P → Option E} {j : Job P E} (h : Feasible tree j)
    (hd : j.dest ≠ none) : place tree j j.source = none := by
  obtain ⟨d, hd⟩ := Option.ne_none_iff_exists'.mp hd
  have hne : j.source ≠ d := by
    rintro heq
    have := h.2 d hd
    rw [← heq, h.1] at this
    cases this
  simp [place, hd, Function.update_of_ne hne]

theorem Feasible.place {tree : P → Option E} {j k : Job P E} (hj : Feasible tree j)
    (hk : Feasible tree k) (h : Apart j k) : Feasible (place tree j) k := by
  constructor
  · rw [place_other fun hd => h.1 (.inl hd), hk.1]
    intro hd
    have := hj.2 _ hd
    rw [hk.1] at this
    cases this
  · intro d hd
    rw [place_other, hk.2 d hd]
    · rintro _ rfl
      have := hk.2 _ hd
      rw [hj.1] at this
      cases this
    · exact fun hjd => h.2 d hjd hd

/-! A whole order. -/

theorem after_other {p : P} : ∀ (js : List (Job P E)) (tree : P → Option E),
    (∀ j ∈ js, (j.dest ≠ none → j.source ≠ p) ∧ j.dest ≠ some p) → after tree js p = tree p
  | [], _, _ => rfl
  | j :: js, tree, h => by
    have hj := h j (List.mem_cons_self ..)
    rw [after, List.foldl_cons]
    refine (after_other js _ fun k hk => h k (List.mem_cons_of_mem _ hk)).trans ?_
    exact turn_other hj.1 hj.2

theorem after_none {p : P} : ∀ (js : List (Job P E)) (tree : P → Option E),
    (∀ j ∈ js, j.dest ≠ some p) → tree p = none → after tree js p = none
  | [], _, _, h => h
  | j :: js, tree, hdest, h => by
    rw [after, List.foldl_cons]
    refine after_none js _ (fun k hk => hdest k (List.mem_cons_of_mem _ hk)) ?_
    unfold turn
    split
    · rename_i hj
      rw [place_other, h]
      · rintro _ rfl
        rw [hj.1] at h
        cases h
      · exact hdest j (List.mem_cons_self ..)
    · exact h

theorem after_some {p : P} {e : E} : ∀ (js : List (Job P E)) (tree : P → Option E),
    (∀ j ∈ js, j.source ≠ p) → tree p = some e → after tree js p = some e
  | [], _, _, h => h
  | j :: js, tree, hsource, h => by
    rw [after, List.foldl_cons]
    refine after_some js _ (fun k hk => hsource k (List.mem_cons_of_mem _ hk)) ?_
    unfold turn
    split
    · rename_i hj
      rw [place_other, h]
      · exact fun _ => hsource j (List.mem_cons_self ..)
      · intro hd
        have := hj.2 p hd
        rw [h] at this
        cases this
    · exact h

theorem AllFeasible.of_mem {k : Job P E} : ∀ {js : List (Job P E)} {tree : P → Option E},
    AllFeasible tree js → k ∈ js → ∃ earlier later, js = earlier ++ k :: later ∧
      Feasible (after tree earlier) k
  | j :: js, tree, h, hk => by
    rcases List.mem_cons.mp hk with rfl | hk
    · exact ⟨[], js, rfl, h.1⟩
    · obtain ⟨earlier, later, rfl, hfeasible⟩ := AllFeasible.of_mem h.2 hk
      exact ⟨j :: earlier, later, rfl, hfeasible⟩

omit [DecidableEq P] in
theorem dest_ne_source {tree : P → Option E} {j k : Job P E} (hj : Feasible tree j)
    (hk : Feasible tree k) : j.dest ≠ some k.source := by
  intro hd
  have := hj.2 _ hd
  rw [hk.1] at this
  cases this

section Order

variable {tree : P → Option E} {js : List (Job P E)}

theorem AllFeasible.emptied {k : Job P E} (h : AllFeasible tree js)
    (hne : ∀ i ∈ js, ∀ j ∈ js, i.dest ≠ some j.source) (hk : k ∈ js) (hd : k.dest ≠ none) :
    after tree js k.source = none := by
  obtain ⟨earlier, later, rfl, hfeasible⟩ := h.of_mem hk
  rw [after_append, after, List.foldl_cons, turn_of_feasible hfeasible]
  exact after_none later _ (fun i hi => hne i (by simp [hi]) k (by simp))
    (place_source hfeasible hd)

theorem AllFeasible.arrived {k : Job P E} (h : AllFeasible tree js)
    (hne : ∀ i ∈ js, ∀ j ∈ js, i.dest ≠ some j.source) (hk : k ∈ js) (hd : k.dest ≠ none) :
    after tree js k.home = some k.entry := by
  obtain ⟨earlier, later, rfl, hfeasible⟩ := h.of_mem hk
  rw [after_append, after, List.foldl_cons, turn_of_feasible hfeasible]
  refine after_some later _ (fun i hi heq => ?_) (place_home hfeasible)
  obtain ⟨d, hd⟩ := Option.ne_none_iff_exists'.mp hd
  simp only [Job.home, hd, Option.getD_some] at heq
  exact hne k (by simp) i (by simp [hi]) (heq ▸ hd)

theorem AllFeasible.passed {j k : Job P E} (h : AllFeasible tree (j :: js))
    (hne : ∀ i ∈ j :: js, ∀ k ∈ j :: js, i.dest ≠ some k.source) (hk : k ∈ js) :
    (j.dest ≠ none → j.source ≠ k.source) ∧ ∀ d, j.dest = some d → k.dest ≠ some d := by
  obtain ⟨hj, hrest⟩ := h
  rw [turn_of_feasible hj] at hrest
  obtain ⟨earlier, later, rfl, hfeasible⟩ := hrest.of_mem hk
  refine ⟨fun hd heq => ?_, fun d hd hkd => ?_⟩
  · have hgone := after_none earlier _ (fun i hi => hne i (by simp [hi]) j (by simp))
      (place_source hj hd)
    rw [heq, hfeasible.1] at hgone
    cases hgone
  · have hheld := after_some earlier _ (fun i hi heq => ?_) (place_home hj)
    · simp only [Job.home, hd, Option.getD_some] at hheld
      rw [hfeasible.2 d hkd] at hheld
      cases hheld
    · simp only [Job.home, hd, Option.getD_some] at heq
      exact hne j (by simp) i (by simp [hi]) (heq ▸ hd)

theorem allFeasible_of_apart : ∀ {js : List (Job P E)} {tree : P → Option E},
    (∀ j ∈ js, Feasible tree j) → js.Pairwise Apart → AllFeasible tree js
  | [], _, _, _ => trivial
  | j :: js, tree, h, hapart => by
    obtain ⟨hhead, htail⟩ := List.pairwise_cons.mp hapart
    have hj := h j (List.mem_cons_self ..)
    refine ⟨hj, allFeasible_of_apart (fun k hk => ?_) htail⟩
    rw [turn_of_feasible hj]
    exact hj.place (h k (List.mem_cons_of_mem _ hk)) (hhead k hk)

/-- Every job was feasible at its turn, and in the end every entry is where its job wants it. -/
def AsPlanned (tree : P → Option E) (js : List (Job P E)) : Prop :=
  AllFeasible tree js ∧ ∀ j ∈ js, after tree js j.home = some j.entry

theorem pairwise_apart_of_asPlanned (hne : ∀ i ∈ js, ∀ j ∈ js, i.dest ≠ some j.source)
    (hall : AllFeasible tree js) (hhome : ∀ j ∈ js, after tree js j.home = some j.entry) :
    js.Pairwise Apart := by
  have hstay : ∀ j ∈ js, ∀ k ∈ js, j.dest = none → k.dest ≠ none → j.source ≠ k.source := by
    intro j hj k hk hjd hkd heq
    have hgone := hall.emptied hne hk hkd
    have hthere := hhome j hj
    simp only [Job.home, hjd, Option.getD_none] at hthere
    rw [heq, hgone] at hthere
    cases hthere
  clear hhome
  induction js generalizing tree with
  | nil => exact .nil
  | cons j js ih =>
    refine List.pairwise_cons.mpr ⟨fun k hk => ?_, ih ?_ hall.2 ?_⟩
    · obtain ⟨hsource, hdest⟩ := hall.passed hne hk
      refine ⟨fun hd => ?_, hdest⟩
      by_cases hjd : j.dest = none
      · exact hstay j (List.mem_cons_self ..) k (List.mem_cons_of_mem _ hk) hjd
          (hd.resolve_left (not_not.mpr hjd))
      · exact hsource hjd
    · exact fun i hi k hk => hne i (List.mem_cons_of_mem _ hi) k (List.mem_cons_of_mem _ hk)
    · exact fun i hi k hk => hstay i (List.mem_cons_of_mem _ hi) k (List.mem_cons_of_mem _ hk)

/-- Jobs that are feasible together come out as planned, in this order or any other, exactly
when they are apart. -/
theorem asPlanned_iff (h : ∀ j ∈ js, Feasible tree j) : AsPlanned tree js ↔ js.Pairwise Apart := by
  have hne : ∀ i ∈ js, ∀ j ∈ js, i.dest ≠ some j.source :=
    fun i hi j hj => dest_ne_source (h i hi) (h j hj)
  constructor
  · rintro ⟨hall, hhome⟩
    exact pairwise_apart_of_asPlanned hne hall hhome
  · intro hapart
    have hall := allFeasible_of_apart h hapart
    refine ⟨hall, fun j hj => ?_⟩
    by_cases hd : j.dest = none
    · simp only [Job.home, hd, Option.getD_none]
      rw [after_other js tree fun k hk => ⟨fun hkd heq => ?_, hne k hk j hj⟩]
      · exact (h j hj).1
      · have hkj : k ≠ j := fun heq => hkd (heq ▸ hd)
        exact (hapart.forall hk hj hkj).1 (.inl hkd) heq
    · exact hall.arrived hne hj hd

omit [DecidableEq P] in
theorem apart_perm {ks : List (Job P E)} (h : js.Perm ks) :
    js.Pairwise Apart ↔ ks.Pairwise Apart := h.pairwise_iff Apart.symm

end Order

end Relocation
