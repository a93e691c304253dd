import Mathlib.Algebra.Order.Group.Defs
import Mathlib.Algebra.Order.Sub.Defs
import Mathlib.Data.List.Sort
import Mathlib.Tactic.Abel

/-! # Sliding windows

A limiter stores the times it has counted and forgets those that have become old. Whatever it
forgets and whenever, it stores as many recent times as were counted. -/
namespace SlidingWindows

variable {T : Type*} [AddCommGroup T] [LinearOrder T]
variable {width now later since : T} {counted stored : List T}

/-- The times less than `width` before `now`. -/
def recent (width now : T) (times : List T) : List T :=
  times.filter fun time => now - time < width

/-- The half-open window of `width` from `since` on. -/
def Within (width since time : T) : Prop := since ≤ time ∧ time < since + width

instance (width since time : T) : Decidable (Within width since time) :=
  inferInstanceAs (Decidable (_ ∧ _))

/-- From `now` on, as many recent times are stored as were counted. -/
def Covers (width now : T) (counted stored : List T) : Prop :=
  ∀ later, now ≤ later → (recent width later counted).length ≤ (recent width later stored).length

theorem recent_append (width now : T) (a b : List T) :
    recent width now (a ++ b) = recent width now a ++ recent width now b :=
  List.filter_append ..

theorem Covers.mono (h : Covers width now counted stored) (hle : now ≤ later) :
    Covers width later counted stored :=
  fun last hlast => h last (le_trans hle hlast)

theorem Covers.prune {pruned : List T} (h : Covers width now counted stored)
    (hpruned : ∀ later, now ≤ later → recent width later pruned = recent width later stored) :
    Covers width now counted pruned := by
  intro later hlater
  rw [hpruned later hlater]
  exact h later hlater

theorem Covers.append (h : Covers width now counted stored) (time : T) :
    Covers width now (counted ++ [time]) (stored ++ [time]) := by
  intro later hlater
  rw [recent_append, recent_append, List.length_append, List.length_append]
  exact Nat.add_le_add_right (h later hlater) _

variable [IsOrderedAddMonoid T]

theorem recent_recent (h : now ≤ later) (times : List T) :
    recent width later (recent width now times) = recent width later times := by
  unfold recent
  rw [List.filter_filter]
  apply List.filter_congr
  intro time _
  rw [Bool.eq_iff_iff, Bool.and_eq_true, decide_eq_true_eq, decide_eq_true_eq]
  constructor
  · intro hboth
    exact hboth.1
  · intro hlater
    exact ⟨hlater, lt_of_le_of_lt (sub_le_sub_right h time) hlater⟩

/-- Times that share a window with `now` are recent. -/
theorem within_recent (hnow : Within width since now) :
    counted.countP (fun time => Within width since time) ≤ (recent width now counted).length := by
  rw [List.countP_eq_length_filter]
  apply List.Sublist.length_le
  apply List.monotone_filter_right
  intro time htime
  rw [decide_eq_true_eq] at htime ⊢
  rw [sub_lt_iff_lt_add]
  calc now < since + width := hnow.2
    _ ≤ time + width := by gcongr; exact htime.1
    _ = width + time := add_comm _ _

theorem within_append {limit : ℕ} (hcovers : Covers width now counted stored)
    (hroom : (recent width now stored).length < limit)
    (h : counted.countP (fun time => Within width since time) ≤ limit) :
    (counted ++ [now]).countP (fun time => Within width since time) ≤ limit := by
  rw [List.countP_append, List.countP_singleton]
  by_cases hnow : Within width since now
  · have hcounted : counted.countP (fun time => Within width since time) ≤
        (recent width now counted).length := within_recent hnow
    have hstored := hcovers now le_rfl
    rw [if_pos (decide_eq_true hnow)]
    omega
  · rw [if_neg (by simpa using hnow)]
    omega

end SlidingWindows
