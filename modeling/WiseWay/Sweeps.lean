import Mathlib.Data.List.Sort
import Mathlib.Order.Basic
import Mathlib.Tactic.Common

/-! # Sweeps over a keyset

A loop that reads the keys after the last one it has seen, a page at a time, handles the page
and goes on behind it. It ends as long as the pages create no keys. -/
namespace Sweeps

variable {K S : Type*} [LinearOrder K]

/-- The first keys after `last`. -/
def page (limit : ℕ) (last : K) (keys : List K) : List K :=
  (keys.filter (last < ·)).take limit

/-- The loop, with fuel for its rounds. -/
def sweep (limit : ℕ) (keys : S → List K) (turn : S → List K → S) : ℕ → K → S → Option S
  | 0, _, _ => none
  | fuel + 1, last, s =>
    match (page limit last (keys s)).getLast? with
    | none => some s
    | some top => sweep limit keys turn fuel top (turn s (page limit last (keys s)))

variable {limit : ℕ} {last top : K} {keys : List K}

theorem mem_page {k : K} (h : k ∈ page limit last keys) : k ∈ keys ∧ last < k := by
  have hfilter := List.mem_of_mem_take h
  rw [List.mem_filter, decide_eq_true_eq] at hfilter
  exact hfilter

theorem page_nodup (h : keys.Pairwise (· < ·)) : (page limit last keys).Nodup :=
  ((h.imp fun hlt => ne_of_lt hlt).sublist List.filter_sublist).sublist (List.take_sublist ..)

theorem page_empty (hlimit : 0 < limit) (h : (page limit last keys).getLast? = none) :
    ∀ k ∈ keys, k ≤ last := by
  intro k hk
  by_contra hlast
  have hmem : k ∈ keys.filter (last < ·) :=
    List.mem_filter.mpr ⟨hk, decide_eq_true (not_le.mp hlast)⟩
  rw [List.getLast?_eq_none_iff, page, List.take_eq_nil_iff] at h
  rcases h with h | h
  · omega
  · rw [h] at hmem
    cases hmem

theorem page_top (hsorted : keys.Pairwise (· < ·))
    (h : (page limit last keys).getLast? = some top) :
    top ∈ page limit last keys ∧ (∀ k ∈ page limit last keys, k ≤ top) ∧
      ∀ k ∈ keys, last < k → k ≤ top → k ∈ page limit last keys := by
  have hfilter : (keys.filter (last < ·)).Pairwise (· < ·) := hsorted.sublist List.filter_sublist
  have htop : top ∈ page limit last keys := List.mem_of_getLast? h
  refine ⟨htop, ?_, ?_⟩
  · intro k hk
    obtain ⟨front, hfront⟩ := List.getLast?_eq_some_iff.mp h
    rw [page] at hfront hk
    have hpage := hfilter.sublist (List.take_sublist limit _)
    rw [hfront] at hpage hk
    rcases List.mem_append.mp hk with hk | hk
    · exact le_of_lt ((List.pairwise_append.mp hpage).2.2 k hk top (List.mem_singleton_self top))
    · exact le_of_eq (List.mem_singleton.mp hk)
  · intro k hk hlast hle
    have hmem : k ∈ keys.filter (last < ·) := List.mem_filter.mpr ⟨hk, decide_eq_true hlast⟩
    rw [← List.take_append_drop limit (keys.filter (last < ·))] at hmem hfilter
    rcases List.mem_append.mp hmem with hmem | hmem
    · exact hmem
    · have hlt := (List.pairwise_append.mp hfilter).2.2 top htop k hmem
      exact absurd hle (not_le.mpr hlt)

def ahead (last : K) (keys : List K) : ℕ := (keys.filter (last < ·)).length

theorem ahead_lt {more : List K} (hmore : more.Nodup) (hsub : more ⊆ keys)
    (h : top ∈ page limit last keys) : ahead top more < ahead last keys := by
  obtain ⟨htop, hlast⟩ := mem_page h
  have hle : ahead top more ≤ ahead top keys :=
    (List.subperm_of_subset (hmore.filter _) (List.filter_subset _ hsub)).length_le
  have htwice : keys.filter (top < ·) = (keys.filter (last < ·)).filter (top < ·) := by
    rw [List.filter_filter]
    apply List.filter_congr
    intro k _
    rw [Bool.eq_iff_iff, Bool.and_eq_true, decide_eq_true_eq, decide_eq_true_eq]
    exact ⟨fun hk => ⟨hk, lt_trans hlast hk⟩, fun hk => hk.1⟩
  have hmem : top ∈ keys.filter (last < ·) := List.mem_filter.mpr ⟨htop, decide_eq_true hlast⟩
  refine lt_of_le_of_lt hle ?_
  rw [ahead, ahead, htwice]
  exact List.length_filter_lt_length_iff_exists.mpr ⟨top, hmem, by simp⟩

theorem sweep_total {keys : S → List K} {turn : S → List K → S} {holds : K → S → Prop}
    (hlimit : 0 < limit) (hsorted : ∀ s, (keys s).Pairwise (· < ·))
    (hkeys : ∀ last s, holds last s → ∀ top ∈ page limit last (keys s),
      keys (turn s (page limit last (keys s))) ⊆ keys s)
    (hturn : ∀ last s, holds last s → ∀ top, (page limit last (keys s)).getLast? = some top →
      holds top (turn s (page limit last (keys s))))
    {fuel : ℕ} {last : K} {s : S} (h : holds last s) (hfuel : ahead last (keys s) < fuel) :
    ∃ final t, sweep limit keys turn fuel last s = some t ∧ holds final t ∧
      ∀ k ∈ keys t, k ≤ final := by
  induction fuel generalizing last s with
  | zero => omega
  | succ fuel ih =>
    rw [sweep]
    split
    · rename_i hnone
      exact ⟨last, s, rfl, h, page_empty hlimit hnone⟩
    · rename_i top htop
      have hmem := (page_top (hsorted s) htop).1
      have hnodup := (hsorted (turn s (page limit last (keys s)))).imp fun hlt => ne_of_lt hlt
      have hless := ahead_lt hnodup (hkeys last s h top hmem) hmem
      exact ih (hturn last s h top htop) (by omega)

end Sweeps
