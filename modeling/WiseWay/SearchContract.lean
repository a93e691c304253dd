import WiseWay.Fallible
import WiseWay.Search

/-! # What an accepted search has passed

A search is accepted when its context, its query, its chain and its order are; its candidates
are the items whose markers start with the chain. -/
namespace SearchContract

open Records SearchText Search Fallible

variable {u : Library}

theorem possible_eq (items : List Item) (selected : List Text) :
    (items.filter fun item => decide (selected.length ≤ item.markers.length ∧
        (chainOf item).take selected.length = selected)) =
      items.filter fun item => selected <+: chainOf item := by
  refine List.filter_congr fun item _ => decide_eq_decide.mpr ⟨?_, fun h => ?_⟩
  · rintro ⟨_, h⟩
    exact h ▸ List.take_prefix ..
  · exact ⟨by simpa [chainOf] using h.length_le, (List.prefix_iff_eq_take.mp h).symm⟩

theorem selectedChain_eq (items : List Item) (selected : List Text) :
    selectedChain items selected =
      if selected.Nodup ∧ (selected = [] ∨
          (items.filter fun item => selected <+: chainOf item) ≠ []) then
        .ok (items.filter fun item => selected <+: chainOf item)
      else .error .invalidMarkerSelection := by
  unfold selectedChain
  by_cases hempty : selected = []
  · subst hempty
    simp
  · rw [if_neg hempty]
    by_cases hnodup : selected.Nodup
    · rw [if_neg (not_not_intro hnodup)]
      simp only [possible_eq]
      by_cases hnone : (items.filter fun item => selected <+: chainOf item) = []
      · simp [hnone, hempty]
      · obtain ⟨item, hitem⟩ := List.exists_mem_of_ne_nil _ hnone
        obtain ⟨hmem, hchain⟩ := List.mem_filter.mp hitem
        have hlast : items.any (fun item => selected.getLast?.any (· ∈ chainOf item)) = true := by
          refine List.any_eq_true.mpr ⟨item, hmem, ?_⟩
          rw [List.getLast?_eq_some_getLast hempty, Option.any_some, decide_eq_true_eq]
          exact (of_decide_eq_true hchain).subset (List.getLast_mem hempty)
        rw [if_neg hnone, if_neg (not_not_intro hlast), if_pos ⟨hnodup, .inr hnone⟩]
    · rw [if_pos hnodup, if_neg fun h => hnodup h.1]

theorem selectedChain_ok {items candidates : List Item} {selected : List Text} :
    selectedChain items selected = .ok candidates ↔ selected.Nodup ∧
      (selected = [] ∨ candidates ≠ []) ∧
        candidates = items.filter fun item => selected <+: chainOf item := by
  rw [selectedChain_eq]
  split
  · rename_i h
    constructor
    · intro hcandidates
      obtain rfl := Except.ok.inj hcandidates
      exact ⟨h.1, h.2, rfl⟩
    · rintro ⟨_, _, rfl⟩
      rfl
  · rename_i h
    constructor
    · intro hcandidates
      cases hcandidates
    · rintro ⟨hnodup, hne, rfl⟩
      exact absurd ⟨hnodup, hne⟩ h

def matchingItems (u : Library) (items : List Item) (query : Query) (selected : List Text) :
    List Item :=
  (items.filter fun item => selected <+: chainOf item).filter fun item =>
    (matchesAndScore u query item).isSome

theorem matchingRows_items (query : Query) (candidates : List Item) :
    (matchingRows u query candidates).map Prod.fst =
      candidates.filter fun item => (matchesAndScore u query item).isSome := by
  rw [matchingRows, List.map_filterMap, ← List.filterMap_eq_filter]
  refine List.filterMap_congr fun item _ => ?_
  cases h : matchesAndScore u query item <;> simp [Option.guard, h]

theorem matches_of_blank {query : Query} (h : query.blank = true) (item : Item) :
    matchesAndScore u query item = some 0 := by
  rw [Query.blank, decide_eq_true_eq] at h
  rw [matchesAndScore, h.1, h.2]
  rfl

/-- The outcome of a search whose query and candidates are known. -/
def outcome (u : Library) (root : SearchRoot) (request : SearchRequest) (limit : ℕ)
    (query : Query) (candidates : List Item) : Except SearchError SearchResponse :=
  if request.sort.field = .relevance ∧ query.blank then .error .invalidQuery
  else if request.selectedMarkerIds = [] ∧ query.blank then
    .ok (idleResponse root request.toFacetRequest limit
      (facetOf u candidates request.selectedMarkerIds.length request.facetPrefix))
  else (sortRows u (matchingRows u query candidates) request.sort).map fun returned =>
    resultsResponse root request.toFacetRequest limit query.appliedText
      (leadingMarkers candidates request.selectedMarkerIds)
      (matchingRows u query candidates).length (returned.take limit)
      (facetOf u ((matchingRows u query candidates).map Prod.fst)
        request.selectedMarkerIds.length request.facetPrefix)

structure Accepted (u : Library) (root : SearchRoot) (items : List Item) (request : SearchRequest)
    (limit : ℕ) (query : Query) (candidates : List Item) : Prop where
  context : validateContext root request.toFacetRequest = .ok ()
  limit_pos : 1 ≤ limit
  parsed : parseQuery u.toUnicode request.queryText = .ok query
  chain : selectedChain items request.selectedMarkerIds = .ok candidates

variable {root : SearchRoot} {items : List Item} {request : SearchRequest} {limit : ℕ}

end SearchContract
