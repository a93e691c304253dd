import WiseWay.MarkerTrails
import WiseWay.SearchContract

/-! # The counts of a facet are the totals behind its options

An option stands for the items that continue the chain by one marker. Its count is the total of
the search in which that marker is selected, because the markers of one item are distinct. -/
namespace FacetTotals

open Records SearchText Search SearchContract Fallible MarkerTrails

variable {u : Library}

/-! Counting. -/

/-- Groups that count each of some identifiers. -/
structure Counted (groups : Groups) (ids : List Text) : Prop where
  distinct : (groups.map (·.1.markerId)).Nodup
  exact : ∀ known ∈ groups, known.2 = ids.count known.1.markerId
  covers : ∀ id, id ∈ groups.map (·.1.markerId) ↔ id ∈ ids
  total : (groups.map Prod.snd).sum = ids.length

theorem known_iff {groups : Groups} {marker : Marker} :
    (groups.any fun known => known.1.markerId = marker.markerId) = true ↔
      marker.markerId ∈ groups.map (·.1.markerId) := by
  simp [List.any_eq_true]

theorem bumped_ids (groups : Groups) (id : Text) :
    (groups.map fun known => if known.1.markerId = id then (known.1, known.2 + 1) else known).map
      (·.1.markerId) = groups.map (·.1.markerId) := by
  rw [List.map_map]
  refine List.map_congr_left fun known _ => ?_
  simp only [Function.comp_apply]
  split <;> rfl

theorem bumped_sum (id : Text) : ∀ {groups : Groups}, (groups.map (·.1.markerId)).Nodup →
    id ∈ groups.map (·.1.markerId) →
      ((groups.map fun known =>
        if known.1.markerId = id then (known.1, known.2 + 1) else known).map Prod.snd).sum =
          (groups.map Prod.snd).sum + 1
  | known :: groups, hnodup, hmem => by
    rw [List.map_cons, List.nodup_cons] at hnodup
    by_cases hid : known.1.markerId = id
    · subst hid
      have hrest : (groups.map fun other => if other.1.markerId = known.1.markerId then
          (other.1, other.2 + 1) else other) = groups := by
        refine (List.map_congr_left fun other hother => if_neg fun heq => ?_).trans
          (List.map_id' groups)
        exact hnodup.1 (heq ▸ List.mem_map_of_mem hother)
      simp [hrest]
      omega
    · have hrest := bumped_sum id hnodup.2 (by simpa [Ne.symm hid] using hmem)
      simp only [List.map_cons, if_neg hid, List.sum_cons, hrest]
      omega

theorem tally_counted {groups : Groups} {ids : List Text} (h : Counted groups ids)
    (marker : Marker) : Counted (tally groups marker) (ids ++ [marker.markerId]) := by
  unfold tally
  by_cases hknown : marker.markerId ∈ groups.map (·.1.markerId)
  · rw [if_pos (known_iff.mpr hknown)]
    refine ⟨?_, fun known hmem => ?_, fun id => ?_, ?_⟩
    · rw [bumped_ids]
      exact h.distinct
    · obtain ⟨known', hmem', rfl⟩ := List.mem_map.mp hmem
      have := h.exact known' hmem'
      by_cases hid : known'.1.markerId = marker.markerId
      · simp [hid, this]
      · simp [hid, this, Ne.symm hid]
    · rw [bumped_ids, List.mem_append, List.mem_singleton, h.covers]
      constructor
      · exact .inl
      · rintro (hid | rfl)
        · exact hid
        · exact (h.covers _).mp hknown
    · rw [bumped_sum _ h.distinct hknown, h.total, List.length_append, List.length_singleton]
  · rw [if_neg (mt known_iff.mp hknown)]
    have hfresh : marker.markerId ∉ ids := mt (h.covers _).mpr hknown
    refine ⟨?_, fun known hmem => ?_, fun id => ?_, ?_⟩
    · rw [List.map_append, List.map_singleton, List.nodup_append]
      refine ⟨h.distinct, List.nodup_singleton _, fun id hid other hother heq => ?_⟩
      rw [List.mem_singleton] at hother
      exact hknown (hother ▸ heq ▸ hid)
    · rcases List.mem_append.mp hmem with hmem | hmem
      · have hne : marker.markerId ≠ known.1.markerId := fun heq =>
          hknown (heq ▸ List.mem_map_of_mem hmem)
        rw [h.exact known hmem, List.count_append, List.count_singleton]
        simp [hne]
      · obtain rfl := List.mem_singleton.mp hmem
        simp [List.count_eq_zero_of_not_mem hfresh]
    · rw [List.map_append, List.mem_append, List.mem_append, h.covers]
      rfl
    · rw [List.map_append, List.sum_append, h.total]
      simp

variable {root : SearchRoot} {items : List Item} {request : SearchRequest} {limit : ℕ}

/-- The request in which a marker has been added to the chain. -/
def narrow (request : SearchRequest) (markerId : Text) : SearchRequest :=
  { request with selectedMarkerIds := request.selectedMarkerIds ++ [markerId] }

/-- What a response says of the items that a search finds. -/
structure Answers (u : Library) (items : List Item) (request : SearchRequest) (query : Query)
    (response : SearchResponse) : Prop where
  total : response.total.getD items.length =
    (matchingItems u items query request.selectedMarkerIds).length
  idle : response.mode = .idle ↔ response.total = none
  facet : response.nextFacet = facetOf u
    (matchingItems u items query request.selectedMarkerIds) request.selectedMarkerIds.length
      request.facetPrefix
  sorted : response.mode = .results → ∃ returned,
    sortRows u (matchingRows u query (items.filter fun item =>
      request.selectedMarkerIds <+: chainOf item)) request.sort = .ok returned
  ranked : request.sort.field = .relevance → query.blank = false
  blank : response.mode = .idle → query.blank = true

/-- Items whose times can be sorted. -/
def Dated (u : Library) (items : List Item) : Prop :=
  ∀ item ∈ items, ∃ key, instantSortKey u.toUnicode item.modifiedAt = .ok key

def smallFile (relativePath : String) : FileRecord :=
  ⟨relativePath.toList, 3, "2024-01-01T00:00:00Z".toList, relativePath.toList⟩

def smallItems : List Item :=
  ((["Archive/Atlas/a.txt", "Archive/Nova/a.txt", "Archive/Atlas/b.txt"].map smallFile).mapM
    (buildItem plain "archive".toList [] smallSchema)).toOption.getD []

def smallRequest : SearchRequest where
  requestStateId := "state-1".toList
  rootId := "archive".toList
  schemaSetVersion := "v1".toList
  selectedMarkerIds := [(valueMarker plain "archive".toList "v1".toList
    ⟨"level-section".toList, "Раздел".toList, ["Archive".toList], false⟩ "Archive".toList
      []).markerId]
  queryText := "txt".toList
  facetPrefix := []
  sort := ⟨.relevance, .desc⟩

def smallRoot : SearchRoot :=
  ⟨"archive".toList, [], "v1".toList, "generation-1".toList, "2024-01-01T00:00:00Z".toList⟩

end FacetTotals
