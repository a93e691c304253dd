import WiseWay.StoredKeys
import WiseWay.StoredMarkers

/-! # The stored facets

The queries of a facet count the rows of markers at one depth. Counting rows, keeping those of a
folded prefix and sorting them by their bytes gives the groups of the evaluator. -/
namespace StoredFacets

open Records SearchText Search SearchTables SearchGenerations SqlSearch SearchContract MarkerForest
open StoredMarkers StoredKeys StoredWords
open CandidateRows (Scores mem_rows)

variable {u : Library} {G : Type} [DecidableEq G] {t : Tables G} {g : G} {items : List Item}

/-! Groups. -/

theorem tally_counted : tally = Groupings.counted fun a b : Marker => a.markerId = b.markerId := rfl

omit [DecidableEq G] in
theorem countMarker_counted : countMarker =
    Groupings.counted fun a b : MarkerRow G => a.marker.markerId = b.marker.markerId := rfl

omit [DecidableEq G] in
theorem countMarker_tally (rows : List (MarkerRow G)) :
    ((rows.foldl countMarker []).map fun known => (known.1.marker, known.2)) =
      (rows.map (·.marker)).foldl tally [] := by
  rw [countMarker_counted, tally_counted]
  exact Groupings.counted_map (fun a b : Marker => a.markerId = b.markerId) _ rows []

/-! Prefixes and keys. -/

theorem bytesSuccessor_eq {l : List ℕ} {n : ℕ} (h : n < 255) :
    bytesSuccessor (l ++ [n]) = l ++ [n + 1] := by
  have hlast : decide (n = 0xFF) = false := decide_eq_false (by omega)
  rw [bytesSuccessor, List.reverse_append, List.reverse_singleton, List.singleton_append,
    List.dropWhile_cons, hlast]
  simp

omit [DecidableEq G] in
theorem withFolded_iff (parent : Option Text) (depth : ℕ) (marker : Marker) (facetPrefix : Text) :
    withFolded u facetPrefix (markerRow u g parent depth marker) =
      decide (casefold u.toUnicode facetPrefix <+: casefold u.toUnicode marker.displayValue) := by
  unfold withFolded markerRow
  simp only
  generalize casefold u.toUnicode facetPrefix = folded
  generalize casefold u.toUnicode marker.displayValue = value
  rw [decide_eq_decide]
  rcases List.eq_nil_or_concat (encode folded) with hnil | ⟨bytes, last, hbytes⟩
  · have hempty : folded = [] := by
      have hbegins : folded <+: [] := encode_prefix.mp (hnil ▸ List.nil_prefix)
      exact List.prefix_nil.mp hbegins
    subst hempty
    exact iff_of_true (.inl hnil) List.nil_prefix
  · rw [List.concat_eq_append] at hbytes
    have hlast : last < 255 := by
      have hmem : last ∈ encode folded := by
        rw [hbytes]
        exact List.mem_append_right _ (List.mem_singleton_self _)
      exact encode_lt hmem
    rw [← encode_prefix, hbytes, bytesSuccessor_eq hlast, ← WordStreams.range_prefix]
    constructor
    · rintro (hnil | ⟨hlow, hhigh⟩)
      · simp at hnil
      · exact ⟨not_lt.mpr hlow, hhigh⟩
    · rintro ⟨hlow, hhigh⟩
      exact .inr ⟨not_lt.mp hlow, hhigh⟩

omit [DecidableEq G] in
theorem markerKey_alike (hu : DecimalDigits u.toUnicode) {a b : Marker}
    (ha : NaturalBlob.ShortRuns u.toUnicode a.displayValue)
    (hb : NaturalBlob.ShortRuns u.toUnicode b.displayValue) (parent parent' : Option Text)
    (depth depth' : ℕ) :
    OrderedCodes.Alike (markerKey (markerRow u g parent depth a))
      (markerKey (markerRow u g parent' depth' b)) (optionKey u a) (optionKey u b) :=
  (OrderedCodes.Alike.refl _ _).lex ((natural_alike hu ha hb).lex
    ((encode_alike _ _).lex (encode_alike _ _)))

/-! A facet. -/

structure Faceted (u : Library) (items : List Item) : Prop where
  digits : DecimalDigits u.toUnicode
  forest : Forest items
  sortable : ∀ item ∈ items, Sortable u item

def levelOf (row : MarkerRow G) : Text × Text := (row.marker.levelId, row.marker.levelName)

omit [DecidableEq G] in
theorem rowAt_marker (item : Item) (depth : ℕ) :
    (rowAt u g item depth).map (·.marker) = item.markers[depth]? := by
  rw [rowAt, Option.map_map]
  exact Option.map_id' ..

/-- Each row is that of the marker of an item at a depth. -/
def RowsAt (u : Library) (g : G) (items : List Item) (depth : ℕ) (rows : List (MarkerRow G)) :
    Prop :=
  ∀ row ∈ rows, ∃ item ∈ items, ∃ marker, item.markers[depth]? = some marker ∧
    row = markerRow u g (parentAt item.markers depth) depth marker

section Counted

variable {depth : ℕ} {rows : List (MarkerRow G)}

omit [DecidableEq G] in
theorem RowsAt.of_items {kept : List Item} (hsub : ∀ item ∈ kept, item ∈ items)
    (hrows : rows = kept.filterMap (rowAt u g · depth)) : RowsAt u g items depth rows := by
  intro row hin
  rw [hrows, List.mem_filterMap] at hin
  obtain ⟨item, hitem, hat⟩ := hin
  obtain ⟨marker, hmarker, heq⟩ := rowAt_eq_some.mp hat
  exact ⟨item, hsub item hitem, marker, hmarker, heq⟩

omit [DecidableEq G] in
theorem RowsAt.unique (hrows : RowsAt u g items depth rows) (hforest : Forest items) :
    ∀ a ∈ rows.map (·.marker), ∀ b ∈ rows.map (·.marker), a.markerId = b.markerId → a = b := by
  intro a ha b hb hid
  obtain ⟨row, hin, rfl⟩ := List.mem_map.mp ha
  obtain ⟨other, hin', rfl⟩ := List.mem_map.mp hb
  obtain ⟨item, hitem, m, hm, rfl⟩ := hrows row hin
  obtain ⟨item', hitem', n, hn, rfl⟩ := hrows other hin'
  have hone := rowAt_same hforest hitem hitem' (rowAt_eq_some (u := u) (g := g).mpr ⟨m, hm, rfl⟩)
    (rowAt_eq_some.mpr ⟨n, hn, rfl⟩) hid
  exact congrArg (·.marker) hone.1

omit [DecidableEq G] in
theorem RowsAt.counted (hrows : RowsAt u g items depth rows) (hforest : Forest items)
    (facetPrefix : Text) :
    (((rows.filter (withFolded u facetPrefix)).foldl countMarker []).map fun known =>
      (known.1.marker, known.2)) = ((rows.map (·.marker)).foldl tally []).filter fun known =>
        casefold u.toUnicode facetPrefix <+: casefold u.toUnicode known.1.displayValue := by
  have hfilter : (rows.filter (withFolded u facetPrefix)).map (·.marker) =
      (rows.map (·.marker)).filter fun marker =>
        casefold u.toUnicode facetPrefix <+: casefold u.toUnicode marker.displayValue := by
    rw [List.filter_map]
    congr 1
    refine List.filter_congr fun row hin => ?_
    obtain ⟨item, _, marker, _, rfl⟩ := hrows row hin
    exact withFolded_iff ..
  rw [countMarker_tally, hfilter, tally_counted]
  refine Groupings.counted_filter _ fun a ha b hb hid => ?_
  rw [hrows.unique hforest a ha b hb hid]

omit [DecidableEq G] in
theorem RowsAt.sorted (hrows : RowsAt u g items depth rows) (h : Faceted u items)
    {groups : List (MarkerRow G × ℕ)} (hgroups : ∀ known ∈ groups, known.1 ∈ rows) :
    (groups.insertionSort fun a b => markerKey a.1 ≤ markerKey b.1).map
        (fun known => (known.1.marker, known.2)) =
      (groups.map fun known => (known.1.marker, known.2)).insertionSort
        fun a b => optionKey u a.1 ≤ optionKey u b.1 := by
  refine List.map_insertionSort
    (r := fun a b : MarkerRow G × ℕ => markerKey a.1 ≤ markerKey b.1)
    (s := fun a b : Marker × ℕ => optionKey u a.1 ≤ optionKey u b.1) _ _ fun a ha b hb => ?_
  obtain ⟨item, hitem, m, hm, heq⟩ := hrows a.1 (hgroups a ha)
  obtain ⟨item', hitem', n, hn, heq'⟩ := hrows b.1 (hgroups b hb)
  rw [heq, heq']
  exact (markerKey_alike h.digits
    ((h.sortable item hitem).markers m (List.mem_of_getElem? hm))
    ((h.sortable item' hitem').markers n (List.mem_of_getElem? hn)) _ _ _ _).le

omit [DecidableEq G] in
theorem tally_level (rows : List (MarkerRow G)) :
    ((rows.map (·.marker)).foldl tally []).head?.map
        (fun known => (known.1.levelId, known.1.levelName)) = rows.head?.map levelOf := by
  have htally := Groupings.counted_head (fun a b : Marker => a.markerId = b.markerId)
    (rows.map (·.marker))
  rw [← tally_counted, List.head?_map] at htally
  have hlevels := congrArg (Option.map fun marker : Marker => (marker.levelId, marker.levelName))
    htally
  rwa [Option.map_map, Option.map_map] at hlevels

omit [DecidableEq G] in
/-- The rows of some items, with a first row of their level, give the facet of these items. -/
theorem facetFrom_eq (h : Faceted u items) {kept : List Item} (hsub : ∀ item ∈ kept, item ∈ items)
    {first : Option (MarkerRow G)} (hrows : rows = kept.filterMap (rowAt u g · depth))
    (hfirst : first.map levelOf = rows.head?.map levelOf) (facetPrefix : Text) :
    facetFrom u first rows facetPrefix = facetOf u kept depth facetPrefix := by
  have hat := RowsAt.of_items hsub hrows
  have hmarkers : rows.map (·.marker) = kept.filterMap fun item => item.markers[depth]? := by
    rw [hrows, List.map_filterMap]
    exact List.filterMap_congr fun item _ => rowAt_marker item depth
  have hknown : ∀ known ∈ (rows.filter (withFolded u facetPrefix)).foldl countMarker [],
      known.1 ∈ rows := by
    intro known hin
    rw [countMarker_counted] at hin
    rcases Groupings.mem_counted _ _ hin with hnil | hin
    · cases hnil
    · exact (List.mem_filter.mp hin).1
  have hhead := tally_level rows
  rw [hmarkers, ← hfirst, ← groupsAt] at hhead
  rw [facetOf, facetFromGroups]
  dsimp only
  rw [groupsAt, ← hmarkers, ← hat.counted h.forest, ← hat.sorted h hknown, hmarkers, ← groupsAt]
  unfold facetFrom
  cases hone : first with
  | none =>
    rw [hone, Option.map_none, Option.map_eq_none_iff] at hhead
    rw [hhead]
    rfl
  | some row =>
    rw [hone, Option.map_some, Option.map_eq_some_iff] at hhead
    obtain ⟨known, hgroup, hlevel⟩ := hhead
    rw [hgroup, Option.map_some, Option.map_some, (Prod.mk.inj hlevel).1, (Prod.mk.inj hlevel).2]

end Counted

/-! The rows of the queries. -/

omit [DecidableEq G] in
theorem itemMarkers_depth (rowId depth : ℕ) (markers : List Marker) :
    (itemMarkerRows g rowId markers).filter (·.depth = depth) =
      (markers[depth]?).toList.map fun marker => ⟨g, rowId, depth, marker.markerId⟩ := by
  rw [itemMarkerRows, List.filter_map]
  have hdepths : (markers.zipIdx.map Prod.snd).Nodup := by
    rw [List.zipIdx_map_snd]
    exact List.nodup_range'
  cases hmarker : markers[depth]? with
  | none =>
    have hnil : markers.zipIdx.filter ((fun row : ItemMarkerRow G => decide (row.depth = depth)) ∘
        fun entry => ⟨g, rowId, entry.2, entry.1.markerId⟩) = [] := by
      refine List.filter_eq_nil_iff.mpr fun entry hentry heq => ?_
      have hget := List.mem_zipIdx_iff_getElem?.mp hentry
      have hdepth : entry.2 = depth := of_decide_eq_true heq
      rw [hdepth, hmarker] at hget
      cases hget
    exact congrArg (List.map _) hnil
  | some marker =>
    have hin : (marker, depth) ∈ markers.zipIdx := List.mem_zipIdx_iff_getElem?.mpr hmarker
    exact congrArg (List.map _) (Groupings.filter_key hdepths hin)

theorem joinMarkers_flatMap {α : Type} (l : List α) (f : α → List (ItemMarkerRow G)) :
    joinMarkers t (l.flatMap f) = l.flatMap fun a => joinMarkers t (f a) :=
  List.flatMap_assoc

theorem joinMarkers_row (hfilled : Filled u t g items) (hforest : Forest items) {item : Item}
    (hitem : item ∈ items) (rowId depth : ℕ) :
    joinMarkers t ((item.markers[depth]?).toList.map fun marker =>
      ⟨g, rowId, depth, marker.markerId⟩) = (rowAt u g item depth).toList := by
  cases hmarker : item.markers[depth]? with
  | none =>
    rw [rowAt, hmarker]
    rfl
  | some marker =>
    have hrow : rowAt u g item depth =
        some (markerRow u g (parentAt item.markers depth) depth marker) := by
      rw [rowAt, hmarker, Option.map_some]
    have hone := markers_filter hfilled hforest hitem hrow
    rw [hrow, Option.toList_some, Option.toList_some, List.map_singleton, joinMarkers,
      List.flatMap_singleton]
    exact hone

theorem filled_item (hfilled : Filled u t g items) {row : ItemRow G}
    (hrow : row ∈ (rowsOf t g).items) : row.item ∈ items := by
  have hin : (row.item, row.itemNo) ∈ items.zipIdx := by
    rw [← hfilled.items]
    exact List.mem_map_of_mem hrow
  exact List.mem_of_getElem? (List.mem_zipIdx_iff_getElem?.mp hin)

theorem filled_items (hfilled : Filled u t g items) :
    (rowsOf t g).items.map (·.item) = items := by
  have hitems := congrArg (List.map Prod.fst) hfilled.items
  rw [List.map_map, List.zipIdx_map_fst] at hitems
  exact hitems

theorem rows_items (hfilled : Filled u t g items) {V : Type} (f : Item → Option V) :
    ((rowsOf t g).items.filterMap fun row => f row.item) = items.filterMap f := by
  have hmap := List.filterMap_map (f := fun row : ItemRow G => row.item) (g := f)
    (l := (rowsOf t g).items)
  rw [filled_items hfilled] at hmap
  exact hmap.symm

theorem joinMarkers_all (hfilled : Filled u t g items) (hforest : Forest items) (depth : ℕ) :
    joinMarkers t (t.itemMarkers.filter fun row => row.generationId = g ∧ row.depth = depth) =
      items.filterMap (rowAt u g · depth) := by
  have hfilter : t.itemMarkers.filter (fun row => row.generationId = g ∧ row.depth = depth) =
      (rowsOf t g).items.flatMap fun row => (row.item.markers[depth]?).toList.map fun marker =>
        ⟨g, row.rowId, depth, marker.markerId⟩ := by
    have hsplit : t.itemMarkers.filter (fun row => row.generationId = g ∧ row.depth = depth) =
        (rowsOf t g).itemMarkers.filter (·.depth = depth) := by
      rw [rowsOf, List.filter_filter]
      refine List.filter_congr fun row _ => ?_
      rw [Bool.and_comm, Bool.decide_and]
    rw [hsplit, hfilled.itemMarkers, List.filter_flatMap]
    exact List.flatMap_congr fun row _ => itemMarkers_depth ..
  rw [hfilter, joinMarkers_flatMap, ← rows_items hfilled, List.filterMap_eq_flatMap_toList]
  exact List.flatMap_congr fun row hrow =>
    joinMarkers_row hfilled hforest (filled_item hfilled hrow) _ _

theorem joinMarkers_one (ht : Consistent u t) (hfilled : Filled u t g items)
    (hforest : Forest items) {row : ItemRow G} (hrow : row ∈ (rowsOf t g).items) (depth : ℕ) :
    joinMarkers t (t.itemMarkers.filter fun known => known.generationId = g ∧
      known.rowId = row.rowId ∧ known.depth = depth) = (rowAt u g row.item depth).toList := by
  obtain ⟨hin, hg⟩ := mem_rows.mp hrow
  have hrowId : t.itemMarkers.filter (fun known => known.rowId = row.rowId) =
      itemMarkerRows g row.rowId row.item.markers := by
    have hkept := @filter_itemMarkerRows _ t.items (fun other => decide (other.rowId = row.rowId))
      (fun known => decide (known.rowId = row.rowId)) fun other _ m hm => by
        rw [(itemMarkerRows_generation m hm).2]
    rw [ht.itemMarkers, hkept, Groupings.filter_key (CandidateRows.rowIds_nodup ht) hin,
      List.flatMap_singleton, hg]
  have hfilter : t.itemMarkers.filter (fun known => known.generationId = g ∧
      known.rowId = row.rowId ∧ known.depth = depth) =
        (itemMarkerRows g row.rowId row.item.markers).filter (·.depth = depth) := by
    have hgeneration : (itemMarkerRows g row.rowId row.item.markers).filter (·.depth = depth) =
        (itemMarkerRows g row.rowId row.item.markers).filter
          fun known => known.generationId = g ∧ known.depth = depth := by
      refine List.filter_congr fun known hknown => ?_
      rw [(itemMarkerRows_generation known hknown).1]
      simp
    rw [hgeneration, ← hrowId, List.filter_filter]
    refine List.filter_congr fun known _ => ?_
    rw [← Bool.decide_and, decide_eq_decide]
    tauto
  rw [hfilter, itemMarkers_depth]
  exact joinMarkers_row hfilled hforest (filled_item hfilled hrow) _ _

/-! The facets of a request. -/

/-- `_facet_table` gives the facet of the candidates. -/
theorem facetTable_eq (ht : Consistent u t) (hfilled : Filled u t g items)
    (h : Faceted u items) {best : Item → Option ℕ} {table : RowScores}
    (hscores : Scores t g best table) (selected : List Text) (facetPrefix : Text) :
    facetTable t g u table selected facetPrefix =
      facetOf u (items.filter fun item => (best item).isSome) selected.length facetPrefix := by
  have hrows : joinMarkers t (table.toList.flatMap fun entry => t.itemMarkers.filter fun row =>
      row.generationId = g ∧ row.rowId = entry.1 ∧ row.depth = selected.length) =
        (items.filter fun item => (best item).isSome).filterMap
          (rowAt u g · selected.length) := by
    have hkept : (items.filter fun item => (best item).isSome).filterMap
        (rowAt u g · selected.length) = items.filterMap fun item =>
          (best item).bind fun _ => rowAt u g item selected.length := by
      rw [← List.filterMap_eq_filter, List.filterMap_filterMap]
      refine List.filterMap_congr fun item _ => ?_
      cases hbest : best item <;> simp [Option.guard, hbest]
    rw [hkept, ← rows_items hfilled, joinMarkers_flatMap, hscores.toList_eq ht,
      List.filterMap_eq_flatMap_toList, List.filterMap_eq_flatMap_toList, List.flatMap_assoc]
    refine List.flatMap_congr fun row hrow => ?_
    cases hbest : best row.item with
    | none => rfl
    | some score =>
      rw [Option.map_some, Option.toList_some, List.flatMap_singleton, Option.bind_some]
      exact joinMarkers_one ht hfilled h.forest hrow _
  exact facetFrom_eq h (fun item hitem => (List.mem_filter.mp hitem).1) hrows rfl facetPrefix

omit [DecidableEq G] in
theorem mem_firstMarker {rows : List (MarkerRow G)} :
    (∀ row, firstMarker rows = some row → row ∈ rows) ∧ (firstMarker rows = none ↔ rows = []) := by
  have hperm := TopRows.sortBy_perm .asc (fun row : MarkerRow G => encode row.marker.markerId) rows
  unfold firstMarker
  constructor
  · intro row hrow
    exact hperm.mem_iff.mp (List.mem_of_head? hrow)
  · rw [List.head?_eq_none_iff]
    constructor
    · intro hnil
      rw [hnil] at hperm
      exact List.nil_perm.mp hperm
    · rintro rfl
      rfl

section Idle

variable (hfilled : Filled u t g items) (h : Faceted u items) {selected : List Text}
  (hchain : selected = [] ∨ ∃ item ∈ items, selected <+: chainOf item)

include h hchain

omit [DecidableEq G] in
theorem below_iff {item : Item} {row : MarkerRow G} (hitem : item ∈ items)
    (hrow : rowAt u g item selected.length = some row) :
    row.parentMarkerId = selected.getLast? ↔ selected <+: chainOf item := by
  obtain ⟨marker, _, rfl⟩ := rowAt_eq_some.mp hrow
  exact ⟨parent_chain h.forest hchain hitem, parentAt_chain⟩

omit [DecidableEq G] in
theorem rows_below : (items.filterMap (rowAt u g · selected.length)).filter
    (fun row => row.parentMarkerId = selected.getLast?) =
      (items.filter fun item => selected <+: chainOf item).filterMap
        (rowAt u g · selected.length) := by
  rw [List.filter_filterMap, ← List.filterMap_eq_filter, List.filterMap_filterMap]
  refine List.filterMap_congr fun item hitem => ?_
  cases hrow : rowAt u g item selected.length with
  | none =>
    rw [Option.filter_none]
    by_cases hbegins : selected <+: chainOf item
    · simp [Option.guard, hbegins, hrow]
    · simp [Option.guard, hbegins]
  | some row =>
    have hiff := below_iff h hchain hitem hrow
    by_cases hbegins : selected <+: chainOf item
    · simp [Option.guard, hrow, hbegins, hiff.mpr hbegins]
    · simp [Option.guard, hbegins, mt hiff.mp hbegins]

include hfilled

theorem mem_below {row : MarkerRow G} : row ∈ t.markers.filter (fun row => row.generationId = g ∧
    row.depth = selected.length ∧ row.parentMarkerId = selected.getLast?) ↔
      row ∈ (items.filter fun item => selected <+: chainOf item).filterMap
        (rowAt u g · selected.length) := by
  have hmem : row ∈ t.markers ∧ row.generationId = g ↔
      ∃ item ∈ items, ∃ i, rowAt u g item i = some row := by
    rw [← (markersOf_spec (u := u) (g := g) h.forest).2, ← hfilled.markers]
    simp [rowsOf]
  rw [List.mem_filter, decide_eq_true_eq, List.mem_filterMap]
  constructor
  · rintro ⟨hin, hg, hdepth, hparent⟩
    obtain ⟨item, hitem, i, hrow⟩ := hmem.mp ⟨hin, hg⟩
    have hi : i = selected.length := by
      obtain ⟨_, _, rfl⟩ := rowAt_eq_some.mp hrow
      exact hdepth
    subst hi
    have hbegins := (below_iff h hchain hitem hrow).mp hparent
    exact ⟨item, List.mem_filter.mpr ⟨hitem, decide_eq_true hbegins⟩, hrow⟩
  · rintro ⟨item, hkept, hrow⟩
    obtain ⟨hitem, hbegins⟩ := List.mem_filter.mp hkept
    obtain ⟨hin, hg⟩ := hmem.mpr ⟨item, hitem, _, hrow⟩
    refine ⟨hin, hg, ?_, (below_iff h hchain hitem hrow).mpr (of_decide_eq_true hbegins)⟩
    obtain ⟨_, _, rfl⟩ := rowAt_eq_some.mp hrow
    rfl

omit [DecidableEq G] hchain hfilled in
theorem levels_below {a b : MarkerRow G}
    (ha : a ∈ (items.filter fun item => selected <+: chainOf item).filterMap
      (rowAt u g · selected.length))
    (hb : b ∈ (items.filter fun item => selected <+: chainOf item).filterMap
      (rowAt u g · selected.length)) : levelOf a = levelOf b := by
  obtain ⟨item, hkept, hrow⟩ := List.mem_filterMap.mp ha
  obtain ⟨item', hkept', hrow'⟩ := List.mem_filterMap.mp hb
  obtain ⟨hitem, hbegins⟩ := List.mem_filter.mp hkept
  obtain ⟨hitem', hbegins'⟩ := List.mem_filter.mp hkept'
  obtain ⟨m, hm, rfl⟩ := rowAt_eq_some.mp hrow
  obtain ⟨n, hn, rfl⟩ := rowAt_eq_some.mp hrow'
  have htake : (chainOf item).take selected.length = (chainOf item').take selected.length := by
    rw [← List.prefix_iff_eq_take.mp (of_decide_eq_true hbegins),
      ← List.prefix_iff_eq_take.mp (of_decide_eq_true hbegins')]
  obtain ⟨hid, hname⟩ := h.forest.levels hitem hitem' hm hn htake
  exact Prod.ext hid hname

theorem first_below {stored : List (MarkerRow G)}
    (hstored : ∀ row, row ∈ stored ↔ row ∈ t.markers.filter fun row => row.generationId = g ∧
      row.depth = selected.length ∧ row.parentMarkerId = selected.getLast?) :
    (firstMarker stored).map levelOf = ((items.filter fun item =>
      selected <+: chainOf item).filterMap (rowAt u g · selected.length)).head?.map levelOf := by
  have hall : ∀ row, row ∈ stored ↔ row ∈ (items.filter fun item =>
      selected <+: chainOf item).filterMap (rowAt u g · selected.length) := fun row =>
    (hstored row).trans (mem_below hfilled h hchain)
  cases hhead : ((items.filter fun item => selected <+: chainOf item).filterMap
      (rowAt u g · selected.length)).head? with
  | none =>
    rw [List.head?_eq_none_iff] at hhead
    have hempty : stored = [] := by
      refine List.eq_nil_iff_forall_not_mem.mpr fun row hrow => ?_
      rw [hall, hhead] at hrow
      cases hrow
    rw [mem_firstMarker.2.mpr hempty, Option.map_none]
  | some row =>
    have hin : row ∈ stored := (hall row).mpr (List.mem_of_head? hhead)
    cases hfound : firstMarker stored with
    | none =>
      rw [mem_firstMarker.2.mp hfound] at hin
      cases hin
    | some first =>
      have hfirst := (hall first).mp (mem_firstMarker.1 first hfound)
      rw [Option.map_some, Option.map_some, levels_below h hfirst ((hall row).mp hin)]

theorem idleFacet_eq (facetPrefix : Text) : idleFacet t g u selected facetPrefix =
    facetOf u (items.filter fun item => selected <+: chainOf item) selected.length
      facetPrefix := by
  have hsub : ∀ item ∈ items.filter (fun item => selected <+: chainOf item), item ∈ items :=
    fun item hitem => (List.mem_filter.mp hitem).1
  have hrows := rows_below (g := g) h hchain
  have hfirst := fun stored => @first_below _ _ _ _ _ _ hfilled h _ hchain stored
  unfold idleFacet
  cases hlast : selected.getLast? with
  | none =>
    have hnil : selected = [] := List.getLast?_eq_none_iff.mp hlast
    subst hnil
    have hall : items.filterMap (rowAt u g · 0) =
        (items.filter fun item => [] <+: chainOf item).filterMap (rowAt u g · 0) := by simp
    refine facetFrom_eq h hsub ((joinMarkers_all hfilled h.forest 0).trans hall) ?_ facetPrefix
    rw [joinMarkers_all hfilled h.forest 0, hall]
    exact hfirst _ fun row => Iff.rfl
  | some parent =>
    rw [hlast] at hrows
    refine facetFrom_eq (g := g) h hsub ?_ ?_ facetPrefix
    · rw [joinMarkers_all hfilled h.forest]
      exact hrows
    · rw [joinMarkers_all hfilled h.forest, hrows]
      refine hfirst _ fun row => ?_
      rw [List.mem_filter, List.mem_filter, decide_eq_true_eq, decide_eq_true_eq, hlast]
      tauto

end Idle

end StoredFacets
