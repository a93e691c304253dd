import WiseWay.Fallible
import WiseWay.SearchTables

/-! # Generations of the search tables

What keeps the tables of `sqlite_search.py` in step with each other, and which rows each of its
operations leaves alone. -/
namespace SearchGenerations

open Records SearchText Search SearchTables
open Fallible (bind_eq_ok)

variable {u : Library} {G : Type} [DecidableEq G]

/-- The tables name only known generations, and the markers of items and the index follow the
items. -/
structure Consistent (u : Library) (t : Tables G) : Prop where
  unique : (t.generations.map (·.generationId)).Nodup
  items_known : ∀ row ∈ t.items, ∃ g ∈ t.generations, g.generationId = row.generationId
  markers_known : ∀ row ∈ t.markers, ∃ g ∈ t.generations, g.generationId = row.generationId
  rowIds : t.items.Pairwise fun a b => a.rowId < b.rowId
  built : ∀ row ∈ t.items, ∃ key, instantSortKey u.toUnicode row.item.modifiedAt = .ok key ∧
    row = itemRow u row.generationId row.rowId row.itemNo row.item key
  itemMarkers : t.itemMarkers =
    t.items.flatMap fun row => itemMarkerRows row.generationId row.rowId row.item.markers
  fts : t.fts = t.items.map (ftsRow u)

structure Rows (G : Type) where
  items : List (ItemRow G)
  itemMarkers : List (ItemMarkerRow G)
  markers : List (MarkerRow G)
  fts : List (FtsRow G)

def rowsOf (t : Tables G) (g : G) : Rows G where
  items := t.items.filter (·.generationId = g)
  itemMarkers := t.itemMarkers.filter (·.generationId = g)
  markers := t.markers.filter (·.generationId = g)
  fts := t.fts.filter (·.generation = g)

def markersOf (u : Library) (g : G) (items : List Item) : List (MarkerRow G) :=
  (items.flatMap fun item => markerRows u g none 0 item.markers).foldl insertMarker []

structure Filled (u : Library) (t : Tables G) (g : G) (contents : List Item) : Prop where
  items : (rowsOf t g).items.map (fun row => (row.item, row.itemNo)) = contents.zipIdx
  built : ∀ row ∈ (rowsOf t g).items, ∃ key,
    instantSortKey u.toUnicode row.item.modifiedAt = .ok key ∧
      row = itemRow u g row.rowId row.itemNo row.item key
  itemMarkers : (rowsOf t g).itemMarkers =
    (rowsOf t g).items.flatMap fun row => itemMarkerRows g row.rowId row.item.markers
  markers : (rowsOf t g).markers = markersOf u g contents
  fts : (rowsOf t g).fts = (rowsOf t g).items.map (ftsRow u)

theorem Filled.same {t t' : Tables G} {g : G} {items : List Item} (h : Filled u t g items)
    (hrows : rowsOf t' g = rowsOf t g) : Filled u t' g items := by
  constructor
  · rw [hrows]
    exact h.items
  · rw [hrows]
    exact h.built
  · rw [hrows]
    exact h.itemMarkers
  · rw [hrows]
    exact h.markers
  · rw [hrows]
    exact h.fts

/-! Rows of one generation in consistent tables. -/

omit [DecidableEq G] in
theorem itemMarkerRows_generation {g : G} {rowId : ℕ} {markers : List Marker} :
    ∀ row ∈ itemMarkerRows g rowId markers, row.generationId = g ∧ row.rowId = rowId := by
  intro row hrow
  obtain ⟨_, _, rfl⟩ := List.mem_map.mp hrow
  exact ⟨rfl, rfl⟩

omit [DecidableEq G] in
theorem filter_itemMarkerRows {items : List (ItemRow G)} {p : ItemRow G → Bool}
    {q : ItemMarkerRow G → Bool}
    (h : ∀ row ∈ items, ∀ m ∈ itemMarkerRows row.generationId row.rowId row.item.markers,
      q m = p row) :
    (items.flatMap fun row => itemMarkerRows row.generationId row.rowId row.item.markers).filter q =
      (items.filter p).flatMap fun row =>
        itemMarkerRows row.generationId row.rowId row.item.markers := by
  induction items with
  | nil => rfl
  | cons row items ih =>
    rw [List.flatMap_cons, List.filter_append,
      ih fun other hother => h other (List.mem_cons_of_mem _ hother)]
    have hrow := h row (List.mem_cons_self ..)
    by_cases hp : p row = true
    · rw [List.filter_cons_of_pos hp, List.flatMap_cons]
      rw [List.filter_eq_self.mpr fun m hm => (hrow m hm).trans hp]
    · rw [List.filter_cons_of_neg hp]
      rw [List.filter_eq_nil_iff.mpr fun m hm => by rw [hrow m hm]; exact hp, List.nil_append]

theorem Consistent.itemMarkersOf {t : Tables G} (h : Consistent u t) (g : G) :
    (rowsOf t g).itemMarkers =
      (rowsOf t g).items.flatMap fun row => itemMarkerRows g row.rowId row.item.markers := by
  have hfilter : (t.items.flatMap fun row =>
      itemMarkerRows row.generationId row.rowId row.item.markers).filter (·.generationId = g) =
        (t.items.filter (·.generationId = g)).flatMap fun row =>
          itemMarkerRows row.generationId row.rowId row.item.markers :=
    filter_itemMarkerRows fun row _ m hm => by rw [(itemMarkerRows_generation m hm).1]
  show t.itemMarkers.filter (·.generationId = g) = _
  rw [h.itemMarkers, hfilter]
  refine List.flatMap_congr fun row hrow => ?_
  have hg : row.generationId = g := of_decide_eq_true (List.mem_filter.mp hrow).2
  rw [hg]

theorem Consistent.ftsOf {t : Tables G} (h : Consistent u t) (g : G) :
    (rowsOf t g).fts = (rowsOf t g).items.map (ftsRow u) := by
  show t.fts.filter (·.generation = g) = _
  rw [h.fts, List.filter_map]
  rfl

theorem Consistent.builtOf {t : Tables G} (h : Consistent u t) (g : G) :
    ∀ row ∈ (rowsOf t g).items, ∃ key, instantSortKey u.toUnicode row.item.modifiedAt = .ok key ∧
      row = itemRow u g row.rowId row.itemNo row.item key := by
  intro row hrow
  obtain ⟨hmem, hg⟩ := List.mem_filter.mp hrow
  obtain ⟨key, hkey, hbuilt⟩ := h.built row hmem
  rw [of_decide_eq_true hg] at hbuilt
  exact ⟨key, hkey, hbuilt⟩

theorem Consistent.filled {t : Tables G} (h : Consistent u t) {g : G} {items : List Item}
    (hitems : (rowsOf t g).items.map (fun row => (row.item, row.itemNo)) = items.zipIdx)
    (hmarkers : (rowsOf t g).markers = markersOf u g items) : Filled u t g items :=
  ⟨hitems, h.builtOf g, h.itemMarkersOf g, hmarkers, h.ftsOf g⟩

omit [DecidableEq G] in
theorem Consistent.rowId_injective {t : Tables G} (h : Consistent u t) {a b : ItemRow G}
    (ha : a ∈ t.items) (hb : b ∈ t.items) (heq : a.rowId = b.rowId) : a = b := by
  have hnodup : (t.items.map (·.rowId)).Nodup :=
    List.pairwise_map.mpr (h.rowIds.imp fun hlt => hlt.ne)
  exact List.inj_on_of_nodup_map hnodup ha hb heq

theorem mem_generations {t : Tables G} (h : (t.generations.map (·.generationId)).Nodup) {g : G}
    {row : GenerationRow G} :
    generationOf t g = some row ↔ row ∈ t.generations ∧ row.generationId = g := by
  constructor
  · intro hfound
    exact ⟨List.mem_of_find?_eq_some hfound, by simpa using List.find?_some hfound⟩
  · rintro ⟨hmem, rfl⟩
    cases hfound : generationOf t row.generationId with
    | none =>
      have := List.find?_eq_none.mp hfound row hmem
      simp at this
    | some other =>
      have hother : other.generationId = row.generationId := by
        simpa using List.find?_some hfound
      rw [List.inj_on_of_nodup_map h (List.mem_of_find?_eq_some hfound) hmem hother]

theorem generationOf_none {t : Tables G} {g : G} :
    generationOf t g = none ↔ ∀ row ∈ t.generations, row.generationId ≠ g := by
  unfold generationOf
  rw [List.find?_eq_none]
  simp

/-! Creation. -/

theorem createGeneration_ok {t t' : Tables G} {rootId : Text} {g : G}
    (h : createGeneration t rootId g = .ok t') : generationOf t g = none ∧
      t' = { t with generations := t.generations ++ [⟨g, rootId, .building⟩] } := by
  unfold createGeneration at h
  split at h
  · cases h
  · rename_i hnone
    cases h
    exact ⟨Option.not_isSome_iff_eq_none.mp hnone, rfl⟩

theorem Consistent.create {t t' : Tables G} {rootId : Text} {g : G} (ht : Consistent u t)
    (h : createGeneration t rootId g = .ok t') :
    Consistent u t' ∧ Filled u t' g [] ∧ ∀ other, rowsOf t' other = rowsOf t other := by
  obtain ⟨hnone, rfl⟩ := createGeneration_ok h
  have hfresh := generationOf_none.mp hnone
  have hconsistent : Consistent u
      { t with generations := t.generations ++ [⟨g, rootId, .building⟩] } := by
    refine ⟨?_, ?_, ?_, ht.rowIds, ht.built, ht.itemMarkers, ht.fts⟩
    · rw [List.map_append, List.map_singleton, List.nodup_append]
      refine ⟨ht.unique, List.nodup_singleton _, ?_⟩
      intro a ha b hb heq
      obtain ⟨row, hrow, rfl⟩ := List.mem_map.mp ha
      rw [List.mem_singleton] at hb
      exact hfresh row hrow (heq.trans hb)
    · intro row hrow
      obtain ⟨known, hknown, heq⟩ := ht.items_known row hrow
      exact ⟨known, List.mem_append_left _ hknown, heq⟩
    · intro row hrow
      obtain ⟨known, hknown, heq⟩ := ht.markers_known row hrow
      exact ⟨known, List.mem_append_left _ hknown, heq⟩
  refine ⟨hconsistent, hconsistent.filled ?_ ?_, fun _ => rfl⟩
  · have hitems : (rowsOf t g).items = [] := by
      refine List.filter_eq_nil_iff.mpr fun row hrow => ?_
      obtain ⟨known, hknown, heq⟩ := ht.items_known row hrow
      simpa [← heq] using hfresh known hknown
    show (rowsOf t g).items.map _ = _
    rw [hitems]
    rfl
  · refine List.filter_eq_nil_iff.mpr fun row hrow => ?_
    obtain ⟨known, hknown, heq⟩ := ht.markers_known row hrow
    simpa [← heq] using hfresh known hknown

/-! Filling. -/

theorem addItem_ok {t t' : Tables G} {g : G} {itemNo : ℕ} {item : Item}
    (h : addItem u g t itemNo item = .ok t') : ∃ key,
      instantSortKey u.toUnicode item.modifiedAt = .ok key ∧
      (∀ row ∈ t.items, row.generationId = g → row.item.itemId ≠ item.itemId) ∧
      t' = { t with
        items := t.items ++ [itemRow u g (nextRowId t) itemNo item key]
        itemMarkers := t.itemMarkers ++ itemMarkerRows g (nextRowId t) item.markers
        markers := (markerRows u g none 0 item.markers).foldl insertMarker t.markers
        fts := t.fts ++ [ftsRow u (itemRow u g (nextRowId t) itemNo item key)] } := by
  unfold addItem at h
  split at h
  · cases h
  · rename_i key hkey
    split at h
    · cases h
    · rename_i hfresh
      cases h
      refine ⟨key, hkey, fun row hrow hg heq => hfresh ?_, rfl⟩
      exact List.any_eq_true.mpr ⟨row, hrow, decide_eq_true ⟨hg, .inl heq⟩⟩

omit [DecidableEq G] in
theorem lt_nextRowId {t : Tables G} {row : ItemRow G} (h : row ∈ t.items) :
    row.rowId < nextRowId t := by
  have hmem : row.rowId ∈ t.items.map (·.rowId) := List.mem_map_of_mem h
  unfold nextRowId
  cases hmax : (t.items.map (·.rowId)).max? with
  | none =>
    rw [List.max?_eq_none_iff] at hmax
    rw [hmax] at hmem
    cases hmem
  | some largest =>
    have := (List.max?_eq_some_iff.mp hmax).2 _ hmem
    rw [Option.getD_some]
    omega

omit [DecidableEq G] in
theorem markerRows_generation {g : G} : ∀ {parent : Option Text} {depth : ℕ}
    {markers : List Marker}, ∀ row ∈ markerRows u g parent depth markers, row.generationId = g
  | _, _, [], _, h => by cases h
  | parent, depth, marker :: markers, row, h => by
    rcases List.mem_cons.mp h with rfl | h
    · rfl
    · exact markerRows_generation row h

theorem mem_insertMarker {rows : List (MarkerRow G)} {row other : MarkerRow G}
    (h : other ∈ insertMarker rows row) : other ∈ rows ∨ other = row := by
  unfold insertMarker at h
  split at h
  · exact .inl h
  · exact (List.mem_append.mp h).imp id List.mem_singleton.mp

theorem mem_insertMarkers {new : List (MarkerRow G)} : ∀ {rows : List (MarkerRow G)}
    {other : MarkerRow G}, other ∈ new.foldl insertMarker rows → other ∈ rows ∨ other ∈ new := by
  induction new with
  | nil => exact fun h => .inl h
  | cons row new ih =>
    intro rows other h
    rcases ih h with h | h
    · rcases mem_insertMarker h with h | rfl
      · exact .inl h
      · exact .inr (List.mem_cons_self ..)
    · exact .inr (List.mem_cons_of_mem _ h)

theorem filter_insertMarker (rows : List (MarkerRow G)) (row : MarkerRow G) (g : G) :
    (insertMarker rows row).filter (·.generationId = g) =
      if row.generationId = g then insertMarker (rows.filter (·.generationId = g)) row
      else rows.filter (·.generationId = g) := by
  unfold insertMarker
  by_cases hg : row.generationId = g
  · subst hg
    rw [if_pos rfl, List.any_filter]
    have hany : (rows.any fun known => decide (known.generationId = row.generationId) &&
        decide (known.generationId = row.generationId ∧
          known.marker.markerId = row.marker.markerId)) =
        rows.any fun known => decide (known.generationId = row.generationId ∧
          known.marker.markerId = row.marker.markerId) := by
      congr 1
      funext known
      by_cases h : known.generationId = row.generationId <;> simp [h]
    rw [hany]
    split
    · rfl
    · rw [List.filter_append, List.filter_singleton]
      simp
  · rw [if_neg hg]
    split
    · rfl
    · rw [List.filter_append, List.filter_singleton]
      simp [hg]

theorem filter_insertMarkers {g : G} : ∀ {new rows : List (MarkerRow G)},
    (∀ row ∈ new, row.generationId = g) →
      (new.foldl insertMarker rows).filter (·.generationId = g) =
        new.foldl insertMarker (rows.filter (·.generationId = g))
  | [], _, _ => rfl
  | row :: new, rows, h => by
    rw [List.foldl_cons, filter_insertMarkers fun other hother => h other (.tail _ hother),
      filter_insertMarker, if_pos (h row (.head _)), List.foldl_cons]

theorem filter_insertMarkers_other {g h : G} (hne : g ≠ h) : ∀ {new rows : List (MarkerRow G)},
    (∀ row ∈ new, row.generationId = g) →
      (new.foldl insertMarker rows).filter (·.generationId = h) =
        rows.filter (·.generationId = h)
  | [], _, _ => rfl
  | row :: new, rows, hnew => by
    rw [List.foldl_cons,
      filter_insertMarkers_other hne fun other hother => hnew other (.tail _ hother),
      filter_insertMarker, if_neg (by rw [hnew row (.head _)]; exact hne)]

theorem Consistent.addItem {t t' : Tables G} {g : G} {itemNo : ℕ} {item : Item}
    (ht : Consistent u t) (hknown : ∃ row ∈ t.generations, row.generationId = g)
    (h : addItem u g t itemNo item = .ok t') : Consistent u t' := by
  obtain ⟨key, hkey, _, rfl⟩ := addItem_ok h
  refine ⟨ht.unique, ?_, ?_, ?_, ?_, ?_, ?_⟩
  · intro row hrow
    rcases List.mem_append.mp hrow with hrow | hrow
    · exact ht.items_known row hrow
    · rw [List.mem_singleton.mp hrow]
      exact hknown
  · intro row hrow
    rcases mem_insertMarkers hrow with hrow | hrow
    · exact ht.markers_known row hrow
    · rw [markerRows_generation row hrow]
      exact hknown
  · refine List.pairwise_append.mpr ⟨ht.rowIds, List.pairwise_singleton .., ?_⟩
    intro a ha b hb
    rw [List.mem_singleton.mp hb]
    exact lt_nextRowId ha
  · intro row hrow
    rcases List.mem_append.mp hrow with hrow | hrow
    · exact ht.built row hrow
    · rw [List.mem_singleton.mp hrow]
      exact ⟨key, hkey, rfl⟩
  · show t.itemMarkers ++ _ = List.flatMap _ (t.items ++ _)
    rw [ht.itemMarkers, List.flatMap_append, List.flatMap_singleton]
    rfl
  · show t.fts ++ _ = List.map _ (t.items ++ _)
    rw [ht.fts, List.map_append, List.map_singleton]

theorem addItem_other {t t' : Tables G} {g other : G} {itemNo : ℕ} {item : Item}
    (h : addItem u g t itemNo item = .ok t') (hne : other ≠ g) :
    rowsOf t' other = rowsOf t other := by
  obtain ⟨key, _, _, rfl⟩ := addItem_ok h
  unfold rowsOf
  congr 1
  · rw [List.filter_append, List.filter_singleton]
    simp [itemRow, hne.symm]
  · have hnil : (itemMarkerRows g (nextRowId t) item.markers).filter (·.generationId = other) =
        [] := by
      refine List.filter_eq_nil_iff.mpr fun row hrow => ?_
      rw [(itemMarkerRows_generation row hrow).1]
      simpa using hne.symm
    rw [List.filter_append, hnil, List.append_nil]
  · exact filter_insertMarkers_other hne.symm markerRows_generation
  · rw [List.filter_append, List.filter_singleton]
    simp [ftsRow, itemRow, hne.symm]

theorem addItem_filled {t t' : Tables G} {g : G} {item : Item} {items : List Item}
    (ht : Consistent u t) (hknown : ∃ row ∈ t.generations, row.generationId = g)
    (hfilled : Filled u t g items) (h : addItem u g t items.length item = .ok t') :
    Filled u t' g (items ++ [item]) := by
  refine (ht.addItem hknown h).filled ?_ ?_
  · obtain ⟨key, _, _, rfl⟩ := addItem_ok h
    show ((t.items ++ [_]).filter _).map _ = _
    rw [List.filter_append, List.map_append, show (t.items.filter _).map _ = _ from hfilled.items,
      List.zipIdx_append]
    simp [itemRow]
  · obtain ⟨key, _, _, rfl⟩ := addItem_ok h
    show ((markerRows u g none 0 item.markers).foldl insertMarker t.markers).filter _ = _
    rw [filter_insertMarkers markerRows_generation,
      show t.markers.filter _ = _ from hfilled.markers, markersOf, markersOf,
      List.flatMap_append, List.flatMap_singleton, List.foldl_append]

theorem addItem_generations {t t' : Tables G} {g : G} {itemNo : ℕ} {item : Item}
    (h : addItem u g t itemNo item = .ok t') : t'.generations = t.generations := by
  obtain ⟨_, _, _, rfl⟩ := addItem_ok h
  rfl

theorem Filled.nextNo {t : Tables G} {g : G} {items : List Item} (h : Filled u t g items) :
    nextNo t g = items.length := by
  have hnumbers : (rowsOf t g).items.map (·.itemNo + 1) = List.range' 1 items.length := by
    have := congrArg (List.map fun row : Item × ℕ => row.2 + 1) h.items
    rw [List.map_map] at this
    rw [show (fun row : ItemRow G => row.itemNo + 1) = (fun row : Item × ℕ => row.2 + 1) ∘
      fun row => (row.item, row.itemNo) from rfl, this]
    rw [show (fun row : Item × ℕ => row.2 + 1) = (· + 1) ∘ Prod.snd from rfl, ← List.map_map,
      List.zipIdx_map_snd, List.range'_eq_map_range, List.map_map, List.range'_eq_map_range]
    refine List.map_congr_left fun i _ => ?_
    simp [Nat.add_comm]
  unfold SearchTables.nextNo
  rw [show t.items.filter (·.generationId = g) = (rowsOf t g).items from rfl, hnumbers]
  cases hlength : items.length with
  | zero => rfl
  | succ n =>
    have hmax : (List.range' 1 (n + 1)).max? = some (n + 1) := by
      rw [List.max?_eq_some_iff]
      refine ⟨by rw [List.mem_range']; exact ⟨n, by omega, by omega⟩, fun i hi => ?_⟩
      obtain ⟨j, hj, rfl⟩ := List.mem_range'.mp hi
      omega
    rw [hmax]
    rfl

structure Added (u : Library) (t t' : Tables G) (g : G) (contents : List Item) : Prop where
  consistent : Consistent u t'
  filled : Filled u t' g contents
  generations : t'.generations = t.generations
  others : ∀ other, other ≠ g → rowsOf t' other = rowsOf t other

theorem addItem_added {t t' : Tables G} {g : G} {item : Item} {items : List Item}
    (ht : Consistent u t) (hknown : ∃ row ∈ t.generations, row.generationId = g)
    (hfilled : Filled u t g items) (h : addItem u g t items.length item = .ok t') :
    Added u t t' g (items ++ [item]) :=
  ⟨ht.addItem hknown h, addItem_filled ht hknown hfilled h, addItem_generations h,
    fun _ hne => addItem_other h hne⟩

theorem addAll_added {g : G} : ∀ {rows : List Item} {t t' : Tables G} {items : List Item},
    Consistent u t → (∃ row ∈ t.generations, row.generationId = g) → Filled u t g items →
      (rows.zipIdx items.length).foldlM
        (fun t (item, itemNo) => addItem u g t itemNo item) t = .ok t' →
        Added u t t' g (items ++ rows)
  | [], t, t', items, ht, _, hfilled, h => by
    cases h
    rw [List.append_nil]
    exact ⟨ht, hfilled, rfl, fun _ _ => rfl⟩
  | item :: rows, t, t', items, ht, hknown, hfilled, h => by
    rw [List.zipIdx_cons, List.foldlM_cons] at h
    obtain ⟨mid, hmid, h⟩ := bind_eq_ok.mp h
    have hone := addItem_added ht hknown hfilled hmid
    have hlength : (items ++ [item]).length = items.length + 1 := by simp
    rw [← hlength] at h
    have hrest := addAll_added hone.consistent (hone.generations ▸ hknown) hone.filled h
    rw [List.append_assoc, List.singleton_append] at hrest
    refine ⟨hrest.consistent, hrest.filled, hrest.generations.trans hone.generations, ?_⟩
    intro other hne
    rw [hrest.others other hne, hone.others other hne]

theorem addItems_building {t t' : Tables G} {g : G} {rows : List Item}
    (h : addItems u t g rows = .ok t') : ∃ row, generationOf t g = some row ∧
      row.state = .building ∧ (rows.zipIdx (nextNo t g)).foldlM
        (fun t (item, itemNo) => addItem u g t itemNo item) t = .ok t' := by
  unfold addItems at h
  split at h
  · rename_i hstate
    cases hfound : generationOf t g with
    | none =>
      rw [hfound] at hstate
      cases hstate
    | some row =>
      rw [hfound] at hstate
      exact ⟨row, rfl, of_decide_eq_true hstate, h⟩
  · cases h

theorem addItems_added {t t' : Tables G} {g : G} {rows items : List Item}
    (ht : Consistent u t) (hfilled : Filled u t g items) (h : addItems u t g rows = .ok t') :
    Added u t t' g (items ++ rows) := by
  obtain ⟨row, hrow, _, h⟩ := addItems_building h
  rw [hfilled.nextNo] at h
  obtain ⟨hmem, hid⟩ := (mem_generations ht.unique).mp hrow
  exact addAll_added ht ⟨row, hmem, hid⟩ hfilled h

/-! What can be added. -/

theorem Filled.mem {t : Tables G} {g : G} {items : List Item} (h : Filled u t g items)
    {row : ItemRow G} (hrow : row ∈ t.items) (hg : row.generationId = g) :
    row.item ∈ items ∧ row.itemNo < items.length := by
  have hmine : row ∈ (rowsOf t g).items := List.mem_filter.mpr ⟨hrow, decide_eq_true hg⟩
  have hmem : (row.item, row.itemNo) ∈ items.zipIdx := by
    rw [← h.items]
    exact List.mem_map.mpr ⟨row, hmine, rfl⟩
  rw [List.mem_zipIdx_iff_getElem?] at hmem
  obtain ⟨hlt, heq⟩ := List.getElem?_eq_some_iff.mp hmem
  exact ⟨List.mem_of_getElem? hmem, hlt⟩

theorem addItem_total {t : Tables G} {g : G} {item : Item} {items : List Item}
    (hfilled : Filled u t g items) (hfresh : ∀ other ∈ items, other.itemId ≠ item.itemId)
    (hkey : ∃ key, instantSortKey u.toUnicode item.modifiedAt = .ok key) :
    ∃ t', addItem u g t items.length item = .ok t' := by
  obtain ⟨key, hkey⟩ := hkey
  unfold addItem
  rw [hkey]
  dsimp only
  rw [if_neg]
  · exact ⟨_, rfl⟩
  · intro hany
    obtain ⟨row, hrow, hsame⟩ := List.any_eq_true.mp hany
    obtain ⟨hg, hsame⟩ := of_decide_eq_true hsame
    obtain ⟨hmem, hlt⟩ := hfilled.mem hrow hg
    rcases hsame with hid | hno
    · exact hfresh row.item hmem hid
    · omega

theorem addAll_total {g : G} : ∀ {rows : List Item} {t : Tables G} {items : List Item},
    Consistent u t → (∃ row ∈ t.generations, row.generationId = g) → Filled u t g items →
      ((items ++ rows).map (·.itemId)).Nodup →
      (∀ item ∈ rows, ∃ key, instantSortKey u.toUnicode item.modifiedAt = .ok key) →
      ∃ t', (rows.zipIdx items.length).foldlM
        (fun t (item, itemNo) => addItem u g t itemNo item) t = .ok t'
  | [], t, items, _, _, _, _, _ => ⟨t, rfl⟩
  | item :: rows, t, items, ht, hknown, hfilled, hnodup, hkeys => by
    have hfresh : ∀ other ∈ items, other.itemId ≠ item.itemId := by
      intro other hother heq
      rw [List.map_append, List.map_cons] at hnodup
      exact (List.nodup_append.mp hnodup).2.2 other.itemId (List.mem_map_of_mem hother)
        item.itemId (List.mem_cons_self ..) heq
    obtain ⟨mid, hmid⟩ := addItem_total hfilled hfresh (hkeys item (List.mem_cons_self ..))
    have hone := addItem_added ht hknown hfilled hmid
    have hlength : (items ++ [item]).length = items.length + 1 := by simp
    have hnodup' : ((items ++ [item] ++ rows).map (·.itemId)).Nodup := by simpa using hnodup
    obtain ⟨t', ht'⟩ := addAll_total hone.consistent (hone.generations ▸ hknown) hone.filled hnodup'
      fun other hother => hkeys other (List.mem_cons_of_mem _ hother)
    rw [hlength] at ht'
    refine ⟨t', ?_⟩
    rw [List.zipIdx_cons, List.foldlM_cons]
    exact bind_eq_ok.mpr ⟨mid, hmid, ht'⟩

theorem addItems_total {t : Tables G} {g : G} {rows items : List Item} {row : GenerationRow G}
    (ht : Consistent u t) (hrow : row ∈ t.generations) (hg : row.generationId = g)
    (hbuilding : row.state = .building) (hfilled : Filled u t g items)
    (hnodup : ((items ++ rows).map (·.itemId)).Nodup)
    (hkeys : ∀ item ∈ rows, ∃ key, instantSortKey u.toUnicode item.modifiedAt = .ok key) :
    ∃ t', addItems u t g rows = .ok t' := by
  have hfound : generationOf t g = some row := (mem_generations ht.unique).mpr ⟨hrow, hg⟩
  unfold addItems
  rw [if_pos (by rw [hfound]; exact decide_eq_true hbuilding), hfilled.nextNo]
  exact addAll_total ht ⟨row, hrow, hg⟩ hfilled hnodup hkeys

theorem createGeneration_total {t : Tables G} {g : G} (rootId : Text)
    (h : ∀ row ∈ t.generations, row.generationId ≠ g) :
    ∃ t', createGeneration t rootId g = .ok t' := by
  unfold createGeneration
  rw [generationOf_none.mpr h]
  exact ⟨_, rfl⟩

theorem finish_total {t : Tables G} {g : G} {row : GenerationRow G} (ht : Consistent u t)
    (hrow : row ∈ t.generations) (hg : row.generationId = g) (hbuilding : row.state = .building) :
    ∃ t', finish t g = .ok t' := by
  have hfound : generationOf t g = some row := (mem_generations ht.unique).mpr ⟨hrow, hg⟩
  unfold finish
  rw [if_pos (by rw [hfound]; exact decide_eq_true hbuilding)]
  exact ⟨_, rfl⟩

theorem activateGeneration_total {t : Tables G} {g : G} {row : GenerationRow G}
    (ht : Consistent u t) (hrow : row ∈ t.generations) (hg : row.generationId = g)
    (hready : row.state = .ready) : ∃ t', activateGeneration t g = .ok t' := by
  have hfound : generationOf t g = some row := (mem_generations ht.unique).mpr ⟨hrow, hg⟩
  unfold activateGeneration
  rw [hfound]
  dsimp only
  rw [if_pos hready]
  exact ⟨_, rfl⟩

/-! States. -/

omit [DecidableEq G] in
theorem Consistent.setState {t : Tables G} (ht : Consistent u t)
    (selected : GenerationRow G → Bool) (state : GenerationState) :
    Consistent u (setState t selected state) := by
  have hids : (SearchTables.setState t selected state).generations.map (·.generationId) =
      t.generations.map (·.generationId) := by
    unfold SearchTables.setState
    rw [List.map_map]
    refine List.map_congr_left fun row _ => ?_
    by_cases h : selected row = true <;> simp [h]
  have hknown : ∀ {g : G}, (∃ row ∈ t.generations, row.generationId = g) →
      ∃ row ∈ (SearchTables.setState t selected state).generations, row.generationId = g := by
    intro g ⟨row, hrow, hg⟩
    have hmem := List.mem_map_of_mem (f := (·.generationId)) hrow
    rw [← hids] at hmem
    obtain ⟨row', hrow', heq⟩ := List.mem_map.mp hmem
    exact ⟨row', hrow', heq.trans hg⟩
  refine ⟨hids ▸ ht.unique, fun row hrow => hknown (ht.items_known row hrow),
    fun row hrow => hknown (ht.markers_known row hrow), ht.rowIds, ht.built, ht.itemMarkers, ht.fts⟩

omit [DecidableEq G] in
theorem mem_setState {t : Tables G} {selected : GenerationRow G → Bool} {state : GenerationState}
    {row : GenerationRow G} : row ∈ (setState t selected state).generations ↔
      ∃ old ∈ t.generations, row = if selected old then { old with state := state } else old := by
  unfold setState
  rw [List.mem_map]
  exact exists_congr fun old => and_congr_right fun _ => eq_comm

theorem finish_ok {t t' : Tables G} {g : G} (h : finish t g = .ok t') :
    t' = setState t (fun row => row.generationId = g ∧ row.state = .building) .ready := by
  unfold finish at h
  split at h
  · exact (Except.ok.inj h).symm
  · cases h

theorem activateGeneration_ok {t t' : Tables G} {g : G} (h : activateGeneration t g = .ok t') :
    ∃ row, generationOf t g = some row ∧ row.state = .ready ∧
      t' = setState (setState t (fun other => other.rootId = row.rootId ∧ other.state = .active)
        .ready) (·.generationId = g) .active := by
  unfold activateGeneration at h
  split at h
  · rename_i row hrow
    split at h
    · rename_i hready
      exact ⟨row, hrow, hready, (Except.ok.inj h).symm⟩
    · cases h
  · cases h

theorem activated_generations {t t' : Tables G} {g : G} (ht : Consistent u t)
    (h : activateGeneration t g = .ok t') : ∃ row ∈ t.generations, row.generationId = g ∧
      ⟨g, row.rootId, .active⟩ ∈ t'.generations ∧
      ∀ other ∈ t'.generations, other.state = .active → other.generationId = g ∨
        other.rootId ≠ row.rootId ∧ other ∈ t.generations := by
  obtain ⟨row, hrow, hready, rfl⟩ := activateGeneration_ok h
  obtain ⟨hmem, rfl⟩ := (mem_generations ht.unique).mp hrow
  refine ⟨row, hmem, rfl, ?_, ?_⟩
  · refine mem_setState.mpr ⟨row, mem_setState.mpr ⟨row, hmem, ?_⟩, ?_⟩
    · simp [hready]
    · simp
  · intro other hother hactive
    obtain ⟨mid, hmid, rfl⟩ := mem_setState.mp hother
    obtain ⟨old, hold, rfl⟩ := mem_setState.mp hmid
    by_cases hg : old.generationId = row.generationId
    · left
      split <;> split <;> exact hg
    · right
      by_cases hroot : old.rootId = row.rootId ∧ old.state = .active
      · simp [hg, hroot] at hactive
      · simp only [hg, hroot, decide_false, Bool.false_eq_true, if_false] at hactive ⊢
        exact ⟨fun heq => hroot ⟨heq, hactive⟩, hold⟩

/-! Deletion. -/

/-- What one call of `delete_generation` does: nothing, one batch of rows, or the end. -/
inductive Deleted (t : Tables G) (g : G) (batchSize : ℕ) : Bool → Tables G → Prop
  | absent : generationOf t g = none → Deleted t g batchSize true t
  | batch {row : GenerationRow G} : generationOf t g = some row → row.state ≠ .active →
      deletedRows t g batchSize ≠ [] →
        Deleted t g batchSize false (deleteRows t ((deletedRows t g batchSize).map (·.rowId)))
  | last {row : GenerationRow G} : generationOf t g = some row → row.state ≠ .active →
      deletedRows t g batchSize = [] → Deleted t g batchSize true (dropGeneration t g)

theorem deleteGeneration_ok {t t' : Tables G} {pointed : List G} {g : G} {batchSize : ℕ}
    {done : Bool} (h : deleteGeneration t pointed g batchSize = .ok (done, t')) :
    0 < batchSize ∧ (generationOf t g = none ∨ g ∉ pointed) ∧ Deleted t g batchSize done t' := by
  unfold deleteGeneration at h
  split at h
  · cases h
  · rename_i hsize
    have hpos : 0 < batchSize := by omega
    split at h
    · rename_i hnone
      cases h
      exact ⟨hpos, .inl hnone, .absent hnone⟩
    · rename_i row hrow
      split at h
      · cases h
      · rename_i hactive
        split at h
        · cases h
        · rename_i hpointed
          dsimp only at h
          split at h
          · rename_i hrows
            cases h
            exact ⟨hpos, .inr hpointed, .last hrow hactive hrows⟩
          · rename_i hrows
            cases h
            exact ⟨hpos, .inr hpointed, .batch hrow hactive hrows⟩

omit [DecidableEq G] in
theorem Consistent.deleteRows {t : Tables G} (ht : Consistent u t) (rowIds : List ℕ) :
    Consistent u (deleteRows t rowIds) := by
  refine ⟨ht.unique, ?_, ht.markers_known, ?_, ?_, ?_, ?_⟩
  · intro row hrow
    exact ht.items_known row (List.mem_filter.mp hrow).1
  · exact ht.rowIds.sublist List.filter_sublist
  · intro row hrow
    exact ht.built row (List.mem_filter.mp hrow).1
  · show t.itemMarkers.filter _ = List.flatMap _ (t.items.filter _)
    rw [ht.itemMarkers]
    refine filter_itemMarkerRows fun row _ m hm => ?_
    rw [(itemMarkerRows_generation m hm).2]
  · show t.fts.filter _ = (t.items.filter _).map _
    rw [ht.fts, List.filter_map]
    rfl

theorem deleteRows_other {t : Tables G} (ht : Consistent u t) {g other : G} (hne : other ≠ g)
    (batchSize : ℕ) :
    rowsOf (deleteRows t ((deletedRows t g batchSize).map (·.rowId))) other = rowsOf t other := by
  have hitems : (rowsOf (deleteRows t ((deletedRows t g batchSize).map (·.rowId))) other).items =
      (rowsOf t other).items := by
    show (t.items.filter _).filter _ = t.items.filter _
    rw [List.filter_filter]
    refine List.filter_congr fun row hrow => ?_
    by_cases hg : row.generationId = other
    · have hkept : row.rowId ∉ (deletedRows t g batchSize).map (·.rowId) := by
        intro hmem
        obtain ⟨old, hold, heq⟩ := List.mem_map.mp hmem
        obtain ⟨hold', hg'⟩ := List.mem_filter.mp (List.mem_of_mem_take hold)
        rw [ht.rowId_injective hold' hrow heq] at hg'
        exact hne (hg.symm.trans (of_decide_eq_true hg'))
      simp [hg, hkept]
    · simp [hg]
  have hdeleted := ht.deleteRows ((deletedRows t g batchSize).map (·.rowId))
  have hitemMarkers := hdeleted.itemMarkersOf other
  have hfts := hdeleted.ftsOf other
  rw [hitems, ← ht.itemMarkersOf other] at hitemMarkers
  rw [hitems, ← ht.ftsOf other] at hfts
  calc rowsOf (deleteRows t ((deletedRows t g batchSize).map (·.rowId))) other
      = ⟨(rowsOf t other).items, (rowsOf t other).itemMarkers, (rowsOf t other).markers,
          (rowsOf t other).fts⟩ := by
        rw [← hitems, ← hitemMarkers, ← hfts]
        rfl
    _ = rowsOf t other := rfl

theorem no_items {t : Tables G} {g : G} {batchSize : ℕ} (hpos : 0 < batchSize)
    (h : deletedRows t g batchSize = []) : ∀ row ∈ t.items, row.generationId ≠ g := by
  intro row hrow heq
  unfold deletedRows at h
  rw [List.take_eq_nil_iff] at h
  rcases h with h | h
  · omega
  · have := List.filter_eq_nil_iff.mp h row hrow
    simp [heq] at this

theorem Consistent.dropGeneration {t : Tables G} (ht : Consistent u t) {g : G}
    (hnone : ∀ row ∈ t.items, row.generationId ≠ g) : Consistent u (dropGeneration t g) := by
  have hitems : t.items.filter (·.generationId ≠ g) = t.items := by
    refine List.filter_eq_self.mpr fun row hrow => ?_
    simpa using hnone row hrow
  have hkept : ∀ {h : G}, h ≠ g → (∃ row ∈ t.generations, row.generationId = h) →
      ∃ row ∈ (SearchTables.dropGeneration t g).generations, row.generationId = h := by
    rintro h hne ⟨row, hrow, rfl⟩
    exact ⟨row, List.mem_filter.mpr ⟨hrow, decide_eq_true hne⟩, rfl⟩
  refine ⟨ht.unique.sublist (List.filter_sublist.map _), ?_, ?_, ?_, ?_, ?_, ?_⟩
  · intro row hrow
    obtain ⟨hmem, hne⟩ := List.mem_filter.mp hrow
    exact hkept (of_decide_eq_true hne) (ht.items_known row hmem)
  · intro row hrow
    obtain ⟨hmem, hne⟩ := List.mem_filter.mp hrow
    exact hkept (of_decide_eq_true hne) (ht.markers_known row hmem)
  · exact ht.rowIds.sublist List.filter_sublist
  · intro row hrow
    exact ht.built row (List.mem_filter.mp hrow).1
  · show t.itemMarkers.filter _ = List.flatMap _ (t.items.filter _)
    rw [ht.itemMarkers]
    refine filter_itemMarkerRows fun row _ m hm => ?_
    rw [(itemMarkerRows_generation m hm).1]
  · show t.fts = (t.items.filter _).map _
    rw [hitems]
    exact ht.fts

theorem dropGeneration_other {t : Tables G} {g other : G} (hne : other ≠ g) :
    rowsOf (dropGeneration t g) other = rowsOf t other := by
  have hboth : ∀ h : G, (decide (h = other) && decide (h ≠ g)) = decide (h = other) := by
    intro h
    by_cases heq : h = other
    · subst heq
      simp [hne]
    · simp [heq]
  unfold rowsOf dropGeneration
  congr 1
  · rw [List.filter_filter]
    exact List.filter_congr fun row _ => hboth row.generationId
  · rw [List.filter_filter]
    exact List.filter_congr fun row _ => hboth row.generationId
  · rw [List.filter_filter]
    exact List.filter_congr fun row _ => hboth row.generationId

theorem Deleted.consistent {t t' : Tables G} {g : G} {batchSize : ℕ} {done : Bool}
    (ht : Consistent u t) (hpos : 0 < batchSize) (h : Deleted t g batchSize done t') :
    Consistent u t' := by
  cases h with
  | absent _ => exact ht
  | batch _ _ _ => exact ht.deleteRows _
  | last _ _ hrows => exact ht.dropGeneration (no_items hpos hrows)

theorem Deleted.other {t t' : Tables G} {g other : G} {batchSize : ℕ} {done : Bool}
    (ht : Consistent u t) (h : Deleted t g batchSize done t') (hne : other ≠ g) :
    rowsOf t' other = rowsOf t other := by
  cases h with
  | absent _ => rfl
  | batch _ _ _ => exact deleteRows_other ht hne _
  | last _ _ _ => exact dropGeneration_other hne

theorem Deleted.generations {t t' : Tables G} {g : G} {batchSize : ℕ} {done : Bool}
    (h : Deleted t g batchSize done t') :
    (∀ row ∈ t'.generations, row ∈ t.generations) ∧
      ∀ row ∈ t.generations, row.generationId ≠ g → row ∈ t'.generations := by
  cases h with
  | absent _ => exact ⟨fun _ hrow => hrow, fun _ hrow _ => hrow⟩
  | batch _ _ _ => exact ⟨fun _ hrow => hrow, fun _ hrow _ => hrow⟩
  | last _ _ _ =>
    refine ⟨fun row hrow => (List.mem_filter.mp hrow).1, fun row hrow hne => ?_⟩
    exact List.mem_filter.mpr ⟨hrow, decide_eq_true hne⟩

theorem Deleted.spares {t t' : Tables G} {g : G} {batchSize : ℕ} {done : Bool}
    (ht : Consistent u t) (h : Deleted t g batchSize done t') {row : GenerationRow G}
    (hrow : row ∈ t.generations) (hactive : row.state = .active) : row.generationId ≠ g := by
  rintro rfl
  have hfound : generationOf t row.generationId = some row :=
    (mem_generations ht.unique).mpr ⟨hrow, rfl⟩
  cases h with
  | absent hnone =>
    rw [hfound] at hnone
    cases hnone
  | batch hsome hstate _ =>
    rw [hfound] at hsome
    exact hstate (Option.some.inj hsome ▸ hactive)
  | last hsome hstate _ =>
    rw [hfound] at hsome
    exact hstate (Option.some.inj hsome ▸ hactive)

end SearchGenerations
