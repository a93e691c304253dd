import WiseWay.CandidateRows
import WiseWay.MarkerForest

/-! # The stored markers

The table of markers has one row for an identifier, which says where in the forest it stands. The
walk of `_selected` accepts the chains that some item has, and finds their markers. -/
namespace StoredMarkers

open Records SearchText Search SearchTables SearchGenerations SqlSearch SearchContract MarkerForest

variable {u : Library} {G : Type} [DecidableEq G] {t : Tables G} {g : G} {items : List Item}

def parentAt (markers : List Marker) : ℕ → Option Text
  | 0 => none
  | i + 1 => (markers[i]?).map (·.markerId)

omit [DecidableEq G] in
theorem markerRows_get : ∀ (markers : List Marker) (parent : Option Text) (depth i : ℕ),
    (markerRows u g parent depth markers)[i]? = (markers[i]?).map fun marker =>
      markerRow u g ((parentAt markers i).or parent) (depth + i) marker
  | [], _, _, _ => rfl
  | marker :: markers, parent, depth, 0 => rfl
  | marker :: markers, parent, depth, i + 1 => by
    rw [markerRows, List.getElem?_cons_succ, List.getElem?_cons_succ, markerRows_get]
    cases hnext : markers[i]? with
    | none => rfl
    | some next =>
      have hparent : (parentAt markers i).or (some marker.markerId) =
          (parentAt (marker :: markers) (i + 1)).or parent := by
        cases i with
        | zero => rfl
        | succ i =>
          obtain ⟨hi, _⟩ := List.getElem?_eq_some_iff.mp hnext
          rw [parentAt, parentAt, List.getElem?_cons_succ,
            List.getElem?_eq_getElem (Nat.lt_of_succ_lt hi)]
          rfl
      rw [hparent, Option.map_some, Option.map_some, Nat.add_assoc, Nat.add_comm 1]

def rowAt (u : Library) (g : G) (item : Item) (i : ℕ) : Option (MarkerRow G) :=
  (item.markers[i]?).map fun marker => markerRow u g (parentAt item.markers i) i marker

omit [DecidableEq G] in
theorem mem_markerRows {item : Item} {row : MarkerRow G} :
    row ∈ markerRows u g none 0 item.markers ↔ ∃ i, rowAt u g item i = some row := by
  rw [List.mem_iff_getElem?]
  refine exists_congr fun i => ?_
  rw [markerRows_get, Option.or_none, Nat.zero_add]
  rfl

omit [DecidableEq G] in
theorem rowAt_eq_some {item : Item} {i : ℕ} {row : MarkerRow G} :
    rowAt u g item i = some row ↔ ∃ marker, item.markers[i]? = some marker ∧
      row = markerRow u g (parentAt item.markers i) i marker := by
  rw [rowAt, Option.map_eq_some_iff]
  simp only [eq_comm]

/-! The table. -/

theorem insertMarkers_ids : ∀ {new rows : List (MarkerRow G)}, (∀ row ∈ new, row.generationId = g) →
    (∀ row ∈ rows, row.generationId = g) → (rows.map (·.marker.markerId)).Nodup →
      ((new.foldl insertMarker rows).map (·.marker.markerId)).Nodup ∧
        ∀ row ∈ rows ++ new, ∃ known ∈ new.foldl insertMarker rows,
          known.marker.markerId = row.marker.markerId
  | [], rows, _, _, hnodup => by
    refine ⟨hnodup, fun row hrow => ⟨row, ?_, rfl⟩⟩
    rwa [List.append_nil] at hrow
  | row :: new, rows, hnew, hrows, hnodup => by
    have hrow : row.generationId = g := hnew row (List.mem_cons_self ..)
    have hknown : (rows.any fun known => known.generationId = row.generationId ∧
        known.marker.markerId = row.marker.markerId) = true ↔
          ∃ known ∈ rows, known.marker.markerId = row.marker.markerId := by
      simp only [List.any_eq_true, decide_eq_true_eq]
      refine exists_congr fun known => and_congr_right fun hmem => ?_
      rw [hrows known hmem, hrow]
      exact ⟨And.right, fun h => ⟨rfl, h⟩⟩
    have hinserted : (∀ other ∈ insertMarker rows row, other.generationId = g) ∧
        ((insertMarker rows row).map (·.marker.markerId)).Nodup ∧
          ∀ other ∈ rows ++ [row], ∃ known ∈ insertMarker rows row,
            known.marker.markerId = other.marker.markerId := by
      unfold insertMarker
      split
      · rename_i hany
        refine ⟨hrows, hnodup, fun other hother => ?_⟩
        rcases List.mem_append.mp hother with hother | hother
        · exact ⟨other, hother, rfl⟩
        · rw [List.mem_singleton.mp hother]
          exact hknown.mp hany
      · rename_i hnone
        refine ⟨fun other hother => ?_, ?_, fun other hother => ⟨other, hother, rfl⟩⟩
        · rcases List.mem_append.mp hother with hother | hother
          · exact hrows other hother
          · rw [List.mem_singleton.mp hother]
            exact hrow
        · rw [List.map_append, List.map_singleton, List.nodup_append]
          refine ⟨hnodup, List.nodup_singleton _, fun id hid other hother heq => hnone ?_⟩
          obtain ⟨known, hmem, rfl⟩ := List.mem_map.mp hid
          rw [List.mem_singleton] at hother
          exact hknown.mpr ⟨known, hmem, heq.trans hother⟩
    obtain ⟨hgeneration, hdistinct, hcovers⟩ := hinserted
    obtain ⟨hnodup', hall⟩ := insertMarkers_ids
      (fun other hother => hnew other (List.mem_cons_of_mem _ hother)) hgeneration hdistinct
    rw [List.foldl_cons]
    refine ⟨hnodup', fun other hother => ?_⟩
    rw [← List.singleton_append, ← List.append_assoc] at hother
    rcases List.mem_append.mp hother with hother | hother
    · obtain ⟨known, hmem, heq⟩ := hcovers other hother
      obtain ⟨kept, hkept, heq'⟩ := hall known (List.mem_append_left _ hmem)
      exact ⟨kept, hkept, heq'.trans heq⟩
    · exact hall other (List.mem_append_right _ hother)

omit [DecidableEq G] in
theorem rowAt_same (hforest : Forest items) {a b : Item} (ha : a ∈ items) (hb : b ∈ items)
    {i j : ℕ} {row other : MarkerRow G} (hrow : rowAt u g a i = some row)
    (hother : rowAt u g b j = some other) (hid : row.marker.markerId = other.marker.markerId) :
    row = other ∧ i = j ∧ a.markers.take (i + 1) = b.markers.take (j + 1) := by
  obtain ⟨m, hm, rfl⟩ := rowAt_eq_some.mp hrow
  obtain ⟨n, hn, rfl⟩ := rowAt_eq_some.mp hother
  obtain ⟨rfl, htake⟩ := hforest.chains ha hb hm hn hid
  have hget : ∀ k, k ≤ i → a.markers[k]? = b.markers[k]? := by
    intro k hk
    have heq := congrArg (·[k]?) htake
    simpa only [List.getElem?_take, Nat.lt_succ_of_le hk, if_true] using heq
  have hparent : parentAt a.markers i = parentAt b.markers i := by
    cases i with
    | zero => rfl
    | succ i => rw [parentAt, parentAt, hget i (Nat.le_succ i)]
  obtain rfl : m = n := by
    rw [hget i le_rfl, hn] at hm
    exact (Option.some.inj hm).symm
  exact ⟨by rw [hparent], rfl, htake⟩

theorem markersOf_spec (hforest : Forest items) :
    ((markersOf u g items).map (·.marker.markerId)).Nodup ∧ ∀ row,
      row ∈ markersOf u g items ↔ ∃ item ∈ items, ∃ i, rowAt u g item i = some row := by
  have hnew : ∀ row ∈ items.flatMap (fun item => markerRows u g none 0 item.markers),
      row.generationId = g := by
    intro row hrow
    obtain ⟨item, _, hin⟩ := List.mem_flatMap.mp hrow
    exact markerRows_generation row hin
  have hmem : ∀ row, row ∈ items.flatMap (fun item => markerRows u g none 0 item.markers) ↔
      ∃ item ∈ items, ∃ i, rowAt u g item i = some row := by
    intro row
    rw [List.mem_flatMap]
    exact exists_congr fun item => and_congr_right fun _ => mem_markerRows
  obtain ⟨hnodup, hcovers⟩ := insertMarkers_ids hnew
    (fun row hrow => absurd hrow List.not_mem_nil) (List.nodup_nil : ([] : List Text).Nodup)
  have hin : ∀ row, row ∈ markersOf u g items →
      ∃ item ∈ items, ∃ i, rowAt u g item i = some row := by
    intro row hrow
    rcases mem_insertMarkers hrow with hrow | hrow
    · cases hrow
    · exact (hmem row).mp hrow
  refine ⟨hnodup, fun row => ⟨hin row, ?_⟩⟩
  rintro ⟨item, hitem, i, hrow⟩
  obtain ⟨known, hknown, hid⟩ := hcovers row ((hmem row).mpr ⟨item, hitem, i, hrow⟩)
  obtain ⟨other, hother, j, hrow'⟩ := hin known hknown
  rw [← (rowAt_same hforest hother hitem hrow' hrow hid).1]
  exact hknown

theorem markers_filter (hfilled : Filled u t g items) (hforest : Forest items) {item : Item}
    (hitem : item ∈ items) {i : ℕ} {row : MarkerRow G} (hrow : rowAt u g item i = some row) :
    t.markers.filter (fun known => known.generationId = g ∧
      known.marker.markerId = row.marker.markerId) = [row] := by
  obtain ⟨hnodup, hmem⟩ := markersOf_spec (u := u) (g := g) hforest
  have hin : row ∈ markersOf u g items := (hmem row).mpr ⟨item, hitem, i, hrow⟩
  have hone := Groupings.filter_key hnodup hin
  rw [← hfilled.markers, rowsOf, List.filter_filter] at hone
  rw [← hone]
  refine List.filter_congr fun known _ => ?_
  rw [Bool.and_comm, Bool.decide_and]

/-- What `_selected` looks up. -/
theorem marker_found (hfilled : Filled u t g items) (hforest : Forest items) {markerId : Text}
    {depth : ℕ} {row : MarkerRow G} : (t.markers.find? fun known => known.generationId = g ∧
      known.marker.markerId = markerId ∧ known.depth = depth) = some row ↔
        row.marker.markerId = markerId ∧ ∃ item ∈ items, rowAt u g item depth = some row := by
  have hmarkers : ∀ known, known ∈ t.markers ∧ known.generationId = g ↔
      ∃ item ∈ items, ∃ i, rowAt u g item i = some known := by
    intro known
    rw [← (markersOf_spec (u := u) (g := g) hforest).2, ← hfilled.markers]
    simp [rowsOf]
  have hdepth : ∀ {item : Item} {i : ℕ} {known : MarkerRow G}, rowAt u g item i = some known →
      known.depth = i := by
    intro item i known hknown
    obtain ⟨_, _, rfl⟩ := rowAt_eq_some.mp hknown
    rfl
  have hsound : ∀ {known : MarkerRow G}, (t.markers.find? fun known => known.generationId = g ∧
      known.marker.markerId = markerId ∧ known.depth = depth) = some known →
        known.marker.markerId = markerId ∧ ∃ item ∈ items, rowAt u g item depth = some known := by
    intro known hknown
    obtain ⟨hg, hid, hdepth'⟩ := of_decide_eq_true (List.find?_some
      (p := fun known : MarkerRow G => decide (known.generationId = g ∧
        known.marker.markerId = markerId ∧ known.depth = depth)) hknown)
    obtain ⟨item, hitem, i, hrow⟩ :=
      (hmarkers known).mp ⟨List.mem_of_find?_eq_some hknown, hg⟩
    rw [hdepth hrow] at hdepth'
    exact ⟨hid, item, hitem, hdepth' ▸ hrow⟩
  constructor
  · exact hsound
  · rintro ⟨rfl, item, hitem, hrow⟩
    obtain ⟨hmem, hg⟩ := (hmarkers row).mpr ⟨item, hitem, depth, hrow⟩
    cases hfound : t.markers.find? fun known => known.generationId = g ∧
        known.marker.markerId = row.marker.markerId ∧ known.depth = depth with
    | none =>
      have hnot := List.find?_eq_none.mp hfound row hmem
      exact absurd (decide_eq_true ⟨hg, rfl, hdepth hrow⟩) hnot
    | some known =>
      obtain ⟨hid, other, hother, hrow'⟩ := hsound hfound
      rw [(rowAt_same hforest hother hitem hrow' hrow hid).1]

/-! The walk of a selection. -/

theorem chainOf_get {item : Item} {i : ℕ} {markerId : Text} :
    (chainOf item)[i]? = some markerId ↔
      ∃ marker, item.markers[i]? = some marker ∧ marker.markerId = markerId := by
  rw [chainOf, List.getElem?_map, Option.map_eq_some_iff]

theorem prefix_next {chain rest : List Text} {markerId : Text} {item : Item}
    (h : chain ++ markerId :: rest <+: chainOf item) : chain <+: chainOf item ∧
      ∃ marker, item.markers[chain.length]? = some marker ∧ marker.markerId = markerId := by
  refine ⟨(List.prefix_append ..).trans h, chainOf_get.mp ?_⟩
  obtain ⟨more, hmore⟩ := h
  rw [← hmore]
  simp

theorem parentAt_chain {chain : List Text} {item : Item} (h : chain <+: chainOf item) :
    parentAt item.markers chain.length = chain.getLast? := by
  rcases List.eq_nil_or_concat chain with rfl | ⟨before, last, rfl⟩
  · rfl
  · obtain ⟨more, hmore⟩ := h
    rw [List.concat_eq_append] at hmore ⊢
    have hget : (chainOf item)[before.length]? = some last := by
      rw [← hmore]
      simp
    obtain ⟨marker, hmarker, rfl⟩ := chainOf_get.mp hget
    rw [List.length_append, List.length_singleton, parentAt, hmarker, List.getLast?_append]
    rfl

/-- A marker whose parent ends a chain that some item has is below that chain: the parent has one
chain above it. -/
theorem parent_chain (hforest : Forest items) {chain : List Text}
    (hchain : chain = [] ∨ ∃ item ∈ items, chain <+: chainOf item) {item : Item}
    (hitem : item ∈ items) (hparent : parentAt item.markers chain.length = chain.getLast?) :
    chain <+: chainOf item := by
  rcases List.eq_nil_or_concat chain with rfl | ⟨before, last, rfl⟩
  · exact List.nil_prefix
  · rw [List.concat_eq_append] at hchain hparent ⊢
    obtain ⟨other, hother, hbegins⟩ := hchain.resolve_left (by simp)
    rw [List.length_append, List.length_singleton, parentAt, List.getLast?_append,
      List.getLast?_singleton, Option.some_or, Option.map_eq_some_iff] at hparent
    obtain ⟨parent, hget, hlast⟩ := hparent
    obtain ⟨_, known, hknown, hid⟩ := prefix_next hbegins
    obtain ⟨_, htake⟩ := hforest.chains hother hitem hknown hget (hid.trans hlast.symm)
    have hids : (chainOf other).take (before.length + 1) =
        (chainOf item).take (before.length + 1) := by
      rw [chainOf, chainOf, ← List.map_take, ← List.map_take, htake]
    rw [List.prefix_iff_eq_take, List.length_append, List.length_singleton] at hbegins ⊢
    rw [← hids]
    exact hbegins

theorem walk_ok (hfilled : Filled u t g items) (hforest : Forest items) {item : Item}
    (hitem : item ∈ items) : ∀ {rest chain : List Text}, chain ++ rest <+: chainOf item →
      chainMarkers t g chain.length chain.getLast? rest =
        .ok ((item.markers.drop chain.length).take rest.length)
  | [], chain, _ => by rw [chainMarkers, List.length_nil, List.take_zero]
  | markerId :: rest, chain, h => by
    obtain ⟨hchain, marker, hmarker, rfl⟩ := prefix_next h
    have hrow : rowAt u g item chain.length =
        some (markerRow u g chain.getLast? chain.length marker) := by
      rw [rowAt, hmarker, Option.map_some, parentAt_chain hchain]
    have hfound := (marker_found hfilled hforest).mpr ⟨rfl, item, hitem, hrow⟩
    have hrest : chain ++ [marker.markerId] ++ rest <+: chainOf item := by
      rwa [List.append_assoc, List.singleton_append]
    have hwalk := walk_ok hfilled hforest hitem hrest
    rw [List.length_append, List.length_singleton, List.getLast?_append] at hwalk
    obtain ⟨hlength, hget⟩ := List.getElem?_eq_some_iff.mp hmarker
    rw [chainMarkers]
    split
    · rename_i hnone
      exact absurd (hfound.symm.trans hnone) (by simp)
    · rename_i row hsome
      obtain rfl := Option.some.inj (hfound.symm.trans hsome)
      have hparent : ¬(markerRow u g chain.getLast? chain.length marker).parentMarkerId ≠
          chain.getLast? := not_not_intro rfl
      rw [if_neg hparent]
      refine (congrArg (fun found => found >>= fun markers =>
        pure (marker :: markers)) hwalk).trans ?_
      rw [List.length_cons, List.drop_eq_getElem_cons hlength, List.take_succ_cons, hget]
      rfl

/-- Markers are found below a chain that some item has, or not at all. -/
theorem walk_reaches (hfilled : Filled u t g items) (hforest : Forest items) :
    ∀ {rest chain : List Text} {markers : List Marker},
      (chain = [] ∨ ∃ item ∈ items, chain <+: chainOf item) →
        chainMarkers t g chain.length chain.getLast? rest = .ok markers →
          chain ++ rest = [] ∨ ∃ item ∈ items, chain ++ rest <+: chainOf item
  | [], chain, _, hchain, _ => by rwa [List.append_nil]
  | markerId :: rest, chain, markers, hchain, h => by
    rw [chainMarkers] at h
    split at h
    · cases h
    · rename_i row hfound
      split at h
      · cases h
      · rename_i hparent
        obtain ⟨hid, item, hitem, hrow⟩ := (marker_found hfilled hforest).mp hfound
        obtain ⟨marker, hmarker, rfl⟩ := rowAt_eq_some.mp hrow
        have hparent' : parentAt item.markers chain.length = chain.getLast? := not_not.mp hparent
        have hbefore := parent_chain hforest hchain hitem hparent'
        have hnext : chain ++ [markerId] <+: chainOf item := by
          rw [List.prefix_iff_eq_take] at hbefore ⊢
          rw [List.length_append, List.length_singleton, List.take_add_one, ← hbefore,
            chainOf_get.mpr ⟨marker, hmarker, hid⟩]
          rfl
        cases hwalk : chainMarkers t g (chain.length + 1) (some markerId) rest with
        | error e =>
          rw [hwalk] at h
          cases h
        | ok more =>
          have hwalk' : chainMarkers t g (chain ++ [markerId]).length
              (chain ++ [markerId]).getLast? rest = .ok more := by
            rw [List.length_append, List.length_singleton, List.getLast?_append]
            exact hwalk
          have hreached := walk_reaches hfilled hforest (.inr ⟨item, hitem, hnext⟩) hwalk'
          rwa [List.append_assoc, List.singleton_append] at hreached

theorem walk_error : ∀ {selected : List Text} {depth : ℕ} {parent : Option Text} {e : SearchError},
    chainMarkers t g depth parent selected = .error e → e = .invalidMarkerSelection
  | [], _, _, _, h => by cases h
  | markerId :: selected, depth, parent, e, h => by
    rw [chainMarkers] at h
    split at h
    · cases h
      rfl
    · split at h
      · cases h
        rfl
      · cases hwalk : chainMarkers t g (depth + 1) (some markerId) selected with
        | error e' =>
          rw [hwalk] at h
          cases h
          exact walk_error hwalk
        | ok more =>
          rw [hwalk] at h
          cases h

theorem leading_eq (hforest : Forest items) {selected : List Text} {item : Item}
    (hitem : item ∈ items) (h : selected <+: chainOf item) :
    leadingMarkers (items.filter fun item => selected <+: chainOf item) selected =
      item.markers.take selected.length := by
  unfold leadingMarkers
  split
  · rename_i hnil
    rw [hnil, List.length_nil, List.take_zero]
  · rename_i hne
    have hmem : item ∈ items.filter fun item => selected <+: chainOf item :=
      List.mem_filter.mpr ⟨hitem, decide_eq_true h⟩
    cases hhead : items.filter fun item => selected <+: chainOf item with
    | nil =>
      rw [hhead] at hmem
      cases hmem
    | cons first rest =>
      have hfirst : first ∈ items.filter fun item => selected <+: chainOf item := by
        rw [hhead]
        exact List.mem_cons_self ..
      obtain ⟨hin, hbegins⟩ := List.mem_filter.mp hfirst
      obtain ⟨before, last, rfl⟩ := (List.eq_nil_or_concat selected).resolve_left hne
      rw [List.concat_eq_append] at h hbegins ⊢
      obtain ⟨_, m, hm, hid⟩ := prefix_next (of_decide_eq_true hbegins)
      obtain ⟨_, n, hn, hid'⟩ := prefix_next h
      obtain ⟨_, htake⟩ := hforest.chains hin hitem hm hn (hid.trans hid'.symm)
      rw [List.length_append, List.length_singleton]
      exact htake

/-- `_selected` accepts the chains of the reference, with their markers. -/
theorem selectedMarkers_eq (hfilled : Filled u t g items) (hforest : Forest items)
    (selected : List Text) : selectedMarkers t g selected =
      (selectedChain items selected).map (leadingMarkers · selected) := by
  rw [selectedChain_eq]
  unfold selectedMarkers
  by_cases hnodup : selected.Nodup
  · rw [if_neg (not_not_intro hnodup)]
    by_cases hreached : selected = [] ∨ (items.filter fun item => selected <+: chainOf item) ≠ []
    · rw [if_pos ⟨hnodup, hreached⟩]
      rcases hreached with rfl | hne
      · rfl
      · obtain ⟨item, hmem⟩ := List.exists_mem_of_ne_nil _ hne
        obtain ⟨hitem, hchain⟩ := List.mem_filter.mp hmem
        have hchain := of_decide_eq_true hchain
        have hwalk := @walk_ok _ _ _ _ _ _ hfilled hforest _ hitem selected [] hchain
        exact hwalk.trans (congrArg Except.ok (leading_eq hforest hitem hchain).symm)
    · rw [if_neg fun h => hreached h.2]
      cases hwalk : chainMarkers t g 0 none selected with
      | error e =>
        rw [walk_error hwalk]
        rfl
      | ok markers =>
        refine absurd ?_ hreached
        have hreaches := @walk_reaches _ _ _ _ _ _ hfilled hforest selected [] _ (.inl rfl) hwalk
        rcases hreaches with hnil | hfound
        · exact .inl hnil
        · obtain ⟨item, hitem, hchain⟩ := hfound
          exact .inr (List.ne_nil_of_mem (List.mem_filter.mpr ⟨hitem, decide_eq_true hchain⟩))
  · rw [if_pos hnodup, if_neg fun h => hnodup h.1]
    rfl

end StoredMarkers
