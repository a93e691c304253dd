import WiseWay.StoredFacets

/-! # The stored search

A search of the tables is the search of the items that were stored: the same rows, in the same
order, with the same total and the same facet. -/
namespace StoredSearch

open Records SearchText Search SearchTables SearchGenerations SqlSearch SearchContract
open StoredKeys StoredFacets
open CandidateRows (Scores chosen mem_rows rowOf_eq materialized_scores)

variable {u : Library} {G : Type} [DecidableEq G] {t : Tables G} {g : G} {items : List Item}

structure Stored (u : Library) (t : Tables G) (g : G) (items : List Item) : Prop where
  consistent : Consistent u t
  filled : Filled u t g items
  faceted : Faceted u items
  ids : (items.map (·.itemId)).Nodup

theorem Stored.instants (h : Stored u t g items) : ∀ item ∈ items, ∃ key,
    instantSortKey u.toUnicode item.modifiedAt = .ok key := by
  intro item hitem
  rw [← filled_items h.filled] at hitem
  obtain ⟨row, hrow, rfl⟩ := List.mem_map.mp hitem
  obtain ⟨key, hkey, _⟩ := h.filled.built row hrow
  exact ⟨key, hkey⟩

/-! Candidates. -/

theorem rowOf_row (h : Stored u t g items) {row : ItemRow G} (hrow : row ∈ (rowsOf t g).items) :
    rowOf t row.rowId = some row :=
  (rowOf_eq h.consistent).mpr ⟨(mem_rows.mp hrow).1, rfl⟩

theorem joinItems_eq (h : Stored u t g items) {best : Item → Option ℕ} {table : RowScores}
    (hscores : Scores t g best table) : joinItems t table =
      (rowsOf t g).items.filterMap fun row => (best row.item).map fun score => (row, score) := by
  rw [joinItems, hscores.toList_eq h.consistent, List.filterMap_filterMap]
  refine List.filterMap_congr fun row hrow => ?_
  cases hbest : best row.item with
  | none => rfl
  | some score =>
    rw [Option.map_some, Option.bind_some, Option.map_some]
    show (rowOf t row.rowId).map _ = _
    rw [rowOf_row h hrow, Option.map_some]

theorem joinItems_mem (h : Stored u t g items) {best : Item → Option ℕ} {table : RowScores}
    (hscores : Scores t g best table) {row : ItemRow G × ℕ} (hrow : row ∈ joinItems t table) :
    row.1 ∈ (rowsOf t g).items := by
  rw [joinItems_eq h hscores, List.mem_filterMap] at hrow
  obtain ⟨known, hknown, heq⟩ := hrow
  obtain ⟨_, _, rfl⟩ := Option.map_eq_some_iff.mp heq
  exact hknown

theorem joinItems_size (h : Stored u t g items) {best : Item → Option ℕ} {table : RowScores}
    (hscores : Scores t g best table) : (joinItems t table).length = table.size := by
  have hlist : table.toList = (joinItems t table).map fun row => (row.1.rowId, row.2) := by
    rw [joinItems_eq h hscores, hscores.toList_eq h.consistent, List.map_filterMap]
    refine List.filterMap_congr fun row _ => ?_
    rw [Option.map_map]
    rfl
  rw [← Std.ExtTreeMap.length_toList, hlist, List.length_map]

theorem joinItems_found (h : Stored u t g items) {query : Query} {selected : List Text}
    {table : RowScores} (hscores : Scores t g (chosen u query selected) table) :
    (joinItems t table).map found =
      matchingRows u query (items.filter fun item => selected <+: chainOf item) := by
  have hmatching : matchingRows u query (items.filter fun item => selected <+: chainOf item) =
      items.filterMap fun item =>
        (chosen u query selected item).map fun score => (item, score) := by
    rw [matchingRows, List.filterMap_filter]
    refine List.filterMap_congr fun item _ => ?_
    unfold chosen
    by_cases hbegins : selected <+: chainOf item
    · simp [hbegins]
    · simp [hbegins]
  rw [hmatching, ← rows_items h.filled, joinItems_eq h hscores, List.map_filterMap]
  refine List.filterMap_congr fun row _ => ?_
  rw [Option.map_map]
  rfl

theorem joinItems_listed (h : Stored u t g items) {query : Query} {selected : List Text}
    {table : RowScores} (hscores : Scores t g (chosen u query selected) table) :
    TopRows.Listed items ((joinItems t table).map found) := by
  refine ⟨h.ids, ?_⟩
  rw [joinItems_found h hscores, matchingRows_items]
  exact List.filter_sublist.trans List.filter_sublist

theorem joinItems_rows (h : Stored u t g items) {query : Query} {selected : List Text}
    {table : RowScores} (hscores : Scores t g (chosen u query selected) table) :
    Rows u (joinItems t table) := by
  refine ⟨h.faceted.digits, ?_, ?_, ?_⟩
  · have hsublist := (joinItems_listed h hscores).sublist.map (·.itemId)
    rw [List.map_map, List.map_map] at hsublist
    exact h.ids.sublist hsublist
  · intro row hrow
    exact h.consistent.built row.1 (mem_rows.mp (joinItems_mem h hscores hrow)).1
  · intro row hrow
    exact h.faceted.sortable row.1.item (filled_item h.filled (joinItems_mem h hscores hrow))

/-! The page. -/

omit [DecidableEq G] in
theorem order_perm {rows sorted : List (ItemRow G × ℕ)} {ordering : SearchSort}
    (h : order ordering rows = .ok sorted) : sorted.Perm rows := by
  have horderBy : ∀ {K : Type} [LinearOrder K] (direction : Direction)
      (key : ItemRow G × ℕ → K), (orderBy direction key rows).Perm rows := by
    intro K _ direction key
    cases direction with
    | asc =>
      dsimp only [orderBy]
      exact TopRows.sortBy_perm ..
    | desc =>
      dsimp only [orderBy]
      exact TopRows.sortBy_perm ..
  obtain ⟨field, direction⟩ := ordering
  cases field with
  | relevance =>
    cases direction with
    | asc => cases h
    | desc =>
      cases h
      exact horderBy ..
  | path =>
    cases h
    exact TopRows.sortBy_perm ..
  | name =>
    cases h
    exact horderBy ..
  | modifiedAt =>
    cases h
    exact horderBy ..
  | size =>
    cases h
    exact horderBy ..

/-- The bodies of the top rows are the first of the sorted items. -/
theorem topIds_bodies (h : Stored u t g items) {query : Query} {selected : List Text}
    {table : RowScores} (hscores : Scores t g (chosen u query selected) table)
    (ordering : SearchSort) {limit : ℕ} (hlimit : limit ≤ variableLimit) :
    topIds t table ordering limit >>= readBodies t =
      (sortRows u (matchingRows u query (items.filter fun item => selected <+: chainOf item))
        ordering).map (·.take limit) := by
  rw [← joinItems_found h hscores, ← order_eq (joinItems_rows h hscores)
    (joinItems_listed h hscores) h.instants ordering, topIds]
  have hvariable : variableLimit = 32766 := rfl
  have hsigned : ¬2 ^ 63 ≤ limit := by omega
  cases horder : order ordering (joinItems t table) with
  | error e => rfl
  | ok sorted =>
    have hbodies : ∀ row ∈ sorted.take limit,
        (rowOf t row.1.rowId).map (·.item) = some row.1.item := by
      intro row hrow
      have hin := (order_perm horder).mem_iff.mp (List.mem_of_mem_take hrow)
      rw [rowOf_row h (joinItems_mem h hscores hin), Option.map_some]
    have hlength : ¬variableLimit < ((sorted.map fun row => row.1.rowId).take limit).length := by
      rw [List.length_take]
      omega
    have hread : readBodies t ((sorted.map fun row => row.1.rowId).take limit) =
        .ok ((sorted.map fun row => row.1.item).take limit) := by
      rw [readBodies, if_neg hlength, ← List.map_take, ← List.map_take, List.filterMap_map,
        ← List.filterMap_eq_map]
      exact congrArg Except.ok (List.filterMap_congr hbodies)
    simp only [bind, Except.bind, pure, Except.pure, if_neg hsigned, hread]
    rfl

/-! The facet. -/

theorem nextFacet_eq (h : Stored u t g items) {query : Query} {selected : List Text}
    (hchain : selected = [] ∨ (items.filter fun item => selected <+: chainOf item) ≠ [])
    {table : RowScores} (hscores : Scores t g (chosen u query selected) table)
    (facetPrefix : Text) :
    (if query.blank then idleFacet t g u selected facetPrefix
      else facetTable t g u table selected facetPrefix) =
        facetOf u ((items.filter fun item => selected <+: chainOf item).filter
          fun item => (matchesAndScore u query item).isSome) selected.length facetPrefix := by
  by_cases hblank : query.blank = true
  · have hall : (items.filter fun item => selected <+: chainOf item).filter
        (fun item => (matchesAndScore u query item).isSome) =
          items.filter fun item => selected <+: chainOf item := by
      refine List.filter_eq_self.mpr fun item _ => ?_
      rw [matches_of_blank hblank]
      rfl
    have hreached : selected = [] ∨ ∃ item ∈ items, selected <+: chainOf item := by
      refine hchain.imp_right fun hne => ?_
      obtain ⟨item, hmem⟩ := List.exists_mem_of_ne_nil _ hne
      obtain ⟨hitem, hbegins⟩ := List.mem_filter.mp hmem
      exact ⟨item, hitem, of_decide_eq_true hbegins⟩
    rw [if_pos hblank, hall]
    exact idleFacet_eq h.filled h.faceted hreached facetPrefix
  · have hkept : (items.filter fun item => selected <+: chainOf item).filter
        (fun item => (matchesAndScore u query item).isSome) =
          items.filter fun item => (chosen u query selected item).isSome := by
      rw [List.filter_filter]
      refine List.filter_congr fun item _ => ?_
      unfold chosen
      by_cases hbegins : selected <+: chainOf item
      · simp [hbegins]
      · simp [hbegins]
    rw [if_neg hblank, hkept]
    exact facetTable_eq h.consistent h.filled h.faceted hscores selected facetPrefix

/-! Requests. -/

/-- A request that SQLite has room for: its statement is prepared. -/
def Answerable (u : Library) (request : FacetRequest) : Prop :=
  ∀ query, parseQuery u.toUnicode request.queryText = .ok query →
    prepares query request.selectedMarkerIds = true

theorem prepares_of_le {query : Query} {selected : List Text}
    (hclauses : query.terms.length + query.phrases.length ≤ 500)
    (hselected : selected.length ≤ 975) : prepares query selected = true := by
  refine decide_eq_true ⟨hclauses, ?_⟩
  unfold conditionDepth expressionDepthLimit joinedClauseLimit
  split <;> omega

variable {root : SearchRoot}

/-- A response from the tables is the one that the items give. -/
theorem search_eq (h : Stored u t g items) (hreadable : readable t g root = .ok ())
    {request : SearchRequest} (hanswerable : Answerable u request.toFacetRequest) {limit : ℕ}
    (hvariables : limit ≤ variableLimit) :
    SqlSearch.search t g u root request limit = Search.search u root items request limit := by
  unfold SqlSearch.search Search.search
  rw [hreadable]
  simp only [bind, Except.bind, pure, Except.pure]
  cases validateContext root request.toFacetRequest with
  | error e => rfl
  | ok _ =>
    by_cases hlimit : limit < 1
    · simp only [if_pos hlimit]
    · simp only [if_neg hlimit]
      cases hparsed : parseQuery u.toUnicode request.queryText with
      | error e => rfl
      | ok query =>
        dsimp only
        rw [StoredMarkers.selectedMarkers_eq h.filled h.faceted.forest]
        cases hselected : selectedChain items request.selectedMarkerIds with
        | error e => rfl
        | ok candidates =>
          obtain ⟨_, hreached, rfl⟩ := selectedChain_ok.mp hselected
          obtain ⟨table, htable, hscores⟩ := materialized_scores (g := g) h.consistent
            (PreparedSearch.parsed_phrases hparsed) (hanswerable query hparsed)
          have hfacet := nextFacet_eq h hreached hscores request.facetPrefix
          simp only [Except.map]
          by_cases hrelevance : request.sort.field = .relevance ∧ query.blank
          · simp only [if_pos hrelevance]
          · simp only [if_neg hrelevance]
            by_cases hidle : request.selectedMarkerIds = [] ∧ query.blank
            · have hroot := idleFacet_eq h.filled h.faceted (.inl hidle.1) request.facetPrefix
              simp only [if_pos hidle]
              rw [← hroot, hidle.1]
              rfl
            · have htop := topIds_bodies h hscores request.sort hvariables
              have hsize := joinItems_size h hscores
              rw [← List.length_map found, joinItems_found h hscores] at hsize
              simp only [if_neg hidle, htable]
              rw [hfacet, ← hsize, matchingRows_items]
              have hpage : ∀ response : List Item → SearchResponse,
                  (topIds t table request.sort limit >>= fun top =>
                    readBodies t top >>= fun page => Except.ok (response page)) =
                      sortRows u (matchingRows u query (items.filter fun item =>
                        request.selectedMarkerIds <+: chainOf item)) request.sort >>=
                          fun returned => .ok (response (returned.take limit)) := by
                intro response
                rw [← bind_assoc, htop]
                cases sortRows u (matchingRows u query (items.filter fun item =>
                  request.selectedMarkerIds <+: chainOf item)) request.sort <;> rfl
              exact hpage fun page => resultsResponse root _ limit _ _ _ page _

theorem search_refused {request : SearchRequest} {limit : ℕ} {query : Query}
    (hparsed : parseQuery u.toUnicode request.queryText = .ok query)
    (hrefused : prepares query request.selectedMarkerIds = false)
    (hbusy : ¬(request.selectedMarkerIds = [] ∧ query.blank)) :
    ∃ e, SqlSearch.search t g u root request limit = .error e := by
  have htable : materialized t g query request.selectedMarkerIds = .error .raised :=
    if_neg (Bool.not_eq_true _ ▸ hrefused)
  unfold SqlSearch.search
  simp only [bind, Except.bind, pure, Except.pure]
  cases readable t g root with
  | error e => exact ⟨e, rfl⟩
  | ok _ =>
    cases validateContext root request.toFacetRequest with
    | error e => exact ⟨e, rfl⟩
    | ok _ =>
      by_cases hlimit : limit < 1
      · exact ⟨.raised, by simp only [if_pos hlimit]⟩
      · simp only [if_neg hlimit, hparsed]
        cases selectedMarkers t g request.selectedMarkerIds with
        | error e => exact ⟨e, rfl⟩
        | ok markers =>
          by_cases hrelevance : request.sort.field = .relevance ∧ query.blank
          · exact ⟨.invalidQuery, by simp only [if_pos hrelevance]⟩
          · exact ⟨.raised, by simp only [if_neg hrelevance, if_neg hbusy, htable]⟩

theorem facet_eq (h : Stored u t g items) (hreadable : readable t g root = .ok ())
    {request : FacetRequest} (hanswerable : Answerable u request) :
    SqlSearch.facet t g u root request = Search.facet u root items request := by
  unfold SqlSearch.facet Search.facet
  rw [hreadable]
  simp only [bind, Except.bind, pure, Except.pure]
  cases validateContext root request with
  | error e => rfl
  | ok _ =>
    cases hparsed : parseQuery u.toUnicode request.queryText with
    | error e => rfl
    | ok query =>
      dsimp only
      rw [StoredMarkers.selectedMarkers_eq h.filled h.faceted.forest]
      cases hselected : selectedChain items request.selectedMarkerIds with
      | error e => rfl
      | ok candidates =>
        obtain ⟨_, hreached, rfl⟩ := selectedChain_ok.mp hselected
        obtain ⟨table, htable, hscores⟩ := materialized_scores (g := g) h.consistent
          (PreparedSearch.parsed_phrases hparsed) (hanswerable query hparsed)
        have hfacet := nextFacet_eq h hreached hscores request.facetPrefix
        simp only [Except.map]
        rw [← hfacet]
        by_cases hblank : query.blank = true
        · simp only [if_pos hblank]
        · simp only [if_neg hblank, htable]

end StoredSearch
