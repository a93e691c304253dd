import WiseWay.FacetTotals
import WiseWay.StoredSearch

/-! # Every readable generation answers for its items

In any run of transactions on the search tables, with any generations side by side and any
transaction refused, a generation of which nothing was deleted answers a request as the items that
were added to it do. -/
namespace SearchTransactions

open Records SearchText Search SearchTables SearchGenerations SqlSearch MarkerForest
open StoredKeys StoredFacets StoredSearch
open CandidateRows (mem_rows)

variable {u : Library} {G : Type} [DecidableEq G]

inductive Transaction (G : Type) where
  | create (rootId : Text) (generationId : G)
  | addItems (generationId : G) (rows : List Item)
  | finish (generationId : G)
  | activate (generationId : G)
  | delete (pointed : List G) (generationId : G) (batchSize : ℕ)

def commit (u : Library) (t : Tables G) : Transaction G → Except TableError (Tables G)
  | .create rootId g => createGeneration t rootId g
  | .addItems g rows => SearchTables.addItems u t g rows
  | .finish g => SearchTables.finish t g
  | .activate g => activateGeneration t g
  | .delete pointed g batchSize => (deleteGeneration t pointed g batchSize).map Prod.snd

/-- The items that were added to a generation, as long as none is deleted. -/
abbrev Held (G : Type) := G → Option (List Item)

def Transaction.held (held : Held G) : Transaction G → Held G
  | .create _ g => Function.update held g (some [])
  | .addItems g rows => Function.update held g ((held g).map (· ++ rows))
  | .finish _ => held
  | .activate _ => held
  | .delete _ g _ => Function.update held g none

structure Ledger (G : Type) where
  tables : Tables G := {}
  held : Held G := fun _ => none

/-- A refused transaction is rolled back. -/
def attempt (u : Library) (l : Ledger G) (transaction : Transaction G) : Ledger G :=
  match commit u l.tables transaction with
  | .ok t => ⟨t, transaction.held l.held⟩
  | .error _ => l

/-! Distinct items. -/

/-- The rows of a generation are of different items. -/
def Distinct (t : Tables G) : Prop := t.items.Pairwise fun a b =>
  a.generationId = b.generationId → a.item.itemId ≠ b.item.itemId

theorem Distinct.ids {t : Tables G} (h : Distinct t) {g : G} {items : List Item}
    (hfilled : Filled u t g items) : (items.map (·.itemId)).Nodup := by
  rw [← filled_items hfilled, List.map_map]
  refine List.pairwise_map.mpr ((h.filter _).imp_of_mem fun ha hb hne => hne ?_)
  exact (mem_rows.mp ha).2.trans (mem_rows.mp hb).2.symm

theorem Distinct.addItem {t t' : Tables G} (h : Distinct t) {g : G} {itemNo : ℕ} {item : Item}
    (hadd : addItem u g t itemNo item = .ok t') : Distinct t' := by
  obtain ⟨_, _, hfresh, rfl⟩ := addItem_ok hadd
  refine List.pairwise_append.mpr ⟨h, List.pairwise_singleton .., fun row hrow other hother => ?_⟩
  rw [List.mem_singleton.mp hother]
  exact hfresh row hrow

theorem Distinct.addAll {g : G} : ∀ {rows : List (Item × ℕ)} {t t' : Tables G}, Distinct t →
    rows.foldlM (fun t (item, itemNo) => SearchTables.addItem u g t itemNo item) t = .ok t' →
      Distinct t'
  | [], t, t', h, hadd => by
    cases hadd
    exact h
  | (item, itemNo) :: rows, t, t', h, hadd => by
    rw [List.foldlM_cons] at hadd
    obtain ⟨mid, hmid, hadd⟩ := Fallible.bind_eq_ok.mp hadd
    exact (h.addItem hmid).addAll hadd

theorem Distinct.commit {t t' : Tables G} (h : Distinct t) {transaction : Transaction G}
    (hcommit : commit u t transaction = .ok t') : Distinct t' := by
  cases transaction with
  | create rootId g =>
    obtain ⟨_, rfl⟩ := createGeneration_ok hcommit
    exact h
  | addItems g rows =>
    obtain ⟨_, _, _, hadd⟩ := addItems_building hcommit
    exact h.addAll hadd
  | finish g =>
    obtain rfl := finish_ok hcommit
    exact h
  | activate g =>
    obtain ⟨_, _, _, rfl⟩ := activateGeneration_ok hcommit
    exact h
  | delete pointed g batchSize =>
    obtain ⟨⟨done, deleted⟩, hdelete, rfl⟩ := Fallible.map_eq_ok.mp hcommit
    obtain ⟨_, _, hdeleted⟩ := deleteGeneration_ok hdelete
    cases hdeleted with
    | absent _ => exact h
    | batch _ _ _ => exact h.filter _
    | last _ _ _ => exact h.filter _

/-! Added items. -/

theorem addAll_others {g : G} : ∀ {rows : List (Item × ℕ)} {t t' : Tables G}, Consistent u t →
    (∃ row ∈ t.generations, row.generationId = g) →
      rows.foldlM (fun t (item, itemNo) => addItem u g t itemNo item) t = .ok t' →
        Consistent u t' ∧ ∀ other, other ≠ g → rowsOf t' other = rowsOf t other
  | [], t, t', ht, _, h => by
    cases h
    exact ⟨ht, fun _ _ => rfl⟩
  | (item, itemNo) :: rows, t, t', ht, hknown, h => by
    rw [List.foldlM_cons] at h
    obtain ⟨mid, hmid, h⟩ := Fallible.bind_eq_ok.mp h
    obtain ⟨hconsistent, hothers⟩ :=
      addAll_others (ht.addItem hknown hmid) (addItem_generations hmid ▸ hknown) h
    exact ⟨hconsistent, fun other hne => (hothers other hne).trans (addItem_other hmid hne)⟩

/-! Runs. -/

/-- The tables are in step with what their generations hold. -/
structure Kept (u : Library) (t : Tables G) (held : Held G) : Prop where
  consistent : Consistent u t
  distinct : Distinct t
  filled : ∀ g items, held g = some items → Filled u t g items

theorem filled_update {t t' : Tables G} {held : Held G}
    (h : ∀ g items, held g = some items → Filled u t g items) {g : G} {after : Option (List Item)}
    (hothers : ∀ other, other ≠ g → rowsOf t' other = rowsOf t other)
    (hmine : ∀ items, after = some items → Filled u t' g items) :
    ∀ other items, Function.update held g after other = some items →
      Filled u t' other items := by
  intro other items hheld
  by_cases hg : other = g
  · subst hg
    rw [Function.update_self] at hheld
    exact hmine items hheld
  · rw [Function.update_of_ne hg] at hheld
    exact (h other items hheld).same (hothers other hg)

theorem kept_commit {t t' : Tables G} {held : Held G} (h : Kept u t held)
    {transaction : Transaction G} (hcommit : commit u t transaction = .ok t') :
    Kept u t' (transaction.held held) := by
  have hdistinct := h.distinct.commit hcommit
  cases transaction with
  | create rootId g =>
    obtain ⟨hconsistent, hempty, hothers⟩ := h.consistent.create hcommit
    refine ⟨hconsistent, hdistinct, filled_update h.filled (fun other _ => hothers other) ?_⟩
    intro items hitems
    obtain rfl := Option.some.inj hitems
    exact hempty
  | addItems g rows =>
    obtain ⟨row, hrow, _, hadd⟩ := addItems_building hcommit
    obtain ⟨hmem, hg⟩ := (mem_generations h.consistent.unique).mp hrow
    have hknown : ∃ row ∈ t.generations, row.generationId = g := ⟨row, hmem, hg⟩
    obtain ⟨hconsistent, hothers⟩ := addAll_others h.consistent hknown hadd
    refine ⟨hconsistent, hdistinct, filled_update h.filled hothers fun items hitems => ?_⟩
    obtain ⟨before, hbefore, rfl⟩ := Option.map_eq_some_iff.mp hitems
    exact (addItems_added h.consistent (h.filled g before hbefore) hcommit).filled
  | finish g =>
    obtain rfl := finish_ok hcommit
    exact ⟨h.consistent.setState _ _, hdistinct, fun g items hheld =>
      (h.filled g items hheld).same rfl⟩
  | activate g =>
    obtain ⟨row, _, _, rfl⟩ := activateGeneration_ok hcommit
    exact ⟨(h.consistent.setState _ _).setState _ _, hdistinct, fun g items hheld =>
      (h.filled g items hheld).same rfl⟩
  | delete pointed g batchSize =>
    obtain ⟨⟨done, deleted⟩, hdelete, rfl⟩ := Fallible.map_eq_ok.mp hcommit
    obtain ⟨hpos, _, hdeleted⟩ := deleteGeneration_ok hdelete
    refine ⟨hdeleted.consistent h.consistent hpos, hdistinct,
      filled_update h.filled (fun other hne => hdeleted.other h.consistent hne) ?_⟩
    intro items hitems
    cases hitems

theorem kept_attempt {l : Ledger G} (h : Kept u l.tables l.held) (transaction : Transaction G) :
    Kept u (attempt u l transaction).tables (attempt u l transaction).held := by
  unfold attempt
  cases hcommit : commit u l.tables transaction with
  | error e => exact h
  | ok t => exact kept_commit h hcommit

theorem kept_run (transactions : List (Transaction G)) : ∀ {l : Ledger G},
    Kept u l.tables l.held →
      Kept u (transactions.foldl (attempt u) l).tables (transactions.foldl (attempt u) l).held := by
  induction transactions with
  | nil => exact fun h => h
  | cons transaction transactions ih => exact fun h => ih (kept_attempt h transaction)

omit [DecidableEq G] in
theorem consistent_empty : Consistent u ({} : Tables G) where
  unique := List.nodup_nil
  items_known := fun _ hrow => absurd hrow List.not_mem_nil
  markers_known := fun _ hrow => absurd hrow List.not_mem_nil
  rowIds := .nil
  built := fun _ hrow => absurd hrow List.not_mem_nil
  itemMarkers := rfl
  fts := rfl

theorem kept_empty : Kept u ({} : Ledger G).tables ({} : Ledger G).held := by
  refine ⟨consistent_empty, .nil, fun _ _ hheld => ?_⟩
  cases hheld

/-! Answers. -/

theorem short_of_length {v : Unicode} {value : Text} (h : value.length < 2 ^ 32) :
    NaturalBlob.ShortRuns v value := by
  intro chunk hchunk _
  have hsublist := List.sublist_flatten_of_mem hchunk
  rw [naturalChunks, List.flatten_splitBy] at hsublist
  exact hsublist.length_le.trans_lt h

/-- The bytes that a path can have: `PATH_MAX`. -/
def pathLimit : ℕ := 4096

/-- A path that can be indexed: it has neither the separator of marker keys nor that of stable ids,
and it is no longer than a path can be. -/
structure Indexable (path : Text) : Prop where
  key : '\x1e' ∉ path
  id : '\x1f' ∉ path
  length : (encode path).length ≤ pathLimit

theorem length_le_encode (text : Text) : text.length ≤ (encode text).length := by
  rw [encode, List.length_map, NaturalBlob.utf8]
  induction text with
  | nil => exact Nat.zero_le _
  | cons c text ih =>
    have hpos := List.length_pos_of_ne_nil (String.utf8EncodeChar_ne_nil (c := c))
    rw [List.flatMap_cons, List.length_append, List.length_cons]
    omega

theorem Indexable.short {path : Text} (h : Indexable path) : path.length < 2 ^ 32 := by
  have hlimit : pathLimit = 4096 := rfl
  have hbytes := h.length
  have hlength := length_le_encode path
  omega

theorem built_sortable {rootId displayPrefix : Text} {schema : Schema} {file : FileRecord}
    {item : Item} (h : buildItem u rootId displayPrefix schema file = .ok item)
    (hindexable : Indexable file.relativePath) : Sortable u item := by
  have hpath := hindexable.short
  obtain ⟨hfilename, hrelative, hmarkers⟩ := built_lengths h
  refine ⟨short_of_length (hfilename.trans_lt hpath), short_of_length (hrelative.trans_lt hpath),
    fun marker hmarker => short_of_length ?_⟩
  rcases hmarkers marker hmarker with hle | hunrecognized
  · exact hle.trans_lt hpath
  · rw [hunrecognized]
    decide

/-- An item that `build_item` makes of a file of a root. -/
def Indexed (u : Library) (rootId : Text) (schema : Schema) (item : Item) : Prop :=
  ∃ displayPrefix file, buildItem u rootId displayPrefix schema file = .ok item ∧
    Indexable file.relativePath

theorem stored_of_filled {t : Tables G} (ht : Consistent u t) (hdistinct : Distinct t)
    (hdigits : DecimalDigits u.toUnicode) (hinjective : Function.Injective u.digest) {g : G}
    {items : List Item} (hfilled : Filled u t g items) {rootId : Text} {schema : Schema}
    (hitems : ∀ item ∈ items, Indexed u rootId schema item) : Stored u t g items := by
  have htrailed : Trailed u rootId schema items := by
    intro item hitem
    obtain ⟨_, _, hbuilt, hpath⟩ := hitems item hitem
    exact built_trailed hbuilt hpath.key hpath.id
  refine ⟨ht, hfilled, ⟨hdigits, htrailed.forest hinjective, ?_⟩, hdistinct.ids hfilled⟩
  intro item hitem
  obtain ⟨_, _, hbuilt, hpath⟩ := hitems item hitem
  exact built_sortable hbuilt hpath

/-- In every run of transactions, refused ones among them, on any generations: a request to a
generation that can be read, and of which nothing was deleted, has the response that the items
added to it give without tables, as long as SQLite has room for its statements. -/
theorem readable_generation_answers (hdigits : DecimalDigits u.toUnicode)
    (hinjective : Function.Injective u.digest) (transactions : List (Transaction G)) {g : G}
    {items : List Item} (hheld : (transactions.foldl (attempt u) {}).held g = some items)
    {rootId : Text} {schema : Schema} (hitems : ∀ item ∈ items, Indexed u rootId schema item)
    {root : SearchRoot}
    (hreadable : readable (transactions.foldl (attempt u) {}).tables g root = .ok ()) :
    (∀ request : SearchRequest, Answerable u request.toFacetRequest → ∀ limit ≤ variableLimit,
      SqlSearch.search (transactions.foldl (attempt u) {}).tables g u root request limit =
        Search.search u root items request limit) ∧
      ∀ request, Answerable u request →
        SqlSearch.facet (transactions.foldl (attempt u) {}).tables g u root request =
          Search.facet u root items request := by
  have hkept := kept_run (u := u) transactions kept_empty
  have hstored := stored_of_filled hkept.consistent hkept.distinct hdigits hinjective
    (hkept.filled g items hheld) hitems
  exact ⟨fun _ hanswerable _ hlimit => search_eq hstored hreadable hanswerable hlimit,
    fun _ hanswerable => facet_eq hstored hreadable hanswerable⟩

/-! Two generations side by side, one of which is filled twice and read; its second end is
refused. -/

def sideBySide : List (Transaction ℕ) :=
  [.create "archive".toList 1, .addItems 1 (FacetTotals.smallItems.take 1),
    .create "archive".toList 2, .addItems 2 (FacetTotals.smallItems.drop 1),
    .addItems 1 (FacetTotals.smallItems.drop 1), .finish 1, .activate 1, .finish 1,
    .delete [1] 2 1]

theorem readable_generation_answers_small :
    ∃ response, SqlSearch.search (sideBySide.foldl (attempt plain) {}).tables 1 plain
        FacetTotals.smallRoot FacetTotals.smallRequest 1 = .ok response ∧
      response.total = some 3 ∧ response.items = FacetTotals.smallItems.take 1 := by
  have hfiles : (["Archive/Atlas/a.txt", "Archive/Nova/a.txt", "Archive/Atlas/b.txt"].map
      FacetTotals.smallFile).mapM (buildItem plain "archive".toList [] smallSchema) =
        .ok FacetTotals.smallItems := by decide +kernel
  have hitems : ∀ item ∈ FacetTotals.smallItems,
      Indexed plain "archive".toList smallSchema item := by
    intro item hitem
    obtain ⟨file, hfile, hbuilt⟩ := Fallible.mem_of_mapM hfiles item hitem
    have hpaths : ∀ file ∈ ["Archive/Atlas/a.txt", "Archive/Nova/a.txt",
        "Archive/Atlas/b.txt"].map FacetTotals.smallFile,
          '\x1e' ∉ file.relativePath ∧ '\x1f' ∉ file.relativePath ∧
            (encode file.relativePath).length ≤ pathLimit := by
      decide +kernel
    obtain ⟨hkey, hid, hlength⟩ := hpaths file hfile
    exact ⟨[], file, hbuilt, hkey, hid, hlength⟩
  have hanswerable : Answerable plain FacetTotals.smallRequest.toFacetRequest := by
    intro query hquery
    have hone : (parseQuery plain.toUnicode FacetTotals.smallRequest.queryText).toOption.any
        (prepares · FacetTotals.smallRequest.selectedMarkerIds) = true := by decide +kernel
    rwa [hquery] at hone
  obtain ⟨hsearch, _⟩ := readable_generation_answers (u := plain) decimalDigits_ascii
    (fun _ _ h => h) sideBySide
    (show (sideBySide.foldl (attempt plain) {}).held 1 = some FacetTotals.smallItems by
      decide +kernel) hitems
    (show readable (sideBySide.foldl (attempt plain) {}).tables 1 FacetTotals.smallRoot = .ok () by
      decide +kernel)
  have hresponse : (Search.search plain FacetTotals.smallRoot FacetTotals.smallItems
      FacetTotals.smallRequest 1).toOption.any (fun response =>
        response.total = some 3 ∧ response.items = FacetTotals.smallItems.take 1) = true := by
    decide +kernel
  rw [hsearch _ hanswerable 1 (by decide)]
  cases hanswer : Search.search plain FacetTotals.smallRoot FacetTotals.smallItems
      FacetTotals.smallRequest 1 with
  | error e =>
    rw [hanswer] at hresponse
    cases hresponse
  | ok response =>
    rw [hanswer] at hresponse
    obtain ⟨htotal, hpage⟩ := of_decide_eq_true hresponse
    exact ⟨response, rfl, htotal, hpage⟩

end SearchTransactions
