import WiseWay.LargePublication
import WiseWay.SearchTransactions

/-! # The published generation of a root answers for its files

A step of a large scan is one transaction on the search tables at most. So in every run the
published generation of a root, which is complete, answers as the items of its files do. -/
namespace PublishedAnswers

open Records EntryIds LargeIdentity SearchText SearchTables SearchGenerations Sweeps LargeScans
open LargePublication SearchTransactions StoredSearch
open SqlSearch (variableLimit)
open Fallible (toOption_some)
open Search hiding Row Location
open SearchGenerations hiding Rows

variable {v : Site} {s t : LargeScans.State} {rootId runId : Text} {scan : Scan}

/-- One transaction on the search tables, or none. -/
def Commits (v : Site) (a b : Tables Generation) : Prop :=
  b = a ∨ ∃ transaction, commit v.library a transaction = .ok b

theorem Commits.refl (a : Tables Generation) : Commits v a a := .inl rfl

/-! Steps. -/

theorem discardEntries_tables (runId : Text) (s : LargeScans.State) :
    (discardEntries runId s).2.tables = s.tables := by
  unfold discardEntries
  split <;> rfl

theorem discardRun_commits {done : Bool} (h : discardRun runId s = some (done, t)) :
    Commits v s.tables t.tables := by
  unfold discardRun at h
  split at h
  · cases h
    exact .refl _
  · split at h
    · have htables := discardEntries_tables runId s
      rw [Option.some.inj h] at htables
      exact .inl htables
    · rename_i generation _
      split at h
      · cases h
      · rename_i tables hdelete
        cases h
        refine .inr ⟨.delete (pointed s) generation 1000, ?_⟩
        rw [commit, hdelete]
        rfl
      · rename_i tables hdelete
        have htables := discardEntries_tables runId { s with tables := tables }
        rw [Option.some.inj h] at htables
        refine .inr ⟨.delete (pointed s) generation 1000, ?_⟩
        rw [commit, hdelete, show t.tables = tables from htables]
        rfl

theorem discardNext_commits {runIds : List Text} {phase : List Text → LargeScans.Phase}
    (h : discardNext runIds phase s = some t) : Commits v s.tables t.tables := by
  cases runIds with
  | nil => cases h
  | cons runId rest =>
    obtain ⟨⟨done, u⟩, hu, rfl⟩ := Option.map_eq_some_iff.mp h
    have hcommits := discardRun_commits (v := v) hu
    exact hcommits

theorem stage_tables {count : ℕ} {batch : List Row} (h : stage scan count batch s = some t) :
    t.tables = s.tables := by
  unfold stage at h
  split at h
  · cases h
  · split at h
    · cases h
      exact updateRun_tables _
    · cases h

theorem completeUnchanged_tables {count : ℕ} {now : Time}
    (h : completeUnchanged scan count now s = some t) : t.tables = s.tables := by
  unfold completeUnchanged at h
  split at h
  · cases h
  · split at h
    · cases h
      rfl
    · cases h

theorem stepScan_commits {e : LargeScans.Event} (h : stepScan v scan s e = some t) :
    Commits v s.tables t.tables := by
  cases e with
  | scan root runId => cases h
  | configure rootId root => cases h
  | replace rootId row => cases h
  | discard =>
    unfold stepScan at h
    dsimp only at h
    split at h
    · exact discardNext_commits h
    · obtain ⟨⟨done, u⟩, hu, rfl⟩ := Option.map_eq_some_iff.mp h
      have hcommits := discardRun_commits (v := v) hu
      dsimp only
      split
      · exact hcommits
      · exact hcommits
    · exact discardNext_commits h
    · cases h
  | insertRun =>
    unfold stepScan at h
    dsimp only at h
    split at h
    · cases h
      exact .refl _
    · cases h
  | stage batch =>
    unfold stepScan at h
    dsimp only at h
    split at h
    · split at h
      · obtain ⟨u, hu, rfl⟩ := Option.map_eq_some_iff.mp h
        have htables := stage_tables hu
        exact .inl htables
      · cases h
    · cases h
  | walked =>
    unfold stepScan at h
    dsimp only at h
    split at h
    · cases h
      exact .refl _
    · cases h
  | complete now =>
    unfold stepScan at h
    dsimp only at h
    split at h
    · split at h
      · obtain ⟨u, hu, rfl⟩ := Option.map_eq_some_iff.mp h
        have htables := completeUnchanged_tables hu
        exact .inl htables
      · cases h
    · cases h
  | assign =>
    unfold stepScan at h
    dsimp only at h
    split at h
    · split at h
      · cases h
      · obtain ⟨run, _, rfl⟩ := Option.map_eq_some_iff.mp h
        exact .refl _
    · cases h
  | assignPart run =>
    unfold stepScan at h
    dsimp only at h
    split at h
    · split at h
      · cases h
      · cases h
        exact .refl _
    · cases h
  | create =>
    unfold stepScan at h
    dsimp only at h
    split at h
    · obtain ⟨⟨u, generation⟩, hu, rfl⟩ := Option.map_eq_some_iff.mp h
      obtain ⟨_, hcreate, _⟩ := createFor_some hu
      exact .inr ⟨.create _ _, hcreate⟩
    · cases h
  | build =>
    unfold stepScan at h
    dsimp only at h
    split at h
    · split at h
      · obtain ⟨u, hu, rfl⟩ := Option.map_eq_some_iff.mp h
        obtain ⟨hfinish, _⟩ := finishBuild_some hu
        exact .inr ⟨.finish _, hfinish⟩
      · obtain ⟨u, hu, rfl⟩ := Option.map_eq_some_iff.mp h
        obtain ⟨items, tables, _, hadd, rfl⟩ := addBatch_some hu
        exact .inr ⟨.addItems _ items, hadd⟩
    · cases h
  | publish now =>
    unfold stepScan at h
    dsimp only at h
    split at h
    · obtain ⟨u, hu, rfl⟩ := Option.map_eq_some_iff.mp h
      obtain ⟨hactivate, _⟩ := publish_some hu
      exact .inr ⟨.activate _, hactivate⟩
    · cases h
  | fail =>
    unfold stepScan at h
    dsimp only at h
    split at h
    · cases h
      exact .inl (fail_frame scan s).1
    · cases h
  | stop =>
    unfold stepScan at h
    dsimp only at h
    split at h
    · cases h
      exact .inl (stopped_frame scan s).1
    · cases h
  | crash =>
    cases h
    exact .refl _

theorem step_commits {e : LargeScans.Event} (h : step v s e = some t) :
    Commits v s.tables t.tables := by
  cases e with
  | configure rootId root =>
    cases h
    exact .refl _
  | scan root runId =>
    unfold step at h
    dsimp only at h
    split at h
    · cases h
      exact .refl _
    · cases h
  | replace rootId row =>
    unfold step at h
    dsimp only at h
    split at h
    · cases h
      exact .refl _
    · cases h
  | _ =>
    obtain ⟨scan, _, h⟩ := scanning_of_step h
    exact stepScan_commits h

theorem run_distinct (h : LargeScans.Run v s) : Distinct s.tables := by
  induction h with
  | start roots index progress hindex => exact .nil
  | step _ _ hstep ih =>
    rcases step_commits hstep with hsame | ⟨transaction, hcommit⟩
    · rw [hsame]
      exact ih
    · exact ih.commit hcommit

/-! Answers. -/

theorem builtItems_indexed {root : Config} {found : Scanned} {batch : List Text}
    {items : List Item} (h : builtItems v root found batch = some items)
    (hpaths : ∀ path ∈ batch, Indexable path) :
    ∀ item ∈ items, Indexed v.library root.rootId root.schema item := by
  intro item hitem
  obtain ⟨hitems, _⟩ := Groupings.mapM_eq_some_iff.mp h
  rw [← hitems] at hitem
  obtain ⟨path, hpath, hbuilt⟩ := List.mem_filterMap.mp hitem
  obtain ⟨entry, _, hentry⟩ := Option.bind_eq_some_iff.mp hbuilt
  obtain ⟨itemId, _, hmade⟩ := builtItem_some hentry
  exact ⟨root.displayPrefix,
    ⟨path, entry.data.size, v.modifiedAt entry.data.mtimeNs, itemId⟩, hmade, hpaths path hpath⟩

/-- In every run of large scans, a request to the published generation of a root has the response
that the items of the files of its run give without tables. -/
theorem published_generation_answers (hdigits : DecimalDigits v.library.toUnicode)
    (hinjective : Function.Injective v.library.digest) (h : LargeScans.Run v s) {row : IndexRow}
    {p : SqliteIndex} (hrow : s.index[rootId]? = some row) (hp : row.contents = .sqlite p)
    (hpaths : ∀ path ∈ allPaths (entriesOf s p.scanRunId), Indexable path) :
    ∃ items, builtItems v p.root (entriesOf s p.scanRunId)
        (allPaths (entriesOf s p.scanRunId)) = some items ∧
      ∀ root : SearchRoot, root.rootId = rootId →
        (∀ request : SearchRequest, Answerable v.library request.toFacetRequest →
          ∀ limit ≤ variableLimit,
            SqlSearch.search s.tables p.generation v.library root request limit =
              Search.search v.library root items request limit) ∧
        ∀ request, Answerable v.library request →
          SqlSearch.facet s.tables p.generation v.library root request =
            Search.facet v.library root items request := by
  have hsound := run_sound h
  have hpublished := hsound.published rootId row p hrow hp
  obtain ⟨items, hitems, hfilled⟩ := hpublished.filled
  have hconsistent := hsound.settled.consistent
  have hstored := stored_of_filled hconsistent (run_distinct h) hdigits hinjective hfilled
    (builtItems_indexed hitems hpaths)
  refine ⟨items, hitems, fun root hroot => ?_⟩
  have hfound : generationOf s.tables p.generation = some ⟨p.generation, rootId, .active⟩ :=
    (mem_generations hconsistent.unique).mpr ⟨hpublished.active, rfl⟩
  have hreadable : SqlSearch.readable s.tables p.generation root = .ok () := by
    unfold SqlSearch.readable
    rw [hfound]
    dsimp only
    rw [if_neg (by decide), if_neg (not_not_intro hroot)]
  exact ⟨fun _ hanswerable _ hlimit => search_eq hstored hreadable hanswerable hlimit,
    fun _ hanswerable => facet_eq hstored hreadable hanswerable⟩

/-! A root whose one file is replaced by another. -/

def publishedPaths (s : LargeScans.State) : Contents → List Text
  | .sqlite p => allPaths (entriesOf s p.scanRunId)
  | _ => []

def publishedItems (v : Site) (s : LargeScans.State) : Contents → Option (List Item)
  | .sqlite p => builtItems v p.root (entriesOf s p.scanRunId) (allPaths (entriesOf s p.scanRunId))
  | _ => none

def flatSearchRoot : SearchRoot := ⟨['r'], [], ['1'], ['2'], "2024-01-01T00:00:00Z".toList⟩

def flatRequest : SearchRequest where
  requestStateId := ['s']
  rootId := ['r']
  schemaSetVersion := ['1']
  selectedMarkerIds := []
  queryText := ['b']
  facetPrefix := []
  sort := ⟨.relevance, .desc⟩

theorem published_generation_answers_replaced :
    ∃ s row p, LargeScans.Run flatSite s ∧ s.index[(['r'] : Text)]? = some row ∧
      row.contents = .sqlite p ∧ ∃ response,
        SqlSearch.search s.tables p.generation flatSite.library flatSearchRoot flatRequest 5 =
          .ok response ∧ response.items.map (·.filename) = [['b']] := by
  have hrun : (play flatSite (scanOf '1' 'a' ++ .crash :: scanOf '2' 'b') flatStart).any (fun s =>
      (s.index[(['r'] : Text)]?).any fun row => publishedPaths s row.contents = [['b']] ∧
        (publishedItems flatSite s row.contents).any fun items =>
          (Search.search flatSite.library flatSearchRoot items flatRequest 5).toOption.any
            fun response => response.items.map (·.filename) = [['b']]) = true := by
    decide +kernel
  obtain ⟨s, hplay, hrows⟩ := (Option.any_eq_true _ _).mp hrun
  obtain ⟨row, hrow, hfound⟩ := (Option.any_eq_true _ _).mp hrows
  obtain ⟨hpaths, hfound⟩ := of_decide_eq_true hfound
  obtain ⟨items, hitems, hresponses⟩ := (Option.any_eq_true _ _).mp hfound
  obtain ⟨response, hresponse, hnames⟩ := (Option.any_eq_true _ _).mp hresponses
  have hreached := play_run flatStart_run hplay
  cases hp : row.contents with
  | sqlite p =>
    rw [hp] at hpaths hitems
    have hindexable : ∀ path ∈ allPaths (entriesOf s p.scanRunId), Indexable path := by
      intro path hpath
      rw [show allPaths (entriesOf s p.scanRunId) = [['b']] from hpaths,
        List.mem_singleton] at hpath
      subst hpath
      exact ⟨by decide, by decide, by decide⟩
    obtain ⟨built, hbuilt, hanswers⟩ := published_generation_answers (v := flatSite)
      decimalDigits_ascii (fun _ _ h => h) hreached hrow hp hindexable
    obtain rfl := Option.some.inj (hbuilt.symm.trans hitems)
    refine ⟨s, row, p, hreached, hrow, hp, response, ?_, of_decide_eq_true hnames⟩
    have hanswerable : Answerable flatSite.library flatRequest.toFacetRequest := by
      intro query hquery
      have hone : (parseQuery flatSite.library.toUnicode flatRequest.queryText).toOption.any
          (SqlSearch.prepares · flatRequest.selectedMarkerIds) = true := by decide +kernel
      rwa [hquery] at hone
    rw [(hanswers flatSearchRoot rfl).1 flatRequest hanswerable 5 (by decide)]
    exact toOption_some hresponse
  | legacy entryIds =>
    rw [hp] at hitems
    cases hitems
  | opensearch =>
    rw [hp] at hitems
    cases hitems

end PublishedAnswers
