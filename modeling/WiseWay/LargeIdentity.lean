import WiseWay.EntryIds
import WiseWay.SortedTables
import WiseWay.Sweeps

/-! # Identifiers of a large scan

`_assign_ids` of `large_indexer.py`. It gives the same policy as `_entry_ids` in SQL updates over
batches of paths, and derives new identifiers from the inode and the digest of the path. -/
namespace LargeIdentity

open Records Intake EntryIds Sweeps

/-- A row of `large_scan_entries`. -/
structure Entry where
  data : Fingerprint
  itemId : Option Text
  deriving DecidableEq, Repr

abbrev Scanned := Table Entry

/-- The index record of a root, as far as a scan reads it. -/
inductive Index where
  | sqlite (scanRunId : Text)
  | legacy (entryIds : Table Identity)
  | opensearch

def writeBatchSize : ℕ := 1000

section Assignment

def setId (choose : Scanned → Text → Entry → Option Text) (run : Scanned) (path : Text) : Scanned :=
  match run[path]? with
  | some row => run.insert path { row with itemId := choose run path row }
  | none => run

/-- The paths of the rows that satisfy a condition, as `ORDER BY path` lists them. -/
def paths (p : Entry → Bool) (run : Scanned) : List Text :=
  (run.toList.filter fun entry => p entry.2).map Prod.fst

def sameInode (run : Scanned) (key : ℕ × ℕ) : ℕ :=
  run.toList.countP fun entry => inode entry.2.data = key

/-- The rows of an inode in the prior run whose path is not in this run. -/
def departed (prior run : Scanned) (key : ℕ × ℕ) : List (Text × Entry) :=
  prior.toList.filter fun entry => inode entry.2.data = key ∧ run[entry.1]? = none

def exactId (prior _run : Scanned) (path : Text) (row : Entry) : Option Text :=
  (prior[path]?).bind fun old => if inode old.data = inode row.data then old.itemId else none

def renamedId (prior run : Scanned) (_path : Text) (row : Entry) : Option Text :=
  match row.itemId with
  | some itemId => some itemId
  | none =>
    if sameInode run (inode row.data) = 1 ∧ (departed prior run (inode row.data)).length = 1 then
      (departed prior run (inode row.data)).head?.bind fun old => old.2.itemId
    else none

def reconcileBatch (prior run : Scanned) (batch : List Text) : Scanned :=
  batch.foldl (setId (renamedId prior)) (batch.foldl (setId (exactId prior)) run)

/-- The loop over the rows of the run that keeps exact paths and unambiguous renames. -/
def reconcile (prior : Scanned) (fuel : ℕ) (run : Scanned) : Option Scanned :=
  sweep writeBatchSize (paths fun _ => true) (reconcileBatch prior) fuel [] run

/-- The `_entry_ids` of an older index: the rows that a first pass leaves as they are may still
follow a rename. -/
def adoptLegacy (old : Table Identity) (run : Scanned) : Scanned × List Text :=
  if old.size ≤ 10000 then
    let exact := old.toList.foldl (fun run entry =>
      setId (fun _ _ row => if row.itemId = none ∧ inode row.data = entry.2.inode
        then some entry.2.itemId else row.itemId) run entry.1) run
    let missing := old.toList.filter fun entry => run[entry.1]? = none
    let renamed := (missing.map (·.2.inode)).dedup.foldl (fun run key =>
      match missing.filter (·.2.inode = key),
          paths (fun row => inode row.data = key ∧ row.itemId = none) run with
      | [candidate], [path] => setId (fun _ _ _ => some candidate.2.itemId) run path
      | _, _ => run) exact
    (renamed, oldIds old)
  else (run, [])

variable (dg : Text → Text) (rootId : Text)

def candidate (run : Scanned) (path : Text) (row : Entry) : Text :=
  baseId rootId (inode row.data) ++
    if 1 < sameInode run (inode row.data) then '-' :: dg path else []

def idsOf (run : Scanned) : List Text := run.toList.filterMap (·.2.itemId)

def usedIds (legacyIds : List Text) (prior : Option Scanned) (run : Scanned)
    (candidates : List Text) : List Text :=
  legacyIds ++ (idsOf run ++ (prior.map idsOf).getD []).filter (· ∈ candidates)

def newItemId (used : List Text) (run : Scanned) (path : Text) (row : Entry) : Text :=
  let itemId := candidate dg rootId run path row
  if itemId ∈ used then itemId ++ '-' :: dg path else itemId

/-- One batch of the second loop. The rows and the identifiers in use are read before it writes. -/
def assignBatch (legacyIds : List Text) (prior : Option Scanned) (run : Scanned)
    (batch : List Text) : Scanned :=
  let candidates := batch.filterMap fun path => (run[path]?).map (candidate dg rootId run path)
  let used := usedIds legacyIds prior run candidates
  batch.foldl (setId fun _ path row => some (newItemId dg rootId used run path row)) run

def assignNew (legacyIds : List Text) (prior : Option Scanned) (fuel : ℕ) (run : Scanned) :
    Option Scanned :=
  sweep writeBatchSize (paths (·.itemId = none)) (assignBatch dg rootId legacyIds prior) fuel [] run

/-- `_assign_ids`, with fuel for the rounds of each loop. -/
def assignIds (entries : Table Scanned) (previous : Option Index) (fuel : ℕ) (run : Scanned) :
    Option Scanned :=
  match previous with
  | some (.sqlite priorRun) =>
    let prior := (entries[priorRun]?).getD ∅
    (reconcile prior fuel run).bind (assignNew dg rootId [] (some prior) fuel)
  | some (.legacy old) =>
    let adopted := adoptLegacy old run
    assignNew dg rootId adopted.2 none fuel adopted.1
  | _ => assignNew dg rootId [] none fuel run

end Assignment

/-! Rows and their data. -/

/-- What a scan has found, without the identifiers. -/
def data (run : Scanned) : Table Fingerprint := run.map fun _ row => row.data

def rows (run : Scanned) : List Row := (data run).toList

/-- The map that a run with all its identifiers stands for. -/
def identities (run : Scanned) : Table Identity :=
  run.filterMap fun _ row => row.itemId.map fun itemId => ⟨itemId, inode row.data⟩

variable {prior run other : Scanned} {path q : Text} {row : Entry} {key : ℕ × ℕ}

theorem data_get (run : Scanned) (path : Text) : (data run)[path]? = (run[path]?).map (·.data) :=
  Std.ExtTreeMap.getElem?_map

theorem data_eq (h : ∀ path : Text, (run[path]?).map (·.data) = (other[path]?).map (·.data)) :
    data run = data other := by
  apply Std.ExtTreeMap.ext_getElem?
  intro path
  rw [data_get, data_get, h]

theorem rows_eq (run : Scanned) : rows run = run.toList.map fun entry => (entry.1, entry.2.data) :=
  Std.ExtTreeMap.toList_map

theorem mem_rows {fp : Fingerprint} :
    (path, fp) ∈ rows run ↔ ∃ row, run[path]? = some row ∧ row.data = fp := by
  rw [rows, Std.ExtTreeMap.mem_toList_iff_getElem?_eq_some, data_get, Option.map_eq_some_iff]

theorem mem_rows_paths : path ∈ (rows run).map Prod.fst ↔ run[path]? ≠ none := by
  rw [List.mem_map]
  constructor
  · rintro ⟨⟨p, fp⟩, hp, rfl⟩
    obtain ⟨row, hrow, _⟩ := mem_rows.mp hp
    simp [hrow]
  · intro h
    obtain ⟨row, hrow⟩ := Option.ne_none_iff_exists'.mp h
    exact ⟨(path, row.data), mem_rows.mpr ⟨row, hrow, rfl⟩, rfl⟩

theorem rows_nodup (run : Scanned) : ((rows run).map Prod.fst).Nodup :=
  (SortedTables.toList_sorted (data run)).imp fun hlt => ne_of_lt hlt

theorem sameInode_eq (run : Scanned) (key : ℕ × ℕ) :
    sameInode run key = inodeCount (rows run) key := by
  rw [inodeCount, rows_eq, List.countP_map]
  rfl

theorem setId_get (choose : Scanned → Text → Entry → Option Text) (run : Scanned) (path q : Text) :
    (setId choose run path)[q]? =
      if path = q then (run[q]?).map fun row => { row with itemId := choose run q row }
      else run[q]? := by
  unfold setId
  by_cases hpath : path = q
  · subst hpath
    rw [if_pos rfl]
    cases hrow : run[path]? with
    | none => exact hrow
    | some row => simp
  · rw [if_neg hpath]
    split
    · rw [get_put, if_neg hpath]
    · rfl

theorem setId_data (choose : Scanned → Text → Entry → Option Text) (run : Scanned) (path : Text) :
    data (setId choose run path) = data run := by
  apply data_eq
  intro q
  rw [setId_get]
  split
  · rw [Option.map_map]
    rfl
  · rfl

/-- Updates of distinct paths whose choice depends on the listing and on the row alone. -/
theorem foldl_setId {choose : Scanned → Text → Entry → Option Text} {batch : List Text}
    (hchoose : ∀ a b path row, data a = data b → choose a path row = choose b path row)
    (hbatch : batch.Nodup) (run : Scanned) (q : Text) :
    data (batch.foldl (setId choose) run) = data run ∧
    (batch.foldl (setId choose) run)[q]? =
      if q ∈ batch then (run[q]?).map fun row => { row with itemId := choose run q row }
      else run[q]? := by
  induction batch generalizing run with
  | nil => simp
  | cons path batch ih =>
    rw [List.nodup_cons] at hbatch
    obtain ⟨hdata, hget⟩ := ih hbatch.2 (setId choose run path)
    rw [List.foldl_cons]
    refine ⟨hdata.trans (setId_data choose run path), ?_⟩
    rw [hget, setId_get]
    by_cases hq : q ∈ batch
    · have hne : path ≠ q := fun h => hbatch.1 (h ▸ hq)
      rw [if_pos hq, if_pos (List.mem_cons_of_mem _ hq), if_neg hne]
      congr 1
      funext row
      rw [hchoose _ run q row (setId_data choose run path)]
    · rw [if_neg hq]
      by_cases hpath : path = q
      · rw [if_pos hpath, if_pos (hpath ▸ List.mem_cons_self ..)]
      · rw [if_neg hpath, if_neg]
        rintro (_ | ⟨_, hmem⟩)
        · exact hpath rfl
        · exact hq hmem

theorem mem_paths {p : Entry → Bool} :
    path ∈ paths p run ↔ ∃ row, run[path]? = some row ∧ p row = true := by
  rw [paths, List.mem_map]
  constructor
  · rintro ⟨⟨q, row⟩, hmem, rfl⟩
    rw [List.mem_filter, Std.ExtTreeMap.mem_toList_iff_getElem?_eq_some] at hmem
    exact ⟨row, hmem⟩
  · rintro ⟨row, hrow, hp⟩
    exact ⟨(path, row), List.mem_filter.mpr
      ⟨Std.ExtTreeMap.mem_toList_iff_getElem?_eq_some.mpr hrow, hp⟩, rfl⟩

theorem paths_sorted (p : Entry → Bool) (run : Scanned) : (paths p run).Pairwise (· < ·) :=
  (SortedTables.toList_sorted run).sublist (List.filter_sublist.map Prod.fst)

/-! The first loop follows the policy. -/

def Complete (run : Scanned) : Prop :=
  ∀ (path : Text) row, run[path]? = some row → ∃ itemId, row.itemId = some itemId

theorem identities_get (run : Scanned) (path : Text) : (identities run)[path]? =
    (run[path]?).bind fun row => row.itemId.map fun itemId => ⟨itemId, inode row.data⟩ :=
  Std.ExtTreeMap.getElem?_filterMap'

theorem oldByInode_eq (prior run : Scanned) (key : ℕ × ℕ) :
    oldByInode (rows run) (identities prior) key = (departed prior run key).filterMap fun old =>
      old.2.itemId.map fun itemId => ⟨itemId, inode old.2.data⟩ := by
  rw [oldByInode, identities, Std.ExtTreeMap.toList_filterMap, departed, List.filter_filterMap,
    List.map_filterMap, List.filterMap_filter]
  congr 1
  funext old
  cases hid : old.2.itemId with
  | none => simp
  | some itemId =>
    by_cases hgone : run[old.1]? = none
    · have hpath : old.1 ∉ (rows run).map Prod.fst := fun hin => mem_rows_paths.mp hin hgone
      simp only [Option.map_some, Option.filter_some, hpath, hgone, not_false_eq_true, true_and,
        and_true]
      by_cases hkey : inode old.2.data = key
      · simp [hkey]
      · simp [hkey]
    · have hpath : old.1 ∈ (rows run).map Prod.fst := mem_rows_paths.mpr hgone
      simp only [Option.map_some, Option.filter_some, hpath, not_true_eq_false, false_and,
        decide_false, hgone, and_false]
      simp

theorem renamed_eq (hprior : Complete prior) (run : Scanned) (key : ℕ × ℕ) (itemId : Text) :
    (sameInode run key = 1 ∧ (departed prior run key).length = 1 ∧
      (departed prior run key).head?.bind (fun old => old.2.itemId) = some itemId) ↔
    inodeCount (rows run) key = 1 ∧
      ∃ e, oldByInode (rows run) (identities prior) key = [e] ∧ e.itemId = itemId := by
  rw [sameInode_eq, oldByInode_eq]
  have hcomplete : ∀ old ∈ departed prior run key, ∃ itemId, old.2.itemId = some itemId := by
    intro old hold
    rw [departed, List.mem_filter] at hold
    exact hprior old.1 old.2 (Std.ExtTreeMap.mem_toList_iff_getElem?_eq_some.mp hold.1)
  revert hcomplete
  generalize departed prior run key = gone
  intro hcomplete
  rcases gone with _ | ⟨old, _ | ⟨other, rest⟩⟩
  · simp
  · obtain ⟨id, hid⟩ := hcomplete old (List.mem_singleton_self old)
    simp [hid]
  · obtain ⟨id, hid⟩ := hcomplete old (List.mem_cons_self ..)
    obtain ⟨id', hid'⟩ := hcomplete other (List.mem_cons_of_mem _ (List.mem_cons_self ..))
    simp [hid, hid']

theorem kept_renamed {old : Table Identity} {found : List Row}
    (hexact : (old[path]?).filter (fun exact => exact.inode = key) = none) (itemId : Text) :
    kept old found path key = some itemId ↔
      inodeCount found key = 1 ∧ ∃ e, oldByInode found old key = [e] ∧ e.itemId = itemId := by
  unfold kept
  rw [hexact]
  dsimp only
  rcases oldByInode found old key with _ | ⟨e, _ | ⟨f, rest⟩⟩
  · simp
  · simp
  · simp

/-- What a batch gives to a row is what the policy keeps for it. -/
theorem reconciled_eq (hprior : Complete prior) (run : Scanned) (path : Text) (row : Entry) :
    renamedId prior run path { row with itemId := exactId prior run path row } =
      kept (identities prior) (rows run) path (inode row.data) := by
  by_cases hexact : ∃ old itemId, prior[path]? = some old ∧ inode old.data = inode row.data ∧
      old.itemId = some itemId
  · obtain ⟨old, itemId, hold, hkey, hid⟩ := hexact
    have hfilter : ((identities prior)[path]?).filter (fun exact => exact.inode = inode row.data) =
        some ⟨itemId, inode old.data⟩ := by
      rw [identities_get, hold, Option.bind_some, hid, Option.map_some, Option.filter_some,
        if_pos (decide_eq_true hkey)]
    simp only [kept, hfilter, renamedId, exactId, hold, Option.bind_some, if_pos hkey, hid]
  · have hfilter : ((identities prior)[path]?).filter (fun exact => exact.inode = inode row.data) =
        none := by
      rw [Option.filter_eq_none_iff, identities_get]
      intro e he
      obtain ⟨old, hold, hmap⟩ := Option.bind_eq_some_iff.mp he
      obtain ⟨itemId, hid, rfl⟩ := Option.map_eq_some_iff.mp hmap
      rw [decide_eq_true_eq]
      exact fun hkey => hexact ⟨old, itemId, hold, hkey, hid⟩
    have hnone : exactId prior run path row = none := by
      rw [exactId, Option.bind_eq_none_iff]
      intro old hold
      obtain ⟨itemId, hid⟩ := hprior path old hold
      rw [if_neg fun hkey => hexact ⟨old, itemId, hold, hkey, hid⟩]
    apply Option.ext
    intro itemId
    rw [hnone, kept_renamed hfilter, ← renamed_eq hprior]
    simp only [renamedId]
    split
    · rename_i hone
      exact ⟨fun h => ⟨hone.1, hone.2, h⟩, fun h => h.2.2⟩
    · rename_i hmany
      exact ⟨(fun h => by cases h), fun h => absurd ⟨h.1, h.2.1⟩ hmany⟩

theorem departed_congr (prior : Scanned) {a b : Scanned} (h : data a = data b) (key : ℕ × ℕ) :
    departed prior a key = departed prior b key := by
  have hnone : ∀ path : Text, a[path]? = none ↔ b[path]? = none := by
    intro path
    rw [← Option.map_eq_none_iff, ← data_get, h, data_get, Option.map_eq_none_iff]
  unfold departed
  simp only [hnone]

theorem renamedId_congr (prior a b : Scanned) (path : Text) (row : Entry) (h : data a = data b) :
    renamedId prior a path row = renamedId prior b path row := by
  unfold renamedId
  rw [sameInode_eq, sameInode_eq, departed_congr prior h, rows, rows, h]

theorem reconcileBatch_get (hprior : Complete prior) (run : Scanned) {batch : List Text}
    (hbatch : batch.Nodup) (q : Text) :
    data (reconcileBatch prior run batch) = data run ∧ (reconcileBatch prior run batch)[q]? =
      if q ∈ batch then (run[q]?).map fun row =>
        { row with itemId := kept (identities prior) (rows run) q (inode row.data) }
      else run[q]? := by
  have hexact : ∀ (a b : Scanned) (path : Text) (row : Entry), data a = data b →
      exactId prior a path row = exactId prior b path row := fun _ _ _ _ _ => rfl
  obtain ⟨hdata, hget⟩ := foldl_setId hexact hbatch run q
  obtain ⟨hdata', hget'⟩ := foldl_setId (renamedId_congr prior) hbatch
    (batch.foldl (setId (exactId prior)) run) q
  refine ⟨hdata'.trans hdata, ?_⟩
  rw [reconcileBatch, hget', hget]
  split
  · rw [Option.map_map]
    congr 1
    funext row
    rw [← reconciled_eq hprior, Function.comp_apply, renamedId_congr prior _ run q _ hdata]
  · rfl

/-- A listing as a scan stages it: every file has a name, and no identifier is given yet. -/
structure Unassigned (run : Scanned) : Prop where
  named : run[([] : Text)]? = none
  free : ∀ (path : Text) row, run[path]? = some row → row.itemId = none

/-- The rows up to `last` have what the policy keeps for them. -/
def Reconciled (prior run : Scanned) (last : Text) (t : Scanned) : Prop :=
  data t = data run ∧ ∀ q : Text, t[q]? = (run[q]?).map fun row =>
    { row with itemId :=
        if q ≤ last then kept (identities prior) (rows run) q (inode row.data) else none }

theorem row_exists (h : data run = data other) (hrow : other[path]? = some row) :
    ∃ found, run[path]? = some found ∧ found.data = row.data := by
  have hdata : (data run)[path]? = some row.data := by rw [h, data_get, hrow, Option.map_some]
  rw [data_get] at hdata
  exact Option.map_eq_some_iff.mp hdata

theorem Reconciled.turn (hprior : Complete prior) {last top : Text} {t : Scanned}
    (h : Reconciled prior run last t)
    (htop : (page writeBatchSize last (paths (fun _ => true) t)).getLast? = some top) :
    Reconciled prior run top
      (reconcileBatch prior t (page writeBatchSize last (paths (fun _ => true) t))) := by
  obtain ⟨hdata, hget⟩ := h
  have hsorted := paths_sorted (fun _ => true) t
  obtain ⟨htopmem, hle, hall⟩ := page_top hsorted htop
  have hnodup : (page writeBatchSize last (paths (fun _ => true) t)).Nodup := page_nodup hsorted
  have hbatch := reconcileBatch_get hprior t hnodup
  have hrows : rows t = rows run := by rw [rows, rows, hdata]
  refine ⟨(hbatch []).1.trans hdata, ?_⟩
  intro q
  rw [(hbatch q).2, hget q]
  cases hrow : run[q]? with
  | none => simp
  | some row =>
    obtain ⟨found, hfound, _⟩ := row_exists hdata hrow
    have hpath : q ∈ paths (fun _ => true) t := mem_paths.mpr ⟨found, hfound, rfl⟩
    split
    · rename_i hin
      rw [Option.map_some, Option.map_some, Option.map_some, if_pos (hle q hin), hrows]
    · rename_i hout
      rw [Option.map_some, Option.map_some]
      by_cases hlast : q ≤ last
      · rw [if_pos hlast, if_pos (le_trans hlast (le_of_lt (mem_page htopmem).2))]
      · have htop' : ¬q ≤ top := fun hq => hout (hall q hpath (not_le.mp hlast) hq)
        rw [if_neg hlast, if_neg htop']

theorem reconcile_total (hprior : Complete prior) (hrun : Unassigned run) {fuel : ℕ}
    (hfuel : (rows run).length < fuel) : ∃ t, reconcile prior fuel run = some t ∧
      data t = data run ∧ ∀ q : Text, t[q]? = (run[q]?).map fun row =>
        { row with itemId := kept (identities prior) (rows run) q (inode row.data) } := by
  have hstart : Reconciled prior run [] run := by
    refine ⟨rfl, fun q => ?_⟩
    cases hrow : run[q]? with
    | none => rfl
    | some row =>
      have hne : ¬q ≤ [] := by
        cases q with
        | nil =>
          rw [hrun.named] at hrow
          cases hrow
        | cons c q => exact not_le.mpr (List.nil_lt_cons c q)
      rw [Option.map_some, if_neg hne, ← hrun.free q row hrow]
  have hahead : ahead [] (paths (fun _ => true) run) < fuel := by
    refine lt_of_le_of_lt (List.length_filter_le ..) ?_
    rw [rows_eq, List.length_map] at hfuel
    rw [paths, List.length_map]
    exact lt_of_le_of_lt (List.length_filter_le ..) hfuel
  obtain ⟨final, t, hsweep, ⟨hdata, hget⟩, hfinal⟩ := sweep_total (by decide)
    (paths_sorted fun _ => true)
    (fun last s hs top htop => by
      intro q hq
      obtain ⟨row, hrow, _⟩ := mem_paths.mp hq
      obtain ⟨found, hfound, _⟩ := row_exists
        (reconcileBatch_get hprior s (page_nodup (paths_sorted _ s)) []).1.symm hrow
      exact mem_paths.mpr ⟨found, hfound, rfl⟩)
    (fun last s hs top htop => hs.turn hprior htop) hstart hahead
  refine ⟨t, hsweep, hdata, fun q => ?_⟩
  rw [hget q]
  cases hrow : run[q]? with
  | none => rfl
  | some row =>
    obtain ⟨found, hfound, _⟩ := row_exists hdata hrow
    rw [Option.map_some, Option.map_some, if_pos (hfinal q (mem_paths.mpr ⟨found, hfound, rfl⟩))]

/-! Labels: an inode and the paths whose digests were appended. -/

section Labels

variable (dg : Text → Text) (rootId : Text)

def label (key : ℕ × ℕ) (origins : List Text) : Text :=
  baseId rootId key ++ origins.flatMap fun origin => '-' :: dg origin

/-- The digests of paths: hexadecimal digits, without collisions. -/
structure Digests (dg : Text → Text) : Prop where
  injective : Function.Injective dg
  plain : ∀ path, '-' ∉ dg path

/-- The labels that a row may be given first at its path. -/
def Own (path : Text) (origins : List Text) : Prop := origins = [path] ∨ origins = [path, path]

def Holds (run : Scanned) (path : Text) (key : ℕ × ℕ) (origins : List Text) : Prop :=
  ∃ row, run[path]? = some row ∧ inode row.data = key ∧
    row.itemId = some (label dg rootId key origins)

end Labels

variable {dg : Text → Text} {rootId : Text}

/-- Segments behind a separator that none of them contains. -/
theorem segments_inj {sep : Char} {a b : List Text} (ha : ∀ s ∈ a, sep ∉ s) (hb : ∀ s ∈ b, sep ∉ s)
    (h : (a.flatMap fun s => sep :: s) = b.flatMap fun s => sep :: s) : a = b := by
  induction a generalizing b with
  | nil =>
    cases b with
    | nil => rfl
    | cons t b => simp at h
  | cons s a ih =>
    cases b with
    | nil => simp at h
    | cons t b =>
      rw [List.flatMap_cons, List.flatMap_cons, List.cons_append, List.cons_append,
        List.cons.injEq] at h
      have hs := ha s (List.mem_cons_self ..)
      have ht := hb t (List.mem_cons_self ..)
      have htake : ∀ (u : Text) (rest : List Text), sep ∉ u →
          (u ++ rest.flatMap fun s => sep :: s).takeWhile (· ≠ sep) = u := by
        intro u rest hu
        have hall : ∀ c ∈ u, (decide (c ≠ sep)) = true := by
          intro c hc
          exact decide_eq_true fun h => hu (h ▸ hc)
        rw [List.takeWhile_append_of_pos hall]
        cases rest with
        | nil => simp
        | cons v rest => simp
      have hst : s = t := by
        rw [← htake s a hs, ← htake t b ht, h.2]
      subst hst
      rw [ih (fun u hu => ha u (List.mem_cons_of_mem _ hu))
        (fun u hu => hb u (List.mem_cons_of_mem _ hu)) (List.append_cancel_left h.2)]

theorem toDigits_injective {m n : ℕ} (h : Nat.toDigits 10 m = Nat.toDigits 10 n) : m = n := by
  rw [← @Nat.ofDigitChars_ten_toDigits m, h, Nat.ofDigitChars_ten_toDigits]

theorem label_inj (hdg : Digests dg) {key key' : ℕ × ℕ} {a b : List Text}
    (h : label dg rootId key a = label dg rootId key' b) : key = key' ∧ a = b := by
  have hsegments : ∀ (key : ℕ × ℕ) (a : List Text), label dg rootId key a =
      "file-".toList ++ rootId ++
        (Nat.toDigits 10 key.1 :: Nat.toDigits 10 key.2 :: a.map dg).flatMap
          fun s => '-' :: s := by
    intro key a
    unfold label baseId
    rw [List.append_assoc, List.append_assoc, List.append_assoc, List.flatMap_cons,
      List.flatMap_cons, List.flatMap_map]
    rfl
  have hplain : ∀ (key : ℕ × ℕ) (a : List Text),
      ∀ s ∈ Nat.toDigits 10 key.1 :: Nat.toDigits 10 key.2 :: a.map dg, '-' ∉ s := by
    intro key a s hs
    rcases List.mem_cons.mp hs with rfl | hs
    · exact Changes.dash_not_mem_digits key.1
    · rcases List.mem_cons.mp hs with rfl | hs
      · exact Changes.dash_not_mem_digits key.2
      · obtain ⟨path, _, rfl⟩ := List.mem_map.mp hs
        exact hdg.plain path
  rw [hsegments, hsegments] at h
  have hlist := segments_inj (hplain key a) (hplain key' b) (List.append_cancel_left h)
  rw [List.cons.injEq, List.cons.injEq] at hlist
  exact ⟨Prod.ext (toDigits_injective hlist.1) (toDigits_injective hlist.2.1),
    List.map_injective_iff.mpr hdg.injective hlist.2.2⟩

/-! Published runs, and runs that are being assigned. -/

/-- A published run. At most one row of an inode has a label that is not its own: rows get
such labels as the only ones of their inode. -/
structure Settled (dg : Text → Text) (rootId : Text) (run : Scanned) : Prop where
  complete : Complete run
  labelled : ∀ (q : Text) row id, run[q]? = some row → row.itemId = some id →
    ∃ origins, id = label dg rootId (inode row.data) origins
  distinct : ∀ p q key origins, Holds dg rootId run p key origins →
    Holds dg rootId run q key origins → p = q
  foreign : ∀ p q key a b, Holds dg rootId run p key a → Holds dg rootId run q key b →
    ¬Own p a → ¬Own q b → p = q

/-- A run on the way. Its rows keep what the policy keeps for them, and a new label is no label
of the prior run. -/
structure Stage (dg : Text → Text) (rootId : Text) (prior run t : Scanned) : Prop where
  data : data t = data run
  keeps : ∀ (q : Text) row id, t[q]? = some row →
    kept (identities prior) (rows run) q (inode row.data) = some id → row.itemId = some id
  fresh : ∀ (q : Text) row id, t[q]? = some row → row.itemId = some id →
    kept (identities prior) (rows run) q (inode row.data) = none →
    id ∉ idsOf prior ∧ ∃ origins, id = label dg rootId (inode row.data) origins ∧
      (Own q origins ∨ origins = [] ∧ sameInode run (inode row.data) = 1)
  distinct : ∀ (p q : Text) row row' id, t[p]? = some row → t[q]? = some row' →
    row.itemId = some id → row'.itemId = some id → p = q

theorem mem_idsOf {id : Text} :
    id ∈ idsOf run ↔ ∃ (q : Text) (row : Entry), run[q]? = some row ∧ row.itemId = some id := by
  rw [idsOf, List.mem_filterMap]
  constructor
  · rintro ⟨⟨q, row⟩, hmem, hid⟩
    exact ⟨q, row, Std.ExtTreeMap.mem_toList_iff_getElem?_eq_some.mp hmem, hid⟩
  · rintro ⟨q, row, hrow, hid⟩
    exact ⟨(q, row), Std.ExtTreeMap.mem_toList_iff_getElem?_eq_some.mpr hrow, hid⟩

theorem kept_some {id : Text} (h : kept (identities prior) (rows run) path key = some id) :
    (∃ row, prior[path]? = some row ∧ inode row.data = key ∧ row.itemId = some id) ∨
      sameInode run key = 1 ∧ ∃ (q : Text) (row : Entry), run[q]? = none ∧ prior[q]? = some row ∧
        inode row.data = key ∧ row.itemId = some id := by
  have hsource : ∀ {q : Text} {e : Identity}, (identities prior)[q]? = some e →
      ∃ row, prior[q]? = some row ∧ inode row.data = e.inode ∧ row.itemId = some e.itemId := by
    intro q e he
    rw [identities_get] at he
    obtain ⟨row, hrow, hmap⟩ := Option.bind_eq_some_iff.mp he
    obtain ⟨itemId, hid, rfl⟩ := Option.map_eq_some_iff.mp hmap
    exact ⟨row, hrow, rfl, hid⟩
  cases hexact : ((identities prior)[path]?).filter fun exact => exact.inode = key with
  | some e =>
    obtain ⟨he, hkey⟩ := Option.filter_eq_some_iff.mp hexact
    obtain ⟨row, hrow, hinode, hid⟩ := hsource he
    simp only [kept, hexact, Option.some.injEq] at h
    exact .inl ⟨row, hrow, hinode.trans (of_decide_eq_true hkey), h ▸ hid⟩
  | none =>
    obtain ⟨hcount, e, hlist, rfl⟩ := (kept_renamed hexact id).mp h
    have hmem : e ∈ oldByInode (rows run) (identities prior) key := by
      rw [hlist]
      exact List.mem_singleton_self e
    obtain ⟨q, hq, hgone, hkey⟩ := mem_oldByInode.mp hmem
    obtain ⟨row, hrow, hinode, hid⟩ := hsource hq
    refine .inr ⟨sameInode_eq run key ▸ hcount, q, row, ?_, hrow, hinode.trans hkey, hid⟩
    by_contra hne
    exact hgone (mem_rows_paths.mpr hne)

theorem kept_exact {id : Text} (hrow : prior[path]? = some row) (hid : row.itemId = some id) :
    kept (identities prior) (rows run) path (inode row.data) = some id := by
  simp only [kept, identities_get, hrow, Option.bind_some, hid, Option.map_some,
    Option.filter_some, decide_true, if_true]

theorem sameInode_one (hcount : sameInode run key = 1) {p q : Text} {row row' : Entry}
    (hp : run[p]? = some row) (hq : run[q]? = some row') (hkey : inode row.data = key)
    (hkey' : inode row'.data = key) : p = q := by
  rw [sameInode_eq] at hcount
  have hsame := inodeCount_one hcount (mem_rows.mpr ⟨row, hp, rfl⟩) (mem_rows.mpr ⟨row', hq, rfl⟩)
    hkey hkey'
  exact congrArg Prod.fst hsame

theorem Stage.found {t : Scanned} (h : Stage dg rootId prior run t) (hrow : t[q]? = some row) :
    ∃ found, run[q]? = some found ∧ inode found.data = inode row.data := by
  obtain ⟨found, hfound, hdata⟩ := row_exists h.data.symm hrow
  exact ⟨found, hfound, by rw [hdata]⟩

theorem Stage.same {t : Scanned} (h : Stage dg rootId prior run t) (key : ℕ × ℕ) :
    sameInode t key = sameInode run key := by
  rw [sameInode_eq, sameInode_eq, rows, rows, h.data]

/-- A label that a row without an identifier could get is only in use if the prior run has it. -/
theorem Stage.used_prior (hdg : Digests dg) {t : Scanned} (h : Stage dg rootId prior run t)
    (hrow : t[q]? = some row) (hnull : row.itemId = none)
    {origins : List Text} (horigins : ∀ origin ∈ origins, origin = q)
    (hused : label dg rootId (inode row.data) origins ∈ idsOf t) :
    label dg rootId (inode row.data) origins ∈ idsOf prior := by
  obtain ⟨p, holder, hholder, hid⟩ := mem_idsOf.mp hused
  have hne : p ≠ q := by
    rintro rfl
    rw [hrow] at hholder
    cases hholder
    rw [hnull] at hid
    cases hid
  cases hkept : kept (identities prior) (rows run) p (inode holder.data) with
  | some id =>
    have hsame := h.keeps p holder id hholder hkept
    rw [hid, Option.some.injEq] at hsame
    subst hsame
    rcases kept_some hkept with ⟨old, hold, _, holdid⟩ | ⟨_, p', old, _, hold, _, holdid⟩
    · exact mem_idsOf.mpr ⟨p, old, hold, holdid⟩
    · exact mem_idsOf.mpr ⟨p', old, hold, holdid⟩
  | none =>
    obtain ⟨_, given, hlabel, hown⟩ := h.fresh p holder _ hholder hid hkept
    obtain ⟨hkey, rfl⟩ := label_inj hdg hlabel
    exfalso
    rcases hown with (rfl | rfl) | ⟨rfl, hcount⟩
    · exact hne (horigins p (List.mem_cons_self ..))
    · exact hne (horigins p (List.mem_cons_self ..))
    · obtain ⟨found, hfound, hinode⟩ := h.found hholder
      obtain ⟨found', hfound', hinode'⟩ := h.found hrow
      exact hne (sameInode_one hcount hfound hfound' hinode (hinode'.trans hkey))

/-- The prior run uses at most one of the labels that a row could get. -/
theorem Stage.prior_once (hdg : Digests dg) (hprior : Settled dg rootId prior) {t : Scanned}
    (h : Stage dg rootId prior run t) (hrow : t[q]? = some row) (hnull : row.itemId = none)
    {a b : List Text} (ha : ∀ origin ∈ a, origin = q) (hb : ∀ origin ∈ b, origin = q)
    (hused : label dg rootId (inode row.data) a ∈ idsOf prior)
    (hused' : label dg rootId (inode row.data) b ∈ idsOf prior) : a = b := by
  have hholder : ∀ {origins}, (∀ origin ∈ origins, origin = q) →
      label dg rootId (inode row.data) origins ∈ idsOf prior →
      ∃ p, Holds dg rootId prior p (inode row.data) origins ∧ ¬Own p origins := by
    intro origins horigins hin
    obtain ⟨p, holder, hholder, hid⟩ := mem_idsOf.mp hin
    obtain ⟨given, hlabel⟩ := hprior.labelled p holder _ hholder hid
    obtain ⟨hkey, rfl⟩ := label_inj hdg hlabel
    refine ⟨p, ⟨holder, hholder, hkey.symm, hid⟩, ?_⟩
    intro hown
    have hp : p = q := by
      rcases hown with rfl | rfl
      · exact horigins p (List.mem_cons_self ..)
      · exact horigins p (List.mem_cons_self ..)
    subst hp
    have hexact : kept (identities prior) (rows run) p (inode row.data) =
        some (label dg rootId (inode row.data) origins) := by
      rw [hkey] at hid ⊢
      exact kept_exact hholder hid
    have hkept := h.keeps p row _ hrow hexact
    rw [hnull] at hkept
    cases hkept
  obtain ⟨p, hp, hforeign⟩ := hholder ha hused
  obtain ⟨p', hp', hforeign'⟩ := hholder hb hused'
  obtain rfl := hprior.foreign p p' _ a b hp hp' hforeign hforeign'
  obtain ⟨holder, hholder, _, hid⟩ := hp
  obtain ⟨holder', hholder', _, hid'⟩ := hp'
  rw [hholder] at hholder'
  cases hholder'
  rw [hid, Option.some.injEq] at hid'
  exact (label_inj hdg hid').2

theorem label_append (key : ℕ × ℕ) (origins : List Text) (path : Text) :
    label dg rootId key origins ++ '-' :: dg path = label dg rootId key (origins ++ [path]) := by
  simp [label]

/-- A new identifier is a label that neither this run nor the prior one uses. -/
theorem Stage.newItemId_label (hdg : Digests dg) (hprior : Settled dg rootId prior) {t : Scanned}
    (h : Stage dg rootId prior run t) (hrow : t[q]? = some row) (hnull : row.itemId = none)
    {used : List Text} (hused : candidate dg rootId t q row ∈ used ↔
      candidate dg rootId t q row ∈ idsOf t ∨ candidate dg rootId t q row ∈ idsOf prior) :
    ∃ origins, newItemId dg rootId used t q row = label dg rootId (inode row.data) origins ∧
      (Own q origins ∨ origins = [] ∧ sameInode run (inode row.data) = 1) ∧
      newItemId dg rootId used t q row ∉ idsOf t ∧
      newItemId dg rootId used t q row ∉ idsOf prior := by
  obtain ⟨origins, horigins, hcandidate, hshape⟩ : ∃ origins, (∀ origin ∈ origins, origin = q) ∧
      candidate dg rootId t q row = label dg rootId (inode row.data) origins ∧
      (origins = [q] ∨ origins = [] ∧ sameInode run (inode row.data) = 1) := by
    rw [candidate, h.same]
    split
    · exact ⟨[q], by simp, by simp [label], .inl rfl⟩
    · rename_i hone
      obtain ⟨found, hfound, hinode⟩ := h.found hrow
      have hpos : 0 < sameInode run (inode row.data) := by
        rw [sameInode_eq, inodeCount, List.countP_pos_iff]
        exact ⟨(q, found.data), mem_rows.mpr ⟨found, hfound, rfl⟩, decide_eq_true hinode⟩
      exact ⟨[], by simp, by simp [label], .inr ⟨rfl, by omega⟩⟩
  have hmore : ∀ origin ∈ origins ++ [q], origin = q := by
    intro origin hin
    rcases List.mem_append.mp hin with hin | hin
    · exact horigins origin hin
    · exact List.mem_singleton.mp hin
  rw [hcandidate] at hused
  rw [newItemId, hcandidate, label_append]
  by_cases hin : label dg rootId (inode row.data) origins ∈ used
  · have htaken : label dg rootId (inode row.data) origins ∈ idsOf prior :=
      (hused.mp hin).elim (h.used_prior hdg hrow hnull horigins) fun hprior => hprior
    have hfree : label dg rootId (inode row.data) (origins ++ [q]) ∉ idsOf prior := by
      intro htwice
      have hsame := h.prior_once hdg hprior hrow hnull horigins hmore htaken htwice
      simp at hsame
    rw [if_pos hin]
    refine ⟨origins ++ [q], rfl, .inl ?_, ?_, hfree⟩
    · rcases hshape with rfl | ⟨rfl, _⟩
      · exact .inr rfl
      · exact .inl rfl
    · exact fun hin => hfree (h.used_prior hdg hrow hnull hmore hin)
  · rw [hused, not_or] at hin
    rw [if_neg (by rw [hused, not_or]; exact hin)]
    refine ⟨origins, rfl, ?_, hin.1, hin.2⟩
    rcases hshape with rfl | hbase
    · exact .inl (.inl rfl)
    · exact .inr hbase

/-! The second loop. -/

section Rest

variable (hdg : Digests dg) (hprior : Settled dg rootId prior) {t : Scanned}
  (h : Stage dg rootId prior run t) {batch : List Text} (hbatch : batch.Nodup)

/-- The identifiers a batch finds in use among its candidates. -/
def usedBy (dg : Text → Text) (rootId : Text) (prior t : Scanned) (batch : List Text) : List Text :=
  usedIds [] (some prior) t
    (batch.filterMap fun path => (t[path]?).map (candidate dg rootId t path))

theorem mem_usedBy (hq : q ∈ batch) (hrow : t[q]? = some row) :
    candidate dg rootId t q row ∈ usedBy dg rootId prior t batch ↔
      candidate dg rootId t q row ∈ idsOf t ∨ candidate dg rootId t q row ∈ idsOf prior := by
  have hin : candidate dg rootId t q row ∈
      batch.filterMap fun path => (t[path]?).map (candidate dg rootId t path) :=
    List.mem_filterMap.mpr ⟨q, hq, by rw [hrow, Option.map_some]⟩
  rw [usedBy, usedIds, List.nil_append, List.mem_filter, decide_eq_true_eq, Option.map_some,
    Option.getD_some, List.mem_append]
  exact ⟨fun h => h.1, fun h => ⟨h, hin⟩⟩

include hbatch in
theorem assignBatch_get (t : Scanned) (q : Text) :
    data (assignBatch dg rootId [] (some prior) t batch) = data t ∧
    (assignBatch dg rootId [] (some prior) t batch)[q]? =
      if q ∈ batch then (t[q]?).map fun row => { row with
        itemId := some (newItemId dg rootId (usedBy dg rootId prior t batch) t q row) }
      else t[q]? :=
  foldl_setId (fun _ _ _ _ _ => rfl) hbatch t q

include hdg hprior h hbatch in
/-- A batch of rows without identifiers gets new and distinct ones. -/
theorem Stage.assign
    (hnull : ∀ q ∈ batch, ∃ row, t[q]? = some row ∧ row.itemId = none) :
    Stage dg rootId prior run (assignBatch dg rootId [] (some prior) t batch) := by
  have hrow : ∀ {q : Text} {row : Entry},
      (assignBatch dg rootId [] (some prior) t batch)[q]? = some row →
      (q ∉ batch ∧ t[q]? = some row) ∨ q ∈ batch ∧ ∃ old, t[q]? = some old ∧ old.itemId = none ∧
        row = { old with
          itemId := some (newItemId dg rootId (usedBy dg rootId prior t batch) t q old) } := by
    intro q row hget
    rw [(assignBatch_get hbatch t q).2] at hget
    split at hget
    · rename_i hq
      obtain ⟨old, hold, hid⟩ := hnull q hq
      rw [hold, Option.map_some, Option.some.injEq] at hget
      exact .inr ⟨hq, old, hold, hid, hget.symm⟩
    · rename_i hq
      exact .inl ⟨hq, hget⟩
  have hnew : ∀ {q : Text} {old : Entry}, q ∈ batch → t[q]? = some old → old.itemId = none →
      ∃ origins, newItemId dg rootId (usedBy dg rootId prior t batch) t q old =
          label dg rootId (inode old.data) origins ∧
        (Own q origins ∨ origins = [] ∧ sameInode run (inode old.data) = 1) ∧
        newItemId dg rootId (usedBy dg rootId prior t batch) t q old ∉ idsOf t ∧
        newItemId dg rootId (usedBy dg rootId prior t batch) t q old ∉ idsOf prior :=
    fun hq hold hid => h.newItemId_label hdg hprior hold hid (mem_usedBy hq hold)
  constructor
  · exact (assignBatch_get hbatch t []).1.trans h.data
  · intro q row id hget hkept
    rcases hrow hget with ⟨_, hold⟩ | ⟨_, old, hold, hid, rfl⟩
    · exact h.keeps q row id hold hkept
    · have := h.keeps q old id hold hkept
      rw [hid] at this
      cases this
  · intro q row id hget hid hkept
    rcases hrow hget with ⟨_, hold⟩ | ⟨hq, old, hold, hnone, rfl⟩
    · exact h.fresh q row id hold hid hkept
    · obtain ⟨origins, hlabel, hshape, _, hfree⟩ := hnew hq hold hnone
      rw [Option.some.injEq] at hid
      exact ⟨hid ▸ hfree, origins, hid ▸ hlabel, hshape⟩
  · intro p q row row' id hp hq hid hid'
    rcases hrow hp with ⟨_, hold⟩ | ⟨hpin, old, hold, hnone, rfl⟩
    · rcases hrow hq with ⟨_, hold'⟩ | ⟨hqin, old', hold', hnone', rfl⟩
      · exact h.distinct p q row row' id hold hold' hid hid'
      · obtain ⟨_, _, _, hfree, _⟩ := hnew hqin hold' hnone'
        rw [Option.some.injEq] at hid'
        exact absurd (mem_idsOf.mpr ⟨p, row, hold, hid⟩) (hid' ▸ hfree)
    · rcases hrow hq with ⟨_, hold'⟩ | ⟨hqin, old', hold', hnone', rfl⟩
      · obtain ⟨_, _, _, hfree, _⟩ := hnew hpin hold hnone
        rw [Option.some.injEq] at hid
        exact absurd (mem_idsOf.mpr ⟨q, row', hold', hid'⟩) (hid ▸ hfree)
      · obtain ⟨a, hlabel, hshape, _, _⟩ := hnew hpin hold hnone
        obtain ⟨b, hlabel', hshape', _, _⟩ := hnew hqin hold' hnone'
        rw [Option.some.injEq] at hid hid'
        rw [hlabel] at hid
        rw [hlabel', ← hid] at hid'
        obtain ⟨hkey, rfl⟩ := label_inj hdg hid'
        obtain ⟨found, hfound, hinode⟩ := h.found hold
        obtain ⟨found', hfound', hinode'⟩ := h.found hold'
        rcases hshape with hown | ⟨_, hcount⟩
        · rcases hshape' with hown' | ⟨_, hcount⟩
          · rcases hown with rfl | rfl
            · rcases hown' with heq | heq
              · exact (List.cons.inj heq).1
              · exact (List.cons.inj heq).1
            · rcases hown' with heq | heq
              · exact (List.cons.inj heq).1
              · exact (List.cons.inj heq).1
          · exact sameInode_one hcount hfound hfound' (hinode.trans hkey.symm) hinode'
        · exact sameInode_one hcount hfound hfound' hinode (hinode'.trans hkey)

end Rest

/-- The rows up to `last` have identifiers. -/
def Assigned (dg : Text → Text) (rootId : Text) (prior run : Scanned) (last : Text)
    (t : Scanned) : Prop :=
  Stage dg rootId prior run t ∧ ∀ q ∈ paths (·.itemId = none) t, last < q

theorem assignBatch_null (last : Text) (t : Scanned) : ∀ q ∈ paths (·.itemId = none)
      (assignBatch dg rootId [] (some prior) t
        (page writeBatchSize last (paths (·.itemId = none) t))),
    q ∈ paths (·.itemId = none) t ∧
      q ∉ page writeBatchSize last (paths (·.itemId = none) t) := by
  intro q hq
  obtain ⟨row, hrow, hnone⟩ := mem_paths.mp hq
  rw [(assignBatch_get (page_nodup (paths_sorted _ t)) t q).2] at hrow
  split at hrow
  · obtain ⟨old, _, rfl⟩ := Option.map_eq_some_iff.mp hrow
    simp at hnone
  · rename_i hout
    exact ⟨mem_paths.mpr ⟨row, hrow, hnone⟩, hout⟩

theorem Assigned.turn (hdg : Digests dg) (hprior : Settled dg rootId prior) {last top : Text}
    {t : Scanned} (h : Assigned dg rootId prior run last t)
    (htop : (page writeBatchSize last (paths (·.itemId = none) t)).getLast? = some top) :
    Assigned dg rootId prior run top (assignBatch dg rootId [] (some prior) t
      (page writeBatchSize last (paths (·.itemId = none) t))) := by
  have hsorted := paths_sorted (·.itemId = none) t
  obtain ⟨_, _, hall⟩ := page_top hsorted htop
  constructor
  · apply h.1.assign hdg hprior (page_nodup hsorted)
    intro q hq
    obtain ⟨row, hrow, hnone⟩ := mem_paths.mp (mem_page hq).1
    exact ⟨row, hrow, of_decide_eq_true hnone⟩
  · intro q hq
    obtain ⟨hin, hout⟩ := assignBatch_null last t q hq
    by_contra htop
    exact hout (hall q hin (h.2 q hin) (not_lt.mp htop))

/-- The second loop leaves no row without an identifier. -/
theorem assignNew_total (hdg : Digests dg) (hprior : Settled dg rootId prior) {t : Scanned}
    (h : Stage dg rootId prior run t) (hnamed : run[([] : Text)]? = none) {fuel : ℕ}
    (hfuel : (rows run).length < fuel) : ∃ final,
      assignNew dg rootId [] (some prior) fuel t = some final ∧ Stage dg rootId prior run final ∧
        Complete final := by
  have hstart : Assigned dg rootId prior run [] t := by
    refine ⟨h, fun q hq => ?_⟩
    obtain ⟨row, hrow, _⟩ := mem_paths.mp hq
    obtain ⟨found, hfound, _⟩ := h.found hrow
    cases q with
    | nil =>
      rw [hnamed] at hfound
      cases hfound
    | cons c q => exact List.nil_lt_cons c q
  have hahead : ahead [] (paths (·.itemId = none) t) < fuel := by
    refine lt_of_le_of_lt (List.length_filter_le ..) ?_
    rw [← show rows t = rows run by rw [rows, rows, h.data], rows_eq, List.length_map] at hfuel
    rw [paths, List.length_map]
    exact lt_of_le_of_lt (List.length_filter_le ..) hfuel
  obtain ⟨last, final, hsweep, ⟨hstage, hafter⟩, hdone⟩ := sweep_total
    (by decide) (paths_sorted (·.itemId = none))
    (fun last s _ _ _ q hq => (assignBatch_null last s q hq).1)
    (fun last s hs top htop => Assigned.turn hdg hprior hs htop) hstart hahead
  refine ⟨final, hsweep, hstage, ?_⟩
  intro q row hrow
  cases hid : row.itemId with
  | some id => exact ⟨id, rfl⟩
  | none =>
    have hq : q ∈ paths (·.itemId = none) final := mem_paths.mpr ⟨row, hrow, decide_eq_true hid⟩
    exact absurd (hafter q hq) (not_lt.mpr (hdone q hq))

theorem Settled.same (hdg : Digests dg) (h : Settled dg rootId prior) {p q : Text}
    {row row' : Entry} {id : Text} (hp : prior[p]? = some row) (hq : prior[q]? = some row')
    (hid : row.itemId = some id) (hid' : row'.itemId = some id) : p = q := by
  obtain ⟨a, rfl⟩ := h.labelled p row id hp hid
  obtain ⟨b, hb⟩ := h.labelled q row' _ hq hid'
  obtain ⟨hkey, rfl⟩ := label_inj hdg hb
  exact h.distinct p q _ a ⟨row, hp, rfl, hid⟩ ⟨row', hq, hkey.symm, hid'⟩

theorem kept_inj (hdg : Digests dg) (h : Settled dg rootId prior) {p q : Text} {row row' : Entry}
    {id : Text} (hp : run[p]? = some row) (hq : run[q]? = some row')
    (hkept : kept (identities prior) (rows run) p (inode row.data) = some id)
    (hkept' : kept (identities prior) (rows run) q (inode row'.data) = some id) : p = q := by
  rcases kept_some hkept with ⟨a, ha, _, hid⟩ | ⟨hcount, p', a, hgone, ha, hkey, hid⟩
  · rcases kept_some hkept' with ⟨b, hb, _, hid'⟩ | ⟨_, q', b, hgone, hb, _, hid'⟩
    · exact h.same hdg ha hb hid hid'
    · obtain rfl := h.same hdg ha hb hid hid'
      rw [hp] at hgone
      cases hgone
  · rcases kept_some hkept' with ⟨b, hb, _, hid'⟩ | ⟨_, q', b, _, hb, hkey', hid'⟩
    · obtain rfl := h.same hdg ha hb hid hid'
      rw [hq] at hgone
      cases hgone
    · obtain rfl := h.same hdg ha hb hid hid'
      rw [ha] at hb
      cases hb
      exact sameInode_one hcount hp hq rfl (hkey'.symm.trans hkey)

theorem stage_start (hdg : Digests dg) (hprior : Settled dg rootId prior) {t : Scanned}
    (hdata : data t = data run) (hget : ∀ q : Text, t[q]? = (run[q]?).map fun row =>
      { row with itemId := kept (identities prior) (rows run) q (inode row.data) }) :
    Stage dg rootId prior run t := by
  have hrow : ∀ {q : Text} {row : Entry}, t[q]? = some row → ∃ found, run[q]? = some found ∧
      found.data = row.data ∧
      row.itemId = kept (identities prior) (rows run) q (inode row.data) := by
    intro q row hq
    rw [hget] at hq
    obtain ⟨found, hfound, rfl⟩ := Option.map_eq_some_iff.mp hq
    exact ⟨found, hfound, rfl, rfl⟩
  constructor
  · exact hdata
  · intro q row id hq hkept
    obtain ⟨_, _, _, hid⟩ := hrow hq
    rw [hid, hkept]
  · intro q row id hq hid hkept
    obtain ⟨_, _, _, hsame⟩ := hrow hq
    rw [hid, hkept] at hsame
    cases hsame
  · intro p q row row' id hp hq hid hid'
    obtain ⟨found, hfound, hdata, hsame⟩ := hrow hp
    obtain ⟨found', hfound', hdata', hsame'⟩ := hrow hq
    rw [hid, ← hdata] at hsame
    rw [hid', ← hdata'] at hsame'
    exact kept_inj hdg hprior hfound hfound' hsame.symm hsame'.symm

/-- A run that has all its identifiers can be published. -/
theorem Stage.settled (hdg : Digests dg) (hprior : Settled dg rootId prior) {t : Scanned}
    (h : Stage dg rootId prior run t) (hcomplete : Complete t) : Settled dg rootId t := by
  -- A label that is not the row's own was kept at its path, or its row is the only one.
  have hsource : ∀ {q key origins}, Holds dg rootId t q key origins → ¬Own q origins →
      Holds dg rootId prior q key origins ∨ sameInode run key = 1 := by
    rintro q key origins ⟨row, hrow, rfl, hid⟩ hforeign
    cases hkept : kept (identities prior) (rows run) q (inode row.data) with
    | some id =>
      have hsame := h.keeps q row id hrow hkept
      rw [hid, Option.some.injEq] at hsame
      subst hsame
      rcases kept_some hkept with ⟨old, hold, hkey, holdid⟩ | ⟨hcount, _⟩
      · exact .inl ⟨old, hold, hkey, holdid⟩
      · exact .inr hcount
    | none =>
      obtain ⟨_, given, hlabel, hown⟩ := h.fresh q row _ hrow hid hkept
      obtain ⟨_, rfl⟩ := label_inj hdg hlabel
      rcases hown with hown | ⟨_, hcount⟩
      · exact absurd hown hforeign
      · exact .inr hcount
  constructor
  · exact hcomplete
  · intro q row id hrow hid
    cases hkept : kept (identities prior) (rows run) q (inode row.data) with
    | some id' =>
      have hsame := h.keeps q row id' hrow hkept
      rw [hid, Option.some.injEq] at hsame
      subst hsame
      rcases kept_some hkept with ⟨old, hold, hkey, holdid⟩ | ⟨_, p, old, _, hold, hkey, holdid⟩
      · rw [← hkey]
        exact hprior.labelled q old id hold holdid
      · rw [← hkey]
        exact hprior.labelled p old id hold holdid
    | none =>
      obtain ⟨_, origins, hlabel, _⟩ := h.fresh q row id hrow hid hkept
      exact ⟨origins, hlabel⟩
  · rintro p q key origins ⟨row, hp, _, hid⟩ ⟨row', hq, _, hid'⟩
    exact h.distinct p q row row' _ hp hq hid hid'
  · intro p q key a b hp hq hforeign hforeign'
    have hone : sameInode run key = 1 → p = q := by
      intro hcount
      obtain ⟨row, hrow, hkey, _⟩ := hp
      obtain ⟨row', hrow', hkey', _⟩ := hq
      obtain ⟨found, hfound, hinode⟩ := h.found hrow
      obtain ⟨found', hfound', hinode'⟩ := h.found hrow'
      exact sameInode_one hcount hfound hfound' (hinode.trans hkey) (hinode'.trans hkey')
    rcases hsource hp hforeign with hold | hcount
    · rcases hsource hq hforeign' with hold' | hcount
      · exact hprior.foreign p q key a b hold hold' hforeign hforeign'
      · exact hone hcount
    · exact hone hcount

/-! Histories of scans. -/

/-- The rows of all runs and the index of a root. -/
structure Archive where
  entries : Table Scanned
  index : Option Index

/-- The scans of a root that starts without an index. Only a run that is not the published one
is staged, stopped, failed or discarded. -/
inductive History (dg : Text → Text) (rootId : Text) : Archive → Prop where
  | start (entries : Table Scanned) : History dg rootId ⟨entries, none⟩
  | staged {s : Archive} (runId : Text) (run : Scanned) : History dg rootId s →
      s.index ≠ some (.sqlite runId) →
      History dg rootId { s with entries := s.entries.insert runId run }
  | discarded {s : Archive} (runId : Text) : History dg rootId s →
      s.index ≠ some (.sqlite runId) →
      History dg rootId { s with entries := s.entries.erase runId }
  | published {s : Archive} {runId : Text} {staged run : Scanned} {fuel : ℕ} :
      History dg rootId s → s.index ≠ some (.sqlite runId) → s.entries[runId]? = some staged →
      Unassigned staged → (rows staged).length < fuel →
      assignIds dg rootId s.entries s.index fuel staged = some run →
      History dg rootId ⟨s.entries.insert runId run, some (.sqlite runId)⟩

def Archive.published (s : Archive) : Scanned :=
  match s.index with
  | some (.sqlite runId) => (s.entries[runId]?).getD ∅
  | _ => ∅

theorem settled_empty : Settled dg rootId ∅ := by
  constructor
  · intro path row hrow
    simp at hrow
  · intro q row id hrow
    simp at hrow
  · rintro p q key origins ⟨row, hrow, _⟩
    simp at hrow
  · rintro p q key a b ⟨row, hrow, _⟩
    simp at hrow

variable (rootId) in
theorem stage_unassigned (hrun : Unassigned run) : Stage dg rootId ∅ run run := by
  constructor
  · rfl
  · intro q row id hrow hkept
    rcases kept_some hkept with ⟨old, hold, _⟩ | ⟨_, p, old, _, hold, _⟩
    · simp at hold
    · simp at hold
  · intro q row id hrow hid
    rw [hrun.free q row hrow] at hid
    cases hid
  · intro p q row row' id hp _ hid
    rw [hrun.free p row hp] at hid
    cases hid

theorem assignNew_first (fuel : ℕ) (run : Scanned) :
    assignNew dg rootId [] none fuel run = assignNew dg rootId [] (some ∅) fuel run := by
  have hbatch : assignBatch dg rootId [] none = assignBatch dg rootId [] (some ∅) := by
    have hnone : idsOf ∅ = [] := by
      apply List.eq_nil_iff_forall_not_mem.mpr
      intro id hid
      obtain ⟨q, row, hrow, _⟩ := mem_idsOf.mp hid
      simp at hrow
    funext run batch
    simp [assignBatch, usedIds, hnone]
  rw [assignNew, hbatch, assignNew]

theorem assignIds_total (hdg : Digests dg) {s : Archive}
    (hindex : s.index = none ∨ ∃ runId, s.index = some (.sqlite runId))
    (hprior : Settled dg rootId s.published) (hrun : Unassigned run) {fuel : ℕ}
    (hfuel : (rows run).length < fuel) : ∃ t,
      assignIds dg rootId s.entries s.index fuel run = some t ∧
        Stage dg rootId s.published run t ∧ Complete t := by
  rcases hindex with hindex | ⟨runId, hindex⟩
  · obtain ⟨t, ht, hstage, hcomplete⟩ := assignNew_total hdg settled_empty
      (stage_unassigned rootId hrun) hrun.named hfuel
    refine ⟨t, ?_, ?_, hcomplete⟩
    · simp only [assignIds, hindex, assignNew_first]
      exact ht
    · rw [Archive.published, hindex]
      exact hstage
  · obtain ⟨u, hu, hdata, hget⟩ := reconcile_total hprior.complete hrun hfuel
    obtain ⟨t, ht, hstage, hcomplete⟩ := assignNew_total hdg hprior
      (stage_start hdg hprior hdata hget) hrun.named hfuel
    refine ⟨t, ?_, hstage, hcomplete⟩
    rw [Archive.published, hindex] at hu ht
    simp only [assignIds, hindex]
    dsimp only at hu ht
    rw [hu, Option.bind_some, ht]

theorem history_settled (hdg : Digests dg) {s : Archive} (h : History dg rootId s) :
    (s.index = none ∨ ∃ runId, s.index = some (.sqlite runId)) ∧ Settled dg rootId s.published := by
  induction h with
  | start entries => exact ⟨.inl rfl, settled_empty⟩
  | @staged s runId run _ hother ih =>
    refine ⟨ih.1, ?_⟩
    rcases ih.1 with hindex | ⟨published, hindex⟩
    · rw [Archive.published, hindex]
      exact settled_empty
    · have hne : runId ≠ published := by
        rintro rfl
        exact hother hindex
      have hsame := ih.2
      rw [Archive.published, hindex] at hsame ⊢
      simpa [hne] using hsame
  | @discarded s runId _ hother ih =>
    refine ⟨ih.1, ?_⟩
    rcases ih.1 with hindex | ⟨published, hindex⟩
    · rw [Archive.published, hindex]
      exact settled_empty
    · have hne : runId ≠ published := by
        rintro rfl
        exact hother hindex
      have hsame := ih.2
      rw [Archive.published, hindex] at hsame ⊢
      simpa [hne] using hsame
  | @published s runId staged run fuel _ _ _ hrun hfuel hassign ih =>
    obtain ⟨t, ht, hstage, hcomplete⟩ := assignIds_total hdg ih.1 ih.2 hrun hfuel
    rw [hassign] at ht
    cases ht
    refine ⟨.inr ⟨runId, rfl⟩, ?_⟩
    simpa [Archive.published] using hstage.settled hdg ih.2 hcomplete

/-- The row of the prior run whose identifier a row may keep: at the same path with the same
inode, or the only one of the inode whose path has vanished, for the only row of the inode. -/
def Follows (prior run : Scanned) (path : Text) (key : ℕ × ℕ) (q : Text) (old : Entry) : Prop :=
  q = path ∧ inode old.data = key ∨
    (∀ e, prior[path]? = some e → inode e.data ≠ key) ∧ sameInode run key = 1 ∧
      departed prior run key = [(q, old)]

theorem kept_follows (hdg : Digests dg) (hprior : Settled dg rootId prior) {old : Entry} {id : Text}
    (hold : prior[q]? = some old) (hid : old.itemId = some id) :
    kept (identities prior) (rows run) path key = some id ↔ Follows prior run path key q old := by
  by_cases hexact : ∃ e, prior[path]? = some e ∧ inode e.data = key
  · obtain ⟨e, he, rfl⟩ := hexact
    obtain ⟨given, hgiven⟩ := hprior.complete path e he
    rw [kept_exact he hgiven, Option.some.injEq]
    constructor
    · rintro rfl
      obtain rfl := hprior.same hdg hold he hid hgiven
      rw [hold] at he
      cases he
      exact .inl ⟨rfl, rfl⟩
    · rintro (⟨rfl, _⟩ | ⟨hnone, _⟩)
      · rw [hold] at he
        cases he
        rw [hid, Option.some.injEq] at hgiven
        exact hgiven.symm
      · exact absurd rfl (hnone e he)
  · have hfilter : ((identities prior)[path]?).filter (fun exact => exact.inode = key) = none := by
      rw [Option.filter_eq_none_iff, identities_get]
      intro e he
      obtain ⟨row, hrow, hmap⟩ := Option.bind_eq_some_iff.mp he
      obtain ⟨_, _, rfl⟩ := Option.map_eq_some_iff.mp hmap
      rw [decide_eq_true_eq]
      exact fun hkey => hexact ⟨row, hrow, hkey⟩
    rw [kept_renamed hfilter, ← renamed_eq hprior.complete]
    constructor
    · rintro ⟨hcount, hlength, hhead⟩
      obtain ⟨only, honly⟩ := List.length_eq_one_iff.mp hlength
      rw [honly, List.head?_cons, Option.bind_some] at hhead
      have hmem : only ∈ departed prior run key := by
        rw [honly]
        exact List.mem_singleton_self only
      rw [departed, List.mem_filter] at hmem
      have hget := Std.ExtTreeMap.mem_toList_iff_getElem?_eq_some.mp hmem.1
      have hq : only.1 = q := hprior.same hdg hget hold hhead hid
      rw [hq, hold, Option.some.injEq] at hget
      exact .inr ⟨fun e he hkey => hexact ⟨e, he, hkey⟩, hcount, by rw [honly, ← hq, hget]⟩
    · rintro (⟨rfl, hkey⟩ | ⟨_, hcount, honly⟩)
      · exact absurd ⟨old, hold, hkey⟩ hexact
      · rw [honly]
        exact ⟨hcount, rfl, hid⟩

/-- Every scan ends with distinct identifiers for all its rows. A row has one of the published
run exactly if `_entry_ids` keeps it for the two listings, and then its inode is the same. -/
theorem large_scan_identities (hdg : Digests dg) {s : Archive} (h : History dg rootId s)
    {staged : Scanned} (hstaged : Unassigned staged) {fuel : ℕ}
    (hfuel : (rows staged).length < fuel) : ∃ run,
      assignIds dg rootId s.entries s.index fuel staged = some run ∧ data run = data staged ∧
      (∀ (path : Text) row, run[path]? = some row → row.itemId ≠ none) ∧
      (∀ (p q : Text) row row', run[p]? = some row → run[q]? = some row' →
        row.itemId = row'.itemId → p = q) ∧
      ∀ (q : Text) old id, s.published[q]? = some old → old.itemId = some id →
        ∀ (path : Text) row, run[path]? = some row →
          (∀ hex, Fresh (rows staged) (identities s.published) [] hex → (row.itemId = some id ↔
            (path, id) ∈ entryIds rootId (rows staged) (identities s.published) hex [])) ∧
          (row.itemId = some id ↔ Follows s.published staged path (inode row.data) q old) ∧
          (row.itemId = some id → inode row.data = inode old.data) := by
  obtain ⟨hindex, hprior⟩ := history_settled hdg h
  obtain ⟨run, hrun, hstage, hcomplete⟩ := assignIds_total hdg hindex hprior hstaged hfuel
  refine ⟨run, hrun, hstage.data, ?_, ?_, ?_⟩
  · intro path row hrow hnone
    obtain ⟨id, hid⟩ := hcomplete path row hrow
    rw [hnone] at hid
    cases hid
  · intro p q row row' hp hq hsame
    obtain ⟨id, hid⟩ := hcomplete p row hp
    exact hstage.distinct p q row row' id hp hq hid (hsame ▸ hid)
  · intro q old id hold hid path row hrow
    have hkept : row.itemId = some id ↔
        kept (identities s.published) (rows staged) path (inode row.data) = some id := by
      constructor
      · intro hrowid
        cases hkept : kept (identities s.published) (rows staged) path (inode row.data) with
        | some other => rw [← hrowid, hstage.keeps path row other hrow hkept]
        | none =>
          exact absurd (mem_idsOf.mpr ⟨q, old, hold, hid⟩)
            (hstage.fresh path row id hrow hrowid hkept).1
      · exact hstage.keeps path row id hrow
    have hdistinct : Distinct (identities s.published) := by
      intro a b e f ha hb hsame
      rw [identities_get] at ha hb
      obtain ⟨ra, hra, hmap⟩ := Option.bind_eq_some_iff.mp ha
      obtain ⟨ida, hida, rfl⟩ := Option.map_eq_some_iff.mp hmap
      obtain ⟨rb, hrb, hmap'⟩ := Option.bind_eq_some_iff.mp hb
      obtain ⟨idb, hidb, rfl⟩ := Option.map_eq_some_iff.mp hmap'
      obtain rfl : ida = idb := hsame
      exact hprior.same hdg hra hrb hida hidb
    refine ⟨?_, ?_, ?_⟩
    · intro hex hfresh
      obtain ⟨found, hfound, hdata⟩ := row_exists hstage.data.symm hrow
      have hin : (path, row.data) ∈ rows staged := mem_rows.mpr ⟨found, hfound, hdata⟩
      have hold : id ∈ oldIds (identities s.published) :=
        mem_oldIds.mpr ⟨q, ⟨id, inode old.data⟩, by simp [identities_get, hold, hid], rfl⟩
      rw [hkept]
      exact (entryIds_kept hdistinct hfresh (rows_nodup staged) hin hold).symm
    · rw [hkept]
      exact kept_follows hdg hprior hold hid
    · intro hrowid
      rcases kept_some (hkept.mp hrowid) with
        ⟨old', hold', hkey, hid'⟩ | ⟨_, p, old', _, hold', hkey, hid'⟩
      · obtain rfl := hprior.same hdg hold hold' hid hid'
        rw [hold] at hold'
        cases hold'
        exact hkey.symm
      · obtain rfl := hprior.same hdg hold hold' hid hid'
        rw [hold] at hold'
        cases hold'
        exact hkey.symm

/-- A digest without collisions, for concrete runs. -/
def unary (path : Text) : Text := path.flatMap fun c => 'b' :: List.replicate c.toNat 'a'

theorem unary_digests : Digests unary where
  injective := by
    intro p q h
    have hsegments : ∀ path : Text, unary path =
        (path.map fun c => List.replicate c.toNat 'a').flatMap fun s => 'b' :: s := by
      intro path
      rw [unary, List.flatMap_map]
    have hplain : ∀ path : Text, ∀ s ∈ path.map fun c => List.replicate c.toNat 'a', 'b' ∉ s := by
      intro path s hs
      obtain ⟨c, _, rfl⟩ := List.mem_map.mp hs
      simp
    rw [hsegments, hsegments] at h
    have hinj : Function.Injective fun c : Char => List.replicate c.toNat 'a' := by
      intro c d hcd
      have hlength := congrArg List.length hcd
      rw [List.length_replicate, List.length_replicate] at hlength
      exact Char.toNat_inj.mp hlength
    exact List.map_injective_iff.mpr hinj (segments_inj (hplain p) (hplain q) h)
  plain := by
    intro path hmem
    obtain ⟨c, _, hc⟩ := List.mem_flatMap.mp hmem
    simp at hc

def onlyFile (path : Text) : Scanned := (∅ : Scanned).insert path ⟨⟨1, 2, 0, 0⟩, none⟩

theorem onlyFile_unassigned (c : Char) : Unassigned (onlyFile [c]) := by
  constructor
  · simp [onlyFile]
  · intro path row hrow
    simp only [onlyFile, get_put] at hrow
    split at hrow
    · cases hrow
      rfl
    · simp at hrow

/-- A scan after a published one that has found the file elsewhere. -/
theorem large_scan_identities_again : ∃ s run, History unary ['r'] s ∧
    s.index = some (.sqlite ['1']) ∧
    assignIds unary ['r'] s.entries s.index 2 (onlyFile ['b']) = some run ∧
    ∀ (path : Text) row, run[path]? = some row → row.itemId ≠ none := by
  have hlength : ∀ c, (rows (onlyFile [c])).length < 2 := by
    intro c
    rw [rows_eq, List.length_map, Std.ExtTreeMap.length_toList]
    simp [onlyFile, Std.ExtTreeMap.size_insert]
  have hstart : History unary ['r'] ⟨(∅ : Table Scanned).insert ['1'] (onlyFile ['a']), none⟩ :=
    .start _
  obtain ⟨first, hfirst, _⟩ := large_scan_identities unary_digests hstart
    (onlyFile_unassigned 'a') (hlength 'a')
  have hstaged : ((∅ : Table Scanned).insert ['1'] (onlyFile ['a']))[['1']]? =
      some (onlyFile ['a']) := by simp
  have hpublished := History.published hstart (by simp) hstaged (onlyFile_unassigned 'a')
    (hlength 'a') hfirst
  obtain ⟨run, hrun, _, hids, _⟩ := large_scan_identities unary_digests hpublished
    (onlyFile_unassigned 'b') (hlength 'b')
  exact ⟨_, run, hpublished, rfl, hrun, hids⟩

end LargeIdentity
