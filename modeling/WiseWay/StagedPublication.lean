import WiseWay.Scripts
import WiseWay.StagedScans

/-! # A resumed scan publishes what one scan has seen

However scans of a root are interrupted and resumed, what a scan publishes is its own walk: every
item is built from a file of the walk, by a scan with the same digest of its configuration. The
digest leaves the display prefix out. -/
namespace StagedPublication

open StagedScans
open Records hiding Root
open EntryIds hiding Staged
open Search hiding Row Location

variable {v : Service} {s t : StagedScans.State} {roots more : List Root} {root : Root}
  {rootId runId : Text} {scan : Scan} {staged : Staged} {old : Table Identity} {config : Config}
  {index : Table IndexRow} {progress : Table Progress} {chunks chunks' : List Chunk}

/-! The chunks of a root. -/

def ofRoot (rootId : Text) (chunks : List Chunk) : List Chunk := chunks.filter (·.rootId = rootId)

def rowsOf (chunks : List Chunk) : List Row := chunks.flatMap (·.found)

def itemsOf (chunks : List Chunk) : List Item := chunks.flatMap (·.items)

def idsOf (items : List Item) : List Text := items.map (·.itemId)

def Elsewhere (rootId : Text) (chunks chunks' : List Chunk) : Prop :=
  ∀ other, other ≠ rootId → ofRoot other chunks' = ofRoot other chunks

theorem ofRoot_clear (chunks : List Chunk) : ofRoot rootId (clearChunks rootId chunks) = [] := by
  simp [ofRoot, clearChunks]

theorem elsewhere_clear (chunks : List Chunk) :
    Elsewhere rootId chunks (clearChunks rootId chunks) := by
  intro other hother
  rw [ofRoot, clearChunks, List.filter_filter]
  apply List.filter_congr
  intro chunk _
  by_cases h : chunk.rootId = other
  · simp [h, hother]
  · simp [h]

theorem elsewhere_clearRun (chunks : List Chunk) :
    Elsewhere rootId chunks (clearRun rootId runId chunks) := by
  intro other hother
  rw [ofRoot, clearRun, List.filter_filter]
  apply List.filter_congr
  intro chunk _
  by_cases h : chunk.rootId = other
  · simp [h, hother]
  · simp [h]

theorem elsewhere_put {n : ℕ} {rows : List Row} {items : List Item} (chunks : List Chunk) :
    Elsewhere rootId chunks (putChunk ⟨rootId, runId, n, rows, items⟩ chunks) := by
  intro other hother
  rw [ofRoot, putChunk, List.filter_append, List.filter_filter]
  have hnil : [(⟨rootId, runId, n, rows, items⟩ : Chunk)].filter
      (fun chunk => decide (chunk.rootId = other)) = [] := by
    simp [Ne.symm hother]
  rw [hnil, List.append_nil]
  apply List.filter_congr
  intro chunk _
  by_cases h : chunk.rootId = other
  · simp [h, hother]
  · simp [h]

theorem ofRoot_put {chunk : Chunk} {chunks : List Chunk}
    (h : ∀ c ∈ ofRoot chunk.rootId chunks, c.sequence ≠ chunk.sequence) :
    ofRoot chunk.rootId (putChunk chunk chunks) = ofRoot chunk.rootId chunks ++ [chunk] := by
  rw [ofRoot, putChunk, List.filter_append, List.filter_filter]
  congr 1
  · apply List.filter_congr
    intro c hc
    by_cases hroot : c.rootId = chunk.rootId
    · have hne := h c (List.mem_filter.mpr ⟨hc, by simp [hroot]⟩)
      simp [hroot, hne]
    · simp [hroot]
  · simp

/-- The chunks of a run are numbered from zero, and each holds a row for every item. -/
structure Stacked (rootId runId : Text) (chunkCount : ℕ) (chunks : List Chunk) : Prop where
  run : ∀ chunk ∈ ofRoot rootId chunks, chunk.runId = runId
  sequence : (ofRoot rootId chunks).map (·.sequence) = List.range chunkCount
  full : ∀ chunk ∈ ofRoot rootId chunks, chunk.found ≠ [] ∧
    chunk.found.length = chunk.items.length ∧ chunk.found.length ≤ checkpointInterval

theorem Stacked.clear (chunks : List Chunk) :
    Stacked rootId runId 0 (clearChunks rootId chunks) := by
  constructor
  · rw [ofRoot_clear]
    intro chunk hchunk
    cases hchunk
  · rw [ofRoot_clear]
    rfl
  · rw [ofRoot_clear]
    intro chunk hchunk
    cases hchunk

theorem Stacked.put {n : ℕ} {chunks : List Chunk} {rows : List Row} {items : List Item}
    (h : Stacked rootId runId n chunks) (hrows : rows ≠ []) (hlength : rows.length = items.length)
    (hbound : rows.length ≤ checkpointInterval) :
    ofRoot rootId (putChunk ⟨rootId, runId, n, rows, items⟩ chunks) =
        ofRoot rootId chunks ++ [⟨rootId, runId, n, rows, items⟩] ∧
      Stacked rootId runId (n + 1) (putChunk ⟨rootId, runId, n, rows, items⟩ chunks) := by
  have hfresh : ∀ c ∈ ofRoot rootId chunks, c.sequence ≠ n := by
    intro c hc heq
    have hmem : c.sequence ∈ (ofRoot rootId chunks).map (·.sequence) := List.mem_map_of_mem hc
    rw [h.sequence, List.mem_range] at hmem
    omega
  have hput := @ofRoot_put ⟨rootId, runId, n, rows, items⟩ chunks hfresh
  refine ⟨hput, ?_, ?_, ?_⟩
  · rw [hput]
    intro c hc
    rcases List.mem_append.mp hc with hc | hc
    · exact h.run c hc
    · rw [List.mem_singleton.mp hc]
  · rw [hput, List.map_append, h.sequence, List.range_succ]
    rfl
  · rw [hput]
    intro c hc
    rcases List.mem_append.mp hc with hc | hc
    · exact h.full c hc
    · rw [List.mem_singleton.mp hc]
      exact ⟨hrows, hlength, hbound⟩

/-! Loading. -/

theorem loadFrom_some {n : ℕ} {chunks : List Chunk} {loaded : List Row × List Item × ℕ}
    (h : loadFrom rootId runId n chunks = some loaded) :
    loaded = (rowsOf chunks, itemsOf chunks, n + chunks.length) := by
  induction chunks generalizing n loaded with
  | nil =>
    cases h
    rfl
  | cons chunk rest ih =>
    rw [loadFrom] at h
    split at h
    · obtain ⟨later, hlater, rfl⟩ := Option.map_eq_some_iff.mp h
      rw [ih hlater]
      simp only [rowsOf, itemsOf, List.flatMap_cons, List.length_cons, Prod.mk.injEq, true_and]
      omega
    · cases h

theorem Stacked.read {n : ℕ} {chunks : List Chunk} (h : Stacked rootId runId n chunks) :
    ((chunks.filter fun chunk => chunk.rootId = rootId ∧ chunk.runId = runId).mergeSort
      fun chunk other => chunk.sequence ≤ other.sequence) = ofRoot rootId chunks := by
  have hfilter : chunks.filter (fun chunk => decide (chunk.rootId = rootId ∧ chunk.runId = runId)) =
      ofRoot rootId chunks := by
    apply List.filter_congr
    intro chunk hchunk
    by_cases hroot : chunk.rootId = rootId
    · have hrun := h.run chunk (List.mem_filter.mpr ⟨hchunk, by simp [hroot]⟩)
      simp [hroot, hrun]
    · simp [hroot]
  rw [hfilter]
  apply List.mergeSort_of_pairwise
  have hsorted : ((ofRoot rootId chunks).map (·.sequence)).Pairwise (· < ·) := by
    rw [h.sequence]
    exact List.pairwise_lt_range
  rw [List.pairwise_map] at hsorted
  exact hsorted.imp fun hlt => decide_eq_true (le_of_lt hlt)

theorem Stacked.length {n : ℕ} {chunks : List Chunk} (h : Stacked rootId runId n chunks) :
    (ofRoot rootId chunks).length = n := by
  have hlength := congrArg List.length h.sequence
  rwa [List.length_map, List.length_range] at hlength

theorem Stacked.load {n count : ℕ} {chunks : List Chunk} (h : Stacked rootId runId n chunks)
    {loaded : List Row × List Item × ℕ}
    (hload : loadChunks rootId runId count chunks = some loaded) :
    loaded = (rowsOf (ofRoot rootId chunks), itemsOf (ofRoot rootId chunks), n) := by
  rw [loadChunks, h.read, Option.filter_eq_some_iff] at hload
  rw [loadFrom_some hload.1, h.length, Nat.zero_add]

/-! The upgrade. -/

theorem slices_eq {α : Type} (rows : List α) (n : ℕ) :
    (List.range n).flatMap (fun sequence => slice sequence rows) =
      rows.take (checkpointInterval * n) := by
  induction n with
  | zero => simp
  | succ n ih =>
    rw [List.range_succ, List.flatMap_append, ih, List.flatMap_singleton, slice, Nat.mul_succ,
      List.take_add]

def upgraded (rootId runId : Text) (found : List Row) (items : List Item) (chunks : List Chunk)
    (n : ℕ) : List Chunk :=
  (List.range n).foldl (fun chunks sequence =>
    putChunk ⟨rootId, runId, sequence, slice sequence found, slice sequence items⟩ chunks)
    (clearChunks rootId chunks)

theorem upgrade_eq (found : List Row) (items : List Item) (chunks : List Chunk) :
    upgrade rootId runId found items chunks =
      upgraded rootId runId found items chunks (sliceCount items.length) := rfl

theorem upgraded_succ (found : List Row) (items : List Item) (chunks : List Chunk) (n : ℕ) :
    upgraded rootId runId found items chunks (n + 1) =
      putChunk ⟨rootId, runId, n, slice n found, slice n items⟩
        (upgraded rootId runId found items chunks n) := by
  rw [upgraded, List.range_succ, List.foldl_append]
  rfl

theorem upgraded_stacked {found : List Row} {items : List Item} {chunks : List Chunk}
    (hlength : found.length = items.length) {n : ℕ} (hn : n ≤ sliceCount items.length) :
    Stacked rootId runId n (upgraded rootId runId found items chunks n) ∧
      ofRoot rootId (upgraded rootId runId found items chunks n) = (List.range n).map
        (fun sequence => ⟨rootId, runId, sequence, slice sequence found, slice sequence items⟩) ∧
      Elsewhere rootId chunks (upgraded rootId runId found items chunks n) := by
  induction n with
  | zero => exact ⟨.clear _, ofRoot_clear _, elsewhere_clear _⟩
  | succ n ih =>
    obtain ⟨hstacked, hmap, helse⟩ := ih (by omega)
    rw [upgraded_succ]
    have hinside : checkpointInterval * n < found.length := by
      unfold sliceCount checkpointInterval at hn
      unfold checkpointInterval
      omega
    have hrows : slice n found ≠ [] := by
      intro hnil
      have hzero := congrArg List.length hnil
      simp only [slice, checkpointInterval, List.length_take, List.length_drop,
        List.length_nil] at hzero hinside
      omega
    have hpairs : (slice n found).length = (slice n items).length := by simp [slice, hlength]
    obtain ⟨hput, hnext⟩ := hstacked.put hrows hpairs (by simp [slice])
    refine ⟨hnext, ?_, ?_⟩
    · rw [hput, hmap, List.range_succ, List.map_append]
      rfl
    · intro other hother
      rw [elsewhere_put _ other hother]
      exact helse other hother

theorem upgrade_stacked {found : List Row} {items : List Item} {chunks : List Chunk}
    (hlength : found.length = items.length) :
    Stacked rootId runId (sliceCount items.length) (upgrade rootId runId found items chunks) ∧
      rowsOf (ofRoot rootId (upgrade rootId runId found items chunks)) = found ∧
      itemsOf (ofRoot rootId (upgrade rootId runId found items chunks)) = items ∧
      Elsewhere rootId chunks (upgrade rootId runId found items chunks) := by
  rw [upgrade_eq]
  obtain ⟨hstacked, hmap, helse⟩ : _ ∧ _ ∧ Elsewhere rootId chunks
      (upgraded rootId runId found items chunks (sliceCount items.length)) :=
    upgraded_stacked hlength le_rfl
  have hall : items.length ≤ checkpointInterval * sliceCount items.length := by
    unfold sliceCount checkpointInterval
    omega
  refine ⟨hstacked, ?_, ?_, helse⟩
  · rw [rowsOf, hmap, List.flatMap_map]
    exact (slices_eq found _).trans (List.take_of_length_le (hlength ▸ hall))
  · rw [itemsOf, hmap, List.flatMap_map]
    exact (slices_eq items _).trans (List.take_of_length_le hall)

/-! What is built. -/

theorem builtItem_id {file : Row} {item : Item} {itemId : Text}
    (h : builtItem v root file itemId = some item) : item.itemId = itemId := by
  unfold builtItem buildItem at h
  dsimp only at h
  split at h
  · cases h
  · rename_i filename _
    cases hparse : parseDirectories v.library root.rootId root.config.schema []
        (pathParts (cleanPath file.1)).dropLast with
    | error e =>
      rw [hparse] at h
      cases h
    | ok parsed =>
      rw [hparse] at h
      cases h
      rfl

theorem builtUnder_mono {file : Row} {item : Item}
    (h : BuiltUnder v roots rootId config file item) :
    BuiltUnder v (roots ++ more) rootId config file item := by
  obtain ⟨root, hroot, hbuilt⟩ := h
  exact ⟨root, List.mem_append_left _ hroot, hbuilt⟩

theorem builtItems_built {ids : List (Text × Text)} {rows : List Row} {items : List Item}
    (hroot : root ∈ roots) (h : builtItems v root ids rows = some items) :
    List.Forall₂ (BuiltUnder v roots root.rootId root.config) rows items ∧
      idsOf items = rows.map fun row => (ids.lookup row.1).getD [] := by
  unfold builtItems at h
  induction rows generalizing items with
  | nil =>
    cases h
    exact ⟨.nil, rfl⟩
  | cons row rest ih =>
    rw [List.mapM_cons] at h
    obtain ⟨item, hitem, h⟩ := Option.bind_eq_some_iff.mp h
    obtain ⟨later, hlater, h⟩ := Option.bind_eq_some_iff.mp h
    cases h
    obtain ⟨hbuilt, hids⟩ := ih hlater
    have hid := builtItem_id hitem
    refine ⟨.cons ⟨root, hroot, rfl, rfl, ?_⟩ hbuilt, ?_⟩
    · rw [hid]
      exact hitem
    · rw [idsOf, List.map_cons, hid, List.map_cons]
      exact congrArg (_ :: ·) hids

theorem lookup_rows {rows : List Row} {pairs : List (Text × Text)}
    (hfst : pairs.map Prod.fst = rows.map Prod.fst) (hpaths : (rows.map Prod.fst).Nodup) :
    rows.map (fun row => (pairs.lookup row.1).getD []) = pairs.map Prod.snd := by
  induction rows generalizing pairs with
  | nil => rw [List.map_eq_nil_iff.mp (hfst.trans List.map_nil)]; rfl
  | cons row rest ih =>
    cases pairs with
    | nil => cases hfst
    | cons pair later =>
      rw [List.map_cons, List.map_cons, List.cons.injEq] at hfst
      rw [List.map_cons, List.nodup_cons] at hpaths
      have hrest : rest.map (fun other => ((pair :: later).lookup other.1).getD []) =
          rest.map (fun other => (later.lookup other.1).getD []) := by
        apply List.map_congr_left
        intro other hother
        have hne : other.1 ≠ pair.1 := by
          intro heq
          exact hpaths.1 (hfst.1 ▸ heq ▸ List.mem_map_of_mem hother)
        rw [List.lookup_cons, beq_false_of_ne hne]
      rw [List.map_cons, List.map_cons, hrest, ih hfst.2 hpaths.2, List.lookup_cons, ← hfst.1]
      simp

theorem published_get {found : List Row} {pairs : List (Text × Text)}
    (hpaths : (found.map Prod.fst).Nodup) {row : Row} (hrow : row ∈ found) :
    (published found pairs)[row.1]? =
      some ⟨(pairs.lookup row.1).getD [], Intake.inode row.2⟩ := by
  induction found using List.reverseRecOn with
  | nil => cases hrow
  | append_singleton rows last ih =>
    rw [published, List.foldl_append, List.foldl_cons, List.foldl_nil, get_put]
    rw [List.map_append, List.nodup_append'] at hpaths
    rcases List.mem_append.mp hrow with hrow | hrow
    · rw [if_neg]
      · exact ih hpaths.1 hrow
      · intro heq
        exact hpaths.2.2 (List.mem_map_of_mem hrow) (by simp [heq])
    · rw [List.mem_singleton.mp hrow, if_pos rfl]

/-! The invariant. -/

/-- What is staged for a root under a configuration. -/
structure Holds (v : Service) (roots : List Root) (old : Table Identity) (rootId : Text)
    (config : Config) (rows : List Row) (items : List Item) : Prop where
  built : List.Forall₂ (BuiltUnder v roots rootId config) rows items
  fitting : Fitting old rows (idsOf items)

theorem Holds.mono {rows : List Row} {items : List Item}
    (h : Holds v roots old rootId config rows items) :
    Holds v (roots ++ more) old rootId config rows items :=
  ⟨h.built.imp fun _ _ hbuilt => builtUnder_mono hbuilt, h.fitting⟩

theorem fitting_empty {rows : List Row} {ids : List Text} (h : Fitting old rows ids) :
    Fitting ∅ rows ids :=
  ⟨h.length, h.nodup, fun _ _ q e hq => by simp at hq⟩

theorem Holds.forget {rows : List Row} {items : List Item}
    (h : Holds v roots old rootId config rows items) :
    Holds v roots ∅ rootId config rows items := ⟨h.built, fitting_empty h.fitting⟩

theorem holds_nil : Holds v roots old rootId config [] [] :=
  ⟨.nil, rfl, List.nodup_nil, fun pair hpair => by cases hpair⟩

def Stands (v : Service) (roots : List Root) (old : Table Identity) (rootId : Text)
    (saved : Progress) (chunks : List Chunk) : Prop :=
  match saved.staging with
  | .none => True
  | .run runId chunkCount => Stacked rootId runId chunkCount chunks ∧
      ∃ config, saved.configDigest = some config ∧ Holds v roots old rootId config
        (rowsOf (ofRoot rootId chunks)) (itemsOf (ofRoot rootId chunks))
  | .legacy found items => found.length = items.length →
      ∃ config, saved.configDigest = some config ∧ Holds v roots old rootId config found items

theorem Stacked.same {n : ℕ} {chunks chunks' : List Chunk} (h : Stacked rootId runId n chunks)
    (hsame : ofRoot rootId chunks' = ofRoot rootId chunks) : Stacked rootId runId n chunks' :=
  ⟨hsame ▸ h.run, hsame ▸ h.sequence, hsame ▸ h.full⟩

theorem Stands.same {saved : Progress} {chunks chunks' : List Chunk}
    (h : Stands v roots old rootId saved chunks)
    (hsame : ofRoot rootId chunks' = ofRoot rootId chunks) :
    Stands v roots old rootId saved chunks' := by
  unfold Stands at h ⊢
  split at h
  · trivial
  · exact ⟨h.1.same hsame, hsame ▸ h.2⟩
  · exact h

theorem Stands.imp {saved : Progress} {chunks : List Chunk} {old' : Table Identity}
    {roots' : List Root} (h : Stands v roots old rootId saved chunks)
    (himp : ∀ config rows items, Holds v roots old rootId config rows items →
      Holds v roots' old' rootId config rows items) :
    Stands v roots' old' rootId saved chunks := by
  unfold Stands at h ⊢
  split at h
  · trivial
  · obtain ⟨hstacked, config, hconfig, hholds⟩ := h
    exact ⟨hstacked, config, hconfig, himp _ _ _ hholds⟩
  · intro hlength
    obtain ⟨config, hconfig, hholds⟩ := h hlength
    exact ⟨config, hconfig, himp _ _ _ hholds⟩

/-- A published index is the walk of its scan. -/
structure Rebuilt (v : Service) (roots : List Root) (rootId : Text) (p : Published)
    (walked : Observation) : Prop where
  root : ∃ root ∈ roots, root.rootId = rootId ∧ root.config = walked.config ∧
    p.root = some (publicRoot root walked)
  sorted : walked.files.Pairwise fun file other => file.1 < other.1
  plain : ∀ file ∈ walked.files, technicalName file.1 = false
  items : List.Forall₂ (BuiltUnder v roots rootId walked.config) walked.files p.items
  distinct : (idsOf p.items).Nodup
  identities : List.Forall₂ (fun file item =>
    p.entryIds[file.1]? = some ⟨item.itemId, Intake.inode file.2⟩) walked.files p.items

theorem Rebuilt.mono {p : Published} {walked : Observation}
    (h : Rebuilt v roots rootId p walked) : Rebuilt v (roots ++ more) rootId p walked := by
  obtain ⟨root, hroot, hpublic⟩ := h.root
  exact ⟨⟨root, List.mem_append_left _ hroot, hpublic⟩, h.sorted, h.plain,
    h.items.imp fun _ _ hbuilt => builtUnder_mono hbuilt, h.distinct, h.identities⟩

/-- What the tables hold, whether or not there is a scan. -/
structure Stored (v : Service) (roots : List Root) (index : Table IndexRow)
    (progress : Table Progress) (chunks : List Chunk) : Prop where
  published : ∀ (rootId : Text) (row : IndexRow) p walked, index[rootId]? = some row →
    row.contents = .items p → p.fingerprintDigest = some walked → Rebuilt v roots rootId p walked
  distinct : ∀ rootId, Distinct (entries index rootId)
  staged : ∀ (rootId : Text) (saved : Progress), progress[rootId]? = some saved →
    Stands v roots (entries index rootId) rootId saved chunks

/-- The scan has a progress record of its own, and holds what its chunks hold. -/
structure Owns (progress : Table Progress) (chunks : List Chunk) (root : Root) (staged : Staged) :
    Prop where
  progress : progress[root.rootId]? = some (scanProgress root staged)
  rows : rowsOf (ofRoot root.rootId chunks) = staged.found
  items : itemsOf (ofRoot root.rootId chunks) = staged.items

theorem Owns.stands (h : Stored v roots index progress chunks)
    (howns : Owns progress chunks root staged) :
    Stacked root.rootId staged.runId staged.chunkCount chunks ∧
      Holds v roots (entries index root.rootId) root.rootId root.config staged.found
        staged.items := by
  obtain ⟨hstacked, config, hconfig, hholds⟩ := h.staged _ _ howns.progress
  cases hconfig
  rw [howns.rows, howns.items] at hholds
  exact ⟨hstacked, hholds⟩

structure Seen (found : List Row) : Prop where
  sorted : found.Pairwise fun file other => file.1 < other.1
  plain : ∀ file ∈ found, technicalName file.1 = false

theorem Seen.paths {found : List Row} (h : Seen found) : (found.map Prod.fst).Nodup := by
  rw [List.Nodup, List.pairwise_map]
  exact h.sorted.imp fun hlt => ne_of_lt hlt

/-- The index is still the one that has been read, unless an external one has replaced it. -/
def Current (index : Table IndexRow) (rootId : Text) (previous : Table Identity) : Prop :=
  entries index rootId = previous ∨ entries index rootId = ∅

theorem Current.fitting {previous : Table Identity} {rows : List Row} {ids : List Text}
    (h : Current index rootId previous) (hfitting : Fitting previous rows ids) :
    Fitting (entries index rootId) rows ids := by
  rcases h with h | h
  · rw [h]
    exact hfitting
  · rw [h]
    exact fitting_empty hfitting

/-- The rows that have been built so far are the first ones of the walk. -/
structure Halfway (index : Table IndexRow) (rootId : Text) (found : List Row)
    (ids : List (Text × Text)) (staged : Staged) : Prop where
  seen : Seen found
  paths : ids.map Prod.fst = found.map Prod.fst
  rows : staged.found = found.take staged.items.length
  itemIds : idsOf staged.items = (ids.map Prod.snd).take staged.items.length
  given : ∃ previous, Current index rootId previous ∧ Fitting previous found (ids.map Prod.snd)

def Scanning (index : Table IndexRow) (progress : Table Progress) (chunks : List Chunk)
    (root : Root) : StagedScans.Phase → Prop
  | .opened => True
  | .failed => True
  | .started staged => Owns progress chunks root staged
  | .compared staged found previous => Owns progress chunks root staged ∧ Seen found ∧
      Distinct previous ∧ Current index root.rootId previous ∧
      Fitting previous staged.found (idsOf staged.items)
  | .building found ids staged => Owns progress chunks root staged ∧
      Halfway index root.rootId found ids staged

structure Sound (v : Service) (roots : List Root) (s : StagedScans.State) : Prop where
  stored : Stored v roots s.index s.progress s.chunks
  scanning : ∀ scan, s.scan = some scan →
    scan.root ∈ roots ∧ Scanning s.index s.progress s.chunks scan.root scan.phase

theorem Stored.mono (h : Stored v roots index progress chunks) :
    Stored v (roots ++ more) index progress chunks :=
  ⟨fun rootId row p walked hrow hp hdigest =>
      (h.published rootId row p walked hrow hp hdigest).mono,
    h.distinct, fun rootId saved hsaved =>
      (h.staged rootId saved hsaved).imp fun _ _ _ hholds => hholds.mono⟩

/-! Writing chunks. -/

/-- Chunks that may stand for what is staged now. -/
structure Prepared (v : Service) (roots : List Root) (index : Table IndexRow)
    (chunks : List Chunk) (root : Root) (staged : Staged) (chunks' : List Chunk) : Prop where
  elsewhere : Elsewhere root.rootId chunks chunks'
  stacked : Stacked root.rootId staged.runId staged.chunkCount chunks'
  rows : rowsOf (ofRoot root.rootId chunks') = staged.found
  items : itemsOf (ofRoot root.rootId chunks') = staged.items
  holds : Holds v roots (entries index root.rootId) root.rootId root.config staged.found
    staged.items

theorem Prepared.stored (h : Stored v roots index progress chunks)
    (hp : Prepared v roots index chunks root staged chunks') :
    Stored v roots index (progress.insert root.rootId (scanProgress root staged)) chunks' := by
  refine ⟨h.published, h.distinct, ?_⟩
  intro rootId saved hsaved
  rw [get_put] at hsaved
  split at hsaved
  · rename_i hroot
    subst hroot
    cases hsaved
    refine ⟨hp.stacked, root.config, rfl, ?_⟩
    rw [hp.rows, hp.items]
    exact hp.holds
  · rename_i hroot
    exact (h.staged rootId saved hsaved).same (hp.elsewhere rootId (Ne.symm hroot))

theorem Prepared.owns (hp : Prepared v roots index chunks root staged chunks') :
    Owns (progress.insert root.rootId (scanProgress root staged)) chunks' root staged :=
  ⟨by simp, hp.rows, hp.items⟩

theorem prepared_empty : Prepared v roots index chunks root ⟨[], [], runId, 0⟩
    (clearChunks root.rootId chunks) := by
  refine ⟨elsewhere_clear _, .clear _, ?_, ?_, holds_nil⟩
  · rw [ofRoot_clear]
    rfl
  · rw [ofRoot_clear]
    rfl

theorem resumable_prepared (h : Stored v roots s.index s.progress s.chunks)
    (hres : resumable root runId s = some (staged, chunks)) :
    Prepared v roots s.index s.chunks root staged chunks := by
  unfold resumable at hres
  obtain ⟨saved, hsaved, hres⟩ := Option.bind_eq_some_iff.mp hres
  obtain ⟨hsaved, hkeep⟩ := Option.filter_eq_some_iff.mp hsaved
  rw [decide_eq_true_eq] at hkeep
  have hstands := h.staged root.rootId saved hsaved
  unfold Stands at hstands
  split at hres
  · cases hres
  · rename_i savedId chunkCount hstaging
    rw [hstaging] at hstands
    obtain ⟨hstacked, config, hconfig, hholds⟩ := hstands
    rw [hkeep.2] at hconfig
    cases hconfig
    obtain ⟨⟨found, items, count⟩, hload, heq⟩ := Option.map_eq_some_iff.mp hres
    obtain ⟨hload, _⟩ := Option.filter_eq_some_iff.mp hload
    have hloaded := hstacked.load hload
    cases hloaded
    cases heq
    exact ⟨fun _ _ => rfl, hstacked, rfl, rfl, hholds⟩
  · rename_i found items hstaging
    rw [hstaging] at hstands
    split at hres
    · rename_i hlength
      cases hres
      obtain ⟨config, hconfig, hholds⟩ := hstands hlength.1
      rw [hkeep.2] at hconfig
      cases hconfig
      obtain ⟨hstacked, hrows, hitems, helse⟩ := upgrade_stacked hlength.1
      exact ⟨helse, hstacked, hrows, hitems, hholds⟩
    · cases hres

theorem startProgress_prepared (h : Stored v roots s.index s.progress s.chunks) : ∃ chunks,
    Prepared v roots s.index s.chunks root (startProgress root runId s).1 chunks ∧
      (startProgress root runId s).2 = ⟨s.index, s.progress.insert root.rootId
        (scanProgress root (startProgress root runId s).1), chunks, s.scan⟩ := by
  unfold startProgress
  cases hres : resumable root runId s with
  | none => exact ⟨_, prepared_empty, rfl⟩
  | some resumed => exact ⟨_, resumable_prepared h hres, rfl⟩

/-! The steps. -/

theorem setPhase_scan {phase : StagedScans.Phase} {now : Scan}
    (h : (setPhase phase s).scan = some now) :
    ∃ scan, s.scan = some scan ∧ now = { scan with phase := phase } := by
  obtain ⟨scan, hscan, rfl⟩ := Option.map_eq_some_iff.mp h
  exact ⟨scan, hscan, rfl⟩

theorem sound_phase {phase : StagedScans.Phase} (hroot : scan.root ∈ roots)
    (hscan : t.scan = some scan) (hstored : Stored v roots t.index t.progress t.chunks)
    (hphase : Scanning t.index t.progress t.chunks scan.root phase) :
    Sound v roots (setPhase phase t) := by
  refine ⟨hstored, fun now hnow => ?_⟩
  obtain ⟨found, hfound, rfl⟩ := setPhase_scan hnow
  rw [hscan] at hfound
  cases hfound
  exact ⟨hroot, hphase⟩

theorem sound_idle (h : Stored v roots s.index s.progress s.chunks) :
    Sound v roots { s with scan := none } :=
  ⟨h, fun scan hscan => by cases hscan⟩

theorem sound_start (h : Sound v roots s) (hscan : s.scan = some scan)
    (hstep : stepScan v scan s (.start runId) = some t) : Sound v roots t := by
  simp only [stepScan] at hstep
  split at hstep
  · cases hstep
    obtain ⟨hroot, _⟩ := h.scanning scan hscan
    obtain ⟨chunks, hprepared, hstate⟩ := startProgress_prepared h.stored
    rw [hstate]
    exact sound_phase hroot hscan (hprepared.stored h.stored) hprepared.owns
  · cases hstep

theorem mergeSort_sorted (rows : List Row) :
    (rows.mergeSort fun row other => row.1 ≤ other.1).Pairwise fun row other =>
      decide (row.1 ≤ other.1) = true := by
  apply List.pairwise_mergeSort
  · intro a b c hab hbc
    rw [decide_eq_true_eq] at hab hbc ⊢
    exact le_trans hab hbc
  · intro a b
    rw [Bool.or_eq_true, decide_eq_true_eq, decide_eq_true_eq]
    exact le_total a.1 b.1

theorem observed_seen {files : Text → Option (List Row)} {found : List Row}
    (h : observed root files = some found) (hpaths : (found.map Prod.fst).Nodup) : Seen found := by
  obtain ⟨walked, hwalked, rfl⟩ := Option.map_eq_some_iff.mp h
  obtain ⟨lists, _, hsorted⟩ := Option.bind_eq_some_iff.mp hwalked
  unfold sorted at hsorted
  split at hsorted
  · cases hsorted
    constructor
    · rw [List.Nodup, List.pairwise_map] at hpaths
      have hle := (mergeSort_sorted (lists.flatten.map fun row =>
        (stripBase row.1 root.base, row.2))).filter fun row => !technicalName row.1
      exact (hle.and hpaths).imp fun h => lt_of_le_of_ne (of_decide_eq_true h.1) h.2
    · intro file hfile
      rw [List.mem_filter, Bool.not_eq_true'] at hfile
      exact hfile.2
  · cases hsorted

theorem entries_insert (row : IndexRow) (other : Text) :
    entries (index.insert rootId row) other =
      if rootId = other then row.contents.entries else entries index other := by
  unfold entries
  rw [get_put]
  split <;> rfl

theorem complete_stored {row : IndexRow} {count : ℕ}
    (h : Stored v roots s.index s.progress s.chunks)
    (hrow : ∀ p walked, row.contents = .items p → p.fingerprintDigest = some walked →
      Rebuilt v roots scan.root.rootId p walked)
    (hdistinct : Distinct row.contents.entries) :
    Sound v roots (complete scan runId count row s) := by
  refine ⟨⟨?_, ?_, ?_⟩, fun now hnow => by cases hnow⟩
  · intro rootId found p walked hfound hp hdigest
    simp only [complete, get_put] at hfound
    split at hfound
    · rename_i hroot
      cases hfound
      exact hroot ▸ hrow p walked hp hdigest
    · exact h.published rootId found p walked hfound hp hdigest
  · intro rootId
    rw [complete, entries_insert]
    split
    · exact hdistinct
    · exact h.distinct rootId
  · intro rootId saved hsaved
    simp only [complete, get_put] at hsaved
    rw [complete, entries_insert]
    split at hsaved
    · cases hsaved
      trivial
    · rename_i hroot
      rw [if_neg hroot]
      exact (h.staged rootId saved hsaved).same (elsewhere_clearRun _ rootId (Ne.symm hroot))

theorem sameIndex_stored {row : IndexRow} {walked : Observation}
    (h : Stored v roots s.index s.progress s.chunks)
    (hrow : sameIndex s rootId walked = some row) :
    s.index[rootId]? = some row ∧ Distinct row.contents.entries := by
  obtain ⟨hrow, _⟩ := Option.filter_eq_some_iff.mp hrow
  have hdistinct := h.distinct rootId
  rw [entries, hrow] at hdistinct
  exact ⟨hrow, hdistinct⟩

theorem sound_walk {files : Text → Option (List Row)} (h : Sound v roots s)
    (hdrawn : Drawn s (.walk files)) (hscan : s.scan = some scan)
    (hstep : stepScan v scan s (.walk files) = some t) : Sound v roots t := by
  obtain ⟨hroot, hphase⟩ := h.scanning scan hscan
  simp only [stepScan] at hstep
  split at hstep
  · rename_i staged hstarted
    rw [hstarted] at hphase
    cases hstep
    unfold observe
    split
    · exact sound_phase hroot hscan h.stored trivial
    · rename_i found hfound
      have hseen := observed_seen hfound (hdrawn scan hscan found hfound)
      split
      · rename_i row hrow
        obtain ⟨hindex, hdistinct⟩ := sameIndex_stored h.stored hrow
        exact complete_stored h.stored (fun p walked hp hdigest =>
          h.stored.published _ row p walked hindex hp hdigest) hdistinct
      · obtain ⟨_, hholds⟩ := hphase.stands h.stored
        exact sound_phase hroot hscan h.stored ⟨hphase, hseen, h.stored.distinct _, .inl rfl,
          hholds.fitting⟩
  · cases hstep

theorem halfway_entryIds {found : List Row} {previous : Table Identity} {hex : Text → Text}
    (hseen : Seen found) (hold : Distinct previous) (hcurrent : Current index root.rootId previous)
    (hfresh : Fresh found previous (idsOf staged.items) hex)
    (hrows : staged.found = found.take staged.items.length)
    (hfitting : Fitting previous staged.found (idsOf staged.items)) :
    Halfway index root.rootId found
      (entryIds root.rootId found previous hex (idsOf staged.items)) staged := by
  have hids : (idsOf staged.items).length = staged.items.length := List.length_map _
  rw [hrows, ← hids] at hfitting
  have hlength : (idsOf staged.items).length ≤ found.length := by
    have hsame := hfitting.length
    rw [List.length_take] at hsame
    omega
  refine ⟨hseen, entryIds_paths hlength, hrows, ?_, previous, hcurrent,
    entryIds_fitting hold hfresh hseen.paths hfitting⟩
  rw [entryIds_ids hlength, ← hids, List.take_left]

theorem sound_resume {hex : Text → Text} (h : Sound v roots s)
    (hdrawn : Drawn s (.resume runId hex)) (hscan : s.scan = some scan)
    (hstep : stepScan v scan s (.resume runId hex) = some t) : Sound v roots t := by
  obtain ⟨hroot, hphase⟩ := h.scanning scan hscan
  simp only [stepScan] at hstep
  split at hstep
  · rename_i staged found previous hcompared
    rw [hcompared] at hphase
    obtain ⟨howns, hseen, hold, hcurrent, hfitting⟩ := hphase
    have hfresh := hdrawn.2 scan hscan
    rw [hcompared] at hfresh
    cases hstep
    unfold resume
    split_ifs with hsame
    · refine sound_phase hroot hscan h.stored ⟨howns, ?_⟩
      exact halfway_entryIds hseen hold hcurrent hfresh (hsame.2 ▸ hsame.1.symm) hfitting
    · have hprepared : Prepared v roots s.index s.chunks scan.root ⟨[], [], runId, 0⟩
          (clearChunks scan.root.rootId s.chunks) := prepared_empty
      refine sound_phase hroot hscan (hprepared.stored h.stored) ⟨hprepared.owns, ?_⟩
      refine halfway_entryIds hseen hold hcurrent ?_ rfl ?_
      · exact ⟨hfresh.injective, hfresh.plain, hfresh.old, fun _ _ hmem => by cases hmem⟩
      · exact ⟨rfl, List.nodup_nil, fun pair hpair => by cases hpair⟩
  · cases hstep

theorem nextRows_take {found : List Row} {count : ℕ} :
    nextRows found count = (found.drop count).take (nextRows found count).length := by
  rw [nextRows, List.take_eq_take_iff, List.length_take]
  omega

theorem nextRows_cons {found : List Row} {count : ℕ} (h : count < found.length) :
    nextRows found count ≠ [] ∧ (nextRows found count).length ≤ checkpointInterval := by
  have hlength : (nextRows found count).length =
      min (checkpointInterval - count % checkpointInterval) (found.length - count) := by
    rw [nextRows, List.length_take, List.length_drop]
  have hlt : count % checkpointInterval < checkpointInterval := Nat.mod_lt _ (by decide)
  constructor
  · intro hnil
    rw [hnil, List.length_nil] at hlength
    omega
  · omega

theorem Halfway.next {found : List Row} {ids : List (Text × Text)} {items : List Item}
    (h : Halfway index root.rootId found ids staged)
    (hids : idsOf items = (nextRows found staged.items.length).map fun row =>
      (ids.lookup row.1).getD []) :
    Halfway index root.rootId found ids
      ⟨staged.found ++ nextRows found staged.items.length, staged.items ++ items, staged.runId,
        staged.chunkCount + 1⟩ := by
  have hlength : items.length = (nextRows found staged.items.length).length := by
    have hsame := congrArg List.length hids
    rwa [idsOf, List.length_map, List.length_map] at hsame
  have hslice : idsOf items =
      ((ids.map Prod.snd).drop staged.items.length).take items.length := by
    rw [hids, ← lookup_rows h.paths h.seen.paths, ← List.map_drop, ← List.map_take, hlength,
      ← nextRows_take]
  refine ⟨h.seen, h.paths, ?_, ?_, h.given⟩
  · rw [List.length_append, List.take_add, hlength, ← nextRows_take]
    exact congrArg (· ++ _) h.rows
  · rw [idsOf, List.map_append, List.length_append, List.take_add]
    exact congrArg₂ (· ++ ·) h.itemIds hslice

theorem Halfway.fitting {found : List Row} {ids : List (Text × Text)}
    (h : Halfway index root.rootId found ids staged) :
    Fitting (entries index root.rootId) staged.found (idsOf staged.items) := by
  obtain ⟨previous, hcurrent, hfitting⟩ := h.given
  rw [h.rows, h.itemIds]
  exact (hcurrent.fitting hfitting).take _

theorem checkpoint_prepared {found : List Row} {ids : List (Text × Text)} {items : List Item}
    {later : Staged} (h : Stored v roots s.index s.progress s.chunks) (hroot : root ∈ roots)
    (howns : Owns s.progress s.chunks root staged)
    (hhalf : Halfway s.index root.rootId found ids staged)
    (hless : staged.items.length < found.length)
    (hitems : builtItems v root ids (nextRows found staged.items.length) = some items)
    (hcheck : checkpoint root staged (nextRows found staged.items.length) items s =
      some (later, t)) :
    t.index = s.index ∧ t.scan = s.scan ∧ Stored v roots t.index t.progress t.chunks ∧
      Owns t.progress t.chunks root later ∧ Halfway t.index root.rootId found ids later := by
  obtain ⟨hbuilt, hids⟩ := builtItems_built hroot hitems
  obtain ⟨hstacked, hholds⟩ := howns.stands h
  obtain ⟨hrows, hbound⟩ := nextRows_cons hless
  obtain ⟨hput, hstacked'⟩ := hstacked.put hrows hbuilt.length_eq hbound
  obtain ⟨_, _, heq⟩ := Option.map_eq_some_iff.mp hcheck
  cases heq
  have hnext := hhalf.next hids
  have hprepared : Prepared v roots s.index s.chunks root
      ⟨staged.found ++ nextRows found staged.items.length, staged.items ++ items, staged.runId,
        staged.chunkCount + 1⟩
      (putChunk ⟨root.rootId, staged.runId, staged.chunkCount,
        nextRows found staged.items.length, items⟩ s.chunks) := by
    refine ⟨elsewhere_put _, hstacked', ?_, ?_, List.rel_append hholds.built hbuilt,
      hnext.fitting⟩
    · rw [hput, rowsOf, List.flatMap_append, List.flatMap_singleton]
      exact congrArg (· ++ _) howns.rows
    · rw [hput, itemsOf, List.flatMap_append, List.flatMap_singleton]
      exact congrArg (· ++ _) howns.items
  exact ⟨rfl, rfl, hprepared.stored h, hprepared.owns, hnext⟩

theorem sound_build (h : Sound v roots s) (hscan : s.scan = some scan)
    (hstep : stepScan v scan s .build = some t) : Sound v roots t := by
  obtain ⟨hroot, hphase⟩ := h.scanning scan hscan
  simp only [stepScan] at hstep
  split at hstep
  · rename_i found ids staged hbuilding
    rw [hbuilding] at hphase
    obtain ⟨howns, hhalf⟩ := hphase
    split at hstep
    · rename_i hless
      cases hstep
      unfold build
      dsimp only
      split
      · exact sound_phase hroot hscan h.stored trivial
      · rename_i items hitems
        split
        · exact sound_phase hroot hscan h.stored trivial
        · rename_i later u hcheck
          obtain ⟨_, hscan', hstored, howns', hhalf'⟩ :=
            checkpoint_prepared h.stored hroot howns hhalf hless hitems hcheck
          exact sound_phase hroot (hscan'.trans hscan) hstored ⟨howns', hhalf'⟩
    · cases hstep
  · cases hstep

theorem Halfway.rebuilt {found : List Row} {ids : List (Text × Text)}
    (h : Halfway index root.rootId found ids staged) (hroot : root ∈ roots)
    (hholds : Holds v roots old root.rootId root.config staged.found staged.items)
    (hdone : found.length ≤ staged.items.length) :
    Rebuilt v roots root.rootId ⟨some (publicRoot root ⟨found, root.config⟩), staged.items,
      published found ids, some ⟨found, root.config⟩⟩ ⟨found, root.config⟩ := by
  have hall : staged.found = found := by
    rw [h.rows, List.take_of_length_le hdone]
  have hids : idsOf staged.items = ids.map Prod.snd := by
    have hlength := congrArg List.length h.paths
    rw [List.length_map, List.length_map] at hlength
    rw [h.itemIds, List.take_of_length_le]
    rw [List.length_map]
    omega
  obtain ⟨previous, _, hfitting⟩ := h.given
  refine ⟨⟨root, hroot, rfl, rfl, rfl⟩, h.seen.sorted, h.seen.plain, hall ▸ hholds.built, ?_, ?_⟩
  · rw [hids]
    exact hfitting.nodup
  · have hlookup := lookup_rows h.paths h.seen.paths
    rw [← hids, idsOf] at hlookup
    rw [List.forall₂_iff_get]
    constructor
    · rw [← hall]
      exact hholds.built.length_eq
    · intro i hi hi'
      have hat := congrArg (·[i]?) hlookup
      simp only [List.getElem?_map, List.getElem?_eq_getElem hi, List.getElem?_eq_getElem hi',
        Option.map_some, Option.some.injEq] at hat
      rw [List.get_eq_getElem, List.get_eq_getElem, ← hat]
      exact published_get h.seen.paths (List.getElem_mem hi)

theorem Halfway.distinct {found : List Row} {ids : List (Text × Text)}
    (h : Halfway index root.rootId found ids staged) : Distinct (published found ids) := by
  obtain ⟨previous, _, hfitting⟩ := h.given
  exact published_distinct h.paths hfitting.nodup

theorem sound_publish (h : Sound v roots s) (hscan : s.scan = some scan)
    (hstep : stepScan v scan s .publish = some t) : Sound v roots t := by
  obtain ⟨hroot, hphase⟩ := h.scanning scan hscan
  simp only [stepScan] at hstep
  split at hstep
  · rename_i found ids staged hbuilding
    rw [hbuilding] at hphase
    obtain ⟨howns, hhalf⟩ := hphase
    split at hstep
    · rename_i hdone
      cases hstep
      unfold publish
      dsimp only
      split
      · rename_i row hrow
        obtain ⟨hindex, hdistinct⟩ := sameIndex_stored h.stored hrow
        exact complete_stored h.stored (fun p walked hp hdigest =>
          h.stored.published _ row p walked hindex hp hdigest) hdistinct
      · refine complete_stored h.stored ?_ hhalf.distinct
        intro p walked hp hdigest
        cases hp
        cases hdigest
        exact hhalf.rebuilt hroot (howns.stands h.stored).2 hdone
    · cases hstep
  · cases hstep

/-- Only the freshness of index rows changes, and no staging. -/
theorem Stored.touch {index' : Table IndexRow} {progress' : Table Progress}
    (h : Stored v roots index progress chunks)
    (hindex : ∀ rootId : Text, (index'[rootId]?).map (·.contents) =
      (index[rootId]?).map (·.contents))
    (hprogress : ∀ (rootId : Text) saved, progress'[rootId]? = some saved →
      saved.staging = .none ∨ ∃ before, progress[rootId]? = some before ∧
        saved.staging = before.staging ∧ saved.configDigest = before.configDigest) :
    Stored v roots index' progress' chunks := by
  have hentries : ∀ rootId, entries index' rootId = entries index rootId := by
    intro rootId
    have hsame := congrArg (fun contents => (contents.map Contents.entries).getD ∅) (hindex rootId)
    rw [Option.map_map, Option.map_map] at hsame
    exact hsame
  refine ⟨?_, ?_, ?_⟩
  · intro rootId row p walked hrow hp hdigest
    have hcontents := hindex rootId
    rw [hrow, Option.map_some] at hcontents
    obtain ⟨before, hbefore, heq⟩ := Option.map_eq_some_iff.mp hcontents.symm
    exact h.published rootId before p walked hbefore (heq.trans hp) hdigest
  · intro rootId
    rw [hentries]
    exact h.distinct rootId
  · intro rootId saved hsaved
    rw [hentries]
    rcases hprogress rootId saved hsaved with hnone | ⟨before, hbefore, hstaging, hconfig⟩
    · rw [Stands, hnone]
      trivial
    · have hstands := h.staged rootId before hbefore
      rw [Stands, ← hstaging, ← hconfig] at hstands
      exact hstands

theorem sound_fail (h : Sound v roots s) (hscan : s.scan = some scan)
    (hstep : stepScan v scan s .fail = some t) : Sound v roots t := by
  obtain ⟨hroot, _⟩ := h.scanning scan hscan
  simp only [stepScan] at hstep
  split at hstep
  · cases hstep
  · cases hstep
    exact sound_phase hroot hscan h.stored trivial

theorem sound_report (h : Sound v roots s)
    (hstep : stepScan v scan s .report = some t) : Sound v roots t := by
  simp only [stepScan] at hstep
  split at hstep
  · cases hstep
    refine ⟨h.stored.touch ?_ ?_, fun now hnow => by cases hnow⟩
    · intro rootId
      unfold report
      dsimp only
      split
      · rename_i previous hprevious
        rw [get_put]
        split
        · rename_i hroot
          rw [← hroot, hprevious]
          rfl
        · rfl
      · rfl
    · intro rootId saved hsaved
      simp only [report, get_put] at hsaved
      split at hsaved
      · rename_i hroot
        cases hsaved
        rw [← hroot]
        cases hbefore : s.progress[scan.root.rootId]? with
        | none => exact .inl rfl
        | some before => exact .inr ⟨before, rfl, rfl, rfl⟩
      · exact .inr ⟨saved, hsaved, rfl, rfl⟩
  · cases hstep

theorem sound_scan {now : Time} (h : Sound v roots s)
    (hstep : step v s (.scan root now) = some t) : Sound v (roots ++ [root]) t := by
  unfold step at hstep
  dsimp only at hstep
  split at hstep
  · cases hstep
  · cases hstep
    refine ⟨h.stored.mono, fun scan hscan => ?_⟩
    cases hscan
    exact ⟨by simp, trivial⟩

theorem Current.replace {row : IndexRow} {previous : Table Identity} {other : Text}
    (h : Current index rootId previous) (hrow : row.contents.entries = ∅) :
    Current (index.insert other row) rootId previous := by
  unfold Current
  rw [entries_insert]
  split
  · exact .inr hrow
  · exact h

theorem Scanning.replace {row : IndexRow} {phase : StagedScans.Phase} {other : Text}
    (h : Scanning index progress chunks root phase) (hrow : row.contents.entries = ∅) :
    Scanning (index.insert other row) progress chunks root phase := by
  cases phase with
  | opened => trivial
  | failed => trivial
  | started staged => exact h
  | compared staged found previous =>
    obtain ⟨howns, hseen, hold, hcurrent, hfitting⟩ := h
    exact ⟨howns, hseen, hold, hcurrent.replace hrow, hfitting⟩
  | building found ids staged =>
    obtain ⟨howns, hhalf⟩ := h
    obtain ⟨previous, hcurrent, hfitting⟩ := hhalf.given
    exact ⟨howns, hhalf.seen, hhalf.paths, hhalf.rows, hhalf.itemIds, previous,
      hcurrent.replace hrow, hfitting⟩

theorem sound_replace {row : IndexRow} (h : Sound v roots s)
    (hstep : step v s (.replace rootId row) = some t) : Sound v roots t := by
  unfold step at hstep
  dsimp only at hstep
  split at hstep
  · rename_i hexternal
    have hcontents : row.contents = .external := by
      cases hkind : row.contents with
      | items p =>
        rw [hkind] at hexternal
        cases hexternal
      | external => rfl
    have hempty : row.contents.entries = ∅ := by
      rw [hcontents]
      rfl
    cases hstep
    refine ⟨⟨?_, ?_, ?_⟩, fun scan hscan => ?_⟩
    · intro other found p walked hfound hp hdigest
      rw [get_put] at hfound
      split at hfound
      · cases hfound
        rw [hcontents] at hp
        cases hp
      · exact h.stored.published other found p walked hfound hp hdigest
    · intro other
      rw [entries_insert]
      split
      · rw [hempty]
        intro p q e f hp
        simp at hp
      · exact h.stored.distinct other
    · intro other saved hsaved
      rw [entries_insert]
      split
      · rw [hempty]
        exact (h.stored.staged other saved hsaved).imp fun _ _ _ hholds => hholds.forget
      · exact h.stored.staged other saved hsaved
    · obtain ⟨hroot, hphase⟩ := h.scanning scan hscan
      exact ⟨hroot, hphase.replace hempty⟩
  · cases hstep

theorem sound_inner {e : StagedScans.Event} (h : Sound v roots s) (hdrawn : Drawn s e)
    (hscan : s.scan = some scan) (hstep : stepScan v scan s e = some t) : Sound v roots t := by
  cases e with
  | start runId => exact sound_start h hscan hstep
  | walk files => exact sound_walk h hdrawn hscan hstep
  | resume runId hex => exact sound_resume h hdrawn hscan hstep
  | build => exact sound_build h hscan hstep
  | publish => exact sound_publish h hscan hstep
  | fail => exact sound_fail h hscan hstep
  | report => exact sound_report h hstep
  | crash =>
    cases hstep
    exact sound_idle h.stored
  | scan root now => cases hstep
  | replace rootId row => cases hstep

theorem sound_step {e : StagedScans.Event} (h : Sound v roots s) (hdrawn : Drawn s e)
    (hstep : step v s e = some t) : Sound v (roots ++ scanned e) t := by
  cases e with
  | scan root now => exact sound_scan h hstep
  | replace rootId row =>
    show Sound v (roots ++ []) t
    rw [List.append_nil]
    exact sound_replace h hstep
  | _ =>
    obtain ⟨scan, hscan, hstep⟩ := Option.bind_eq_some_iff.mp hstep
    show Sound v (roots ++ []) t
    rw [List.append_nil]
    exact sound_inner h hdrawn hscan hstep

theorem run_sound (h : StagedScans.Run v s roots) : Sound v roots s := by
  induction h with
  | start roots index progress hlegacy =>
    refine ⟨⟨?_, ?_, ?_⟩, fun scan hscan => by cases hscan⟩
    · intro rootId row p walked hrow hp hdigest
      have hnone := (hlegacy.plain rootId row hrow).1
      rw [hp, Contents.fingerprint, hdigest] at hnone
      cases hnone
    · intro rootId
      unfold entries
      cases hrow : index[rootId]? with
      | none => exact fun p q e f hp => by simp at hp
      | some row => exact (hlegacy.plain rootId row hrow).2
    · intro rootId saved hsaved
      obtain ⟨hrun, hlegacy⟩ := hlegacy.staged rootId saved hsaved
      unfold Stands
      split
      · trivial
      · rename_i runId chunkCount hstaging
        exact (hrun runId chunkCount hstaging).elim
      · rename_i found items hstaging
        intro hlength
        obtain ⟨config, hconfig, hbuilt, hfitting⟩ := hlegacy found items hstaging hlength
        exact ⟨config, hconfig, hbuilt, hfitting⟩
  | step _ hdrawn hstep ih => exact sound_step ih hdrawn hstep

/-- What a scan publishes is its walk, in the order of the paths and with an identifier for each of
them; where the display prefix of a configuration stays the same, it is built anew from the root. -/
theorem published_rebuilt (h : StagedScans.Run v s roots) {row : IndexRow} {p : Published}
    {walked : Observation} (hrow : s.index[rootId]? = some row) (hp : row.contents = .items p)
    (hdigest : p.fingerprintDigest = some walked) :
    Rebuilt v roots rootId p walked ∧ ∀ root ∈ roots, p.root = some (publicRoot root walked) →
      root.config = walked.config →
      (∀ other ∈ roots, other.rootId = rootId → other.config = walked.config →
        other.displayPrefix = root.displayPrefix) →
      List.Forall₂ (fun file item => builtItem v root file item.itemId = some item) walked.files
        p.items := by
  have hrebuilt := (run_sound h).stored.published rootId row p walked hrow hp hdigest
  refine ⟨hrebuilt, ?_⟩
  intro root _ hpublic hconfig hprefix
  refine hrebuilt.items.imp fun file item hbuilt => ?_
  obtain ⟨other, hother, hid, hsame, hitem⟩ := hbuilt
  obtain ⟨found, _, hfoundId, _, hfound⟩ := hrebuilt.root
  have hrootId : root.rootId = found.rootId := by
    rw [hpublic, Option.some.injEq] at hfound
    exact congrArg PublicRoot.rootId hfound
  have hdisplay := hprefix other hother hid hsame
  unfold builtItem at hitem ⊢
  rw [hrootId, hfoundId, ← hid, ← hdisplay, hconfig, ← hsame]
  exact hitem

/-! A run. -/

instance (found : List Row) (old : Table Identity) (ids : List Text) (hex : Text → Text) :
    Decidable (Fresh found old ids hex) :=
  decidable_of_iff ((∀ p ∈ found.map Prod.fst, ∀ q ∈ found.map Prod.fst, hex p = hex q → p = q) ∧
      (∀ path ∈ found.map Prod.fst, '-' ∉ hex path) ∧
      (∀ path ∈ found.map Prod.fst, uid hex path ∉ oldIds old) ∧
      ∀ path ∈ found.map Prod.fst, uid hex path ∉ ids)
    ⟨fun h => ⟨h.1, h.2.1, h.2.2.1, h.2.2.2⟩, fun h => ⟨h.injective, h.plain, h.old, h.staged⟩⟩

instance (hex : Text → Text) : (phase : StagedScans.Phase) → Decidable (phase.Given hex)
  | .compared staged found previous =>
    inferInstanceAs (Decidable (Fresh found previous (staged.items.map (·.itemId)) hex))
  | .opened => instDecidableTrue
  | .started _ => instDecidableTrue
  | .building _ _ _ => instDecidableTrue
  | .failed => instDecidableTrue

instance (s : StagedScans.State) : (e : StagedScans.Event) → Decidable (Drawn s e)
  | .start runId => inferInstanceAs (Decidable (∀ chunk ∈ s.chunks, chunk.runId ≠ runId))
  | .walk files => inferInstanceAs (Decidable (∀ scan ∈ s.scan,
      ∀ found ∈ observed scan.root files, (found.map Prod.fst).Nodup))
  | .resume runId hex => inferInstanceAs (Decidable ((∀ chunk ∈ s.chunks, chunk.runId ≠ runId) ∧
      ∀ scan ∈ s.scan, scan.phase.Given hex))
  | .scan _ _ => instDecidableTrue
  | .build => instDecidableTrue
  | .publish => instDecidableTrue
  | .fail => instDecidableTrue
  | .report => instDecidableTrue
  | .crash => instDecidableTrue
  | .replace _ _ => instDecidableTrue

/-- The steps, if there is one for each of the events and what they draw is new. -/
def play (v : Service) (es : List StagedScans.Event) (s : StagedScans.State) (roots : List Root) :
    Option (StagedScans.State × List Root) :=
  Scripts.playLogged Drawn (step v) (fun _ => scanned) es s roots

theorem play_run {es : List StagedScans.Event} (h : StagedScans.Run v s roots)
    (hplay : play v es s roots = some (t, more)) : StagedScans.Run v t more :=
  Scripts.playLogged_keeps (StagedScans.Run v) (fun h hdrawn hu => h.step hdrawn hu) h hplay

def plainService : Service := ⟨Search.plain, fun _ => "2024-01-01T00:00:00Z".toList⟩

def bareStart : StagedScans.State := ⟨∅, ∅, [], none⟩

theorem bareStart_run : StagedScans.Run plainService bareStart [] :=
  .start _ _ _ ⟨fun rootId row hrow => by simp at hrow, fun rootId saved hsaved => by
    simp at hsaved⟩

def shownAs (displayPrefix : Text) : Root :=
  ⟨['r'], ['r'], displayPrefix, [], ⟨['1'], ⟨['1'], [], []⟩, [[]]⟩⟩

def oneFile : Text → Option (List Row) := fun _ => some [(['a'], ⟨1, 1, 0, 0⟩)]

def begun (displayPrefix : Text) (runId : Char) : List StagedScans.Event :=
  [.scan (shownAs displayPrefix) 1, .start [runId], .walk oneFile, .resume [runId, '+'] id]

def withDisplay (displayPrefix displayPath : Text) : Contents → Bool
  | .items p => (p.root.any fun root => root.displayPrefix = displayPrefix) ∧
      p.items.map (·.location.displayPath) = [displayPath] ∧ p.fingerprintDigest.isSome
  | .external => false

/-- The display prefix changes between a checkpoint and the scan that resumes with it. -/
theorem published_resumed :
    ∃ s roots row p walked, StagedScans.Run plainService s roots ∧
      s.index[(['r'] : Text)]? = some row ∧ row.contents = .items p ∧
      withDisplay ['B'] "A/a".toList row.contents = true ∧
      Rebuilt plainService roots ['r'] p walked := by
  have hrun : (play plainService (begun ['A'] '1' ++ [.build, .crash] ++ begun ['B'] '2' ++
      [.publish]) bareStart []).any (fun s => (s.1.index[(['r'] : Text)]?).any fun row =>
        withDisplay ['B'] "A/a".toList row.contents) = true := by
    decide +kernel
  obtain ⟨⟨s, roots⟩, hplay, hend⟩ := (Option.any_eq_true _ _).mp hrun
  obtain ⟨row, hrow, hend⟩ := (Option.any_eq_true _ _).mp hend
  have hreached := play_run bareStart_run hplay
  cases hp : row.contents with
  | items p =>
    rw [hp] at hend
    obtain ⟨walked, hdigest⟩ := Option.isSome_iff_exists.mp (of_decide_eq_true hend).2.2
    exact ⟨s, roots, row, p, walked, hreached, hrow, hp, by rw [hp]; exact hend,
      (published_rebuilt hreached hrow hp hdigest).1⟩
  | external =>
    rw [hp] at hend
    cases hend

end StagedPublication
