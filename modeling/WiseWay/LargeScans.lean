import WiseWay.LargeIdentity
import WiseWay.SearchTables

/-! # Large scans

`large_indexer.py`: a root is scanned into the rows of a run, a generation of the search tables
is built from them, and one transaction makes it the published one. What an earlier run has left
is discarded before a scan, and what it supersedes after it. A step is a transaction; between any
two of them the process may stop or crash. A digest stands for its parts. -/
namespace LargeScans

open Records EntryIds LargeIdentity SearchTables Sweeps
open Search hiding Row Location

/-- `_configuration`: what staged paths and public values depend on. -/
structure Config where
  rootId : Text
  label : Text
  displayPrefix : Text
  base : Text
  searchable : Bool
  schemaSetVersion : Text
  schema : Schema
  prefixes : List Text
  deriving DecidableEq, Repr

structure Observation where
  config : Config
  rows : List Row
  deriving DecidableEq, Repr

/-- A generation is named after its root and its fingerprint. -/
structure Generation where
  rootId : Text
  fingerprint : Observation
  deriving DecidableEq, Repr

inductive RunState where
  | scanning | failed | built | published
  deriving DecidableEq, Repr

/-- A row of `large_scan_runs`. -/
structure RunRow where
  rootId : Text
  state : RunState
  configDigest : Config
  fingerprintDigest : Option Observation
  entryCount : ℕ
  generation : Option Generation
  deriving DecidableEq, Repr

structure SqliteIndex where
  root : Config
  generation : Generation
  scanRunId : Text
  fingerprintDigest : Observation
  deriving DecidableEq, Repr

inductive Contents where
  | sqlite (published : SqliteIndex)
  | legacy (entryIds : Table Identity)
  | opensearch

structure IndexRow where
  contents : Contents
  indexedAt : Time
  freshness : Freshness

inductive ProgressStatus where
  | scanning | complete | failed | stopped
  deriving DecidableEq, Repr

structure Progress where
  status : ProgressStatus
  count : ℕ
  checkpoint : Option Text
  runId : Option Text
  deriving DecidableEq, Repr

inductive Phase where
  /-- `_discard_incomplete`, with the runs that are left. -/
  | discarding (runIds : List Text)
  | staging (count : ℕ)
  | staged
  /-- `_assign_ids` has written some identifiers and will not go on. -/
  | interrupted
  | assigned (fingerprint : Observation)
  | building (generation : Generation) (lastPath : Text)
  | built (generation : Generation)
  /-- The published index has been found unchanged, and the run is discarded. -/
  | unchanged
  /-- `_discard_superseded`, with the runs that are left. -/
  | cleaning (runIds : List Text)
  deriving DecidableEq, Repr

structure Scan where
  root : Config
  runId : Text
  phase : Phase
  deriving DecidableEq, Repr

structure State where
  roots : Table Config
  runs : Table RunRow
  entries : Table Scanned
  tables : Tables Generation
  index : Table IndexRow
  progress : Table Progress
  scan : Option Scan

/-- The search library, the digest of a path, and the time of a file as it is published. -/
structure Site where
  library : Library
  digest : Text → Text
  modifiedAt : Int → Text

def buildBatchSize : ℕ := 500

/-! Reading. -/

def Contents.generation : Contents → Option Generation
  | .sqlite published => some published.generation
  | _ => none

def pointed (s : State) : List Generation := (list s.index).filterMap (·.contents.generation)

def entriesOf (s : State) (runId : Text) : Scanned := (s.entries[runId]?).getD ∅

def runsOf (s : State) (rootId : Text) (p : RunRow → Bool) : List Text :=
  (s.runs.toList.filter fun entry => entry.2.rootId = rootId ∧ p entry.2).map Prod.fst

/-- The index row as `_assign_ids` reads it. -/
def previousIndex (s : State) (rootId : Text) : Option Index :=
  (s.index[rootId]?).map fun row => match row.contents with
    | .sqlite published => .sqlite published.scanRunId
    | .legacy entryIds => .legacy entryIds
    | .opensearch => .opensearch

/-- `_fingerprint`. -/
def observation (s : State) (scan : Scan) : Observation :=
  ⟨scan.root, rows (entriesOf s scan.runId)⟩

/-- `_unchanged`. -/
def unchanged (s : State) (scan : Scan) : Bool :=
  match (s.index[scan.root.rootId]?).map IndexRow.contents with
  | some (.sqlite published) => published.fingerprintDigest = observation s scan
  | _ => false

/-- The root has the configuration of the scan, and its progress is that of the run. -/
def Owned (s : State) (scan : Scan) : Prop :=
  s.roots[scan.root.rootId]? = some scan.root ∧
    (s.progress[scan.root.rootId]?).bind (·.runId) = some scan.runId

instance (s : State) (scan : Scan) : Decidable (Owned s scan) := by
  unfold Owned
  infer_instance

/-! Transactions: nothing if one raises. -/

def setPhase (phase : Phase) (s : State) : State :=
  { s with scan := s.scan.map fun scan => { scan with phase := phase } }

def updateRun (runId : Text) (change : RunRow → RunRow) (s : State) : State :=
  match s.runs[runId]? with
  | some run => { s with runs := s.runs.insert runId (change run) }
  | none => s

/-- The entries and the row of a run whose generation is gone. -/
def discardEntries (runId : Text) (s : State) : Bool × State :=
  match (paths (fun _ => true) (entriesOf s runId)).take 1000 with
  | [] => (true, { s with runs := s.runs.erase runId, entries := s.entries.erase runId })
  | batch => (false, { s with
      entries := s.entries.insert runId (batch.foldl (fun run path => run.erase path)
        (entriesOf s runId)) })

/-- One turn of `_discard_run`, and whether it was the last one. -/
def discardRun (runId : Text) (s : State) : Option (Bool × State) :=
  match s.runs[runId]? with
  | none => some (true, s)
  | some run =>
    match run.generation with
    | none => some (discardEntries runId s)
    | some generation =>
      match deleteGeneration s.tables (pointed s) generation 1000 with
      | .error _ => none
      | .ok (false, tables) => some (false, { s with tables := tables })
      | .ok (true, tables) => some (discardEntries runId { s with tables := tables })

/-- The second transaction of `_begin`. -/
def insertRun (scan : Scan) (s : State) : State :=
  { s with
    runs := s.runs.insert scan.runId ⟨scan.root.rootId, .scanning, scan.root, none, 0, none⟩
    progress := s.progress.insert scan.root.rootId ⟨.scanning, 0, none, some scan.runId⟩ }

def insertEntry (run : Scanned) (row : Row) : Scanned := run.insert row.1 ⟨row.2, none⟩

/-- One batch of `_stage`. -/
def stage (scan : Scan) (count : ℕ) (batch : List Row) (s : State) : Option State :=
  match (s.progress[scan.root.rootId]?).filter fun progress => progress.runId = some scan.runId with
  | none => none
  | some progress =>
    if (batch.map Prod.fst).Nodup ∧
        ∀ row ∈ batch, (entriesOf s scan.runId)[row.1]? = none then
      some (updateRun scan.runId (fun run => { run with entryCount := count })
        { s with
          entries := s.entries.insert scan.runId (batch.foldl insertEntry (entriesOf s scan.runId))
          progress := s.progress.insert scan.root.rootId
            { progress with count := count, checkpoint := batch.getLast?.map Prod.fst } })
    else none

/-- The transaction of `_complete_unchanged`. -/
def completeUnchanged (scan : Scan) (count : ℕ) (now : Time) (s : State) : Option State :=
  match s.index[scan.root.rootId]? with
  | none => none
  | some previous =>
    if Owned s scan then
      some { s with
        index := s.index.insert scan.root.rootId
          { previous with freshness := ⟨previous.indexedAt, now, .current⟩ }
        progress := s.progress.insert scan.root.rootId ⟨.complete, count, none, none⟩ }
    else none

/-- The first transaction of `_build_generation`. -/
def createFor (scan : Scan) (fingerprint : Observation) (s : State) :
    Option (State × Generation) :=
  let generation : Generation := ⟨scan.root.rootId, fingerprint⟩
  match createGeneration s.tables scan.root.rootId generation with
  | .error _ => none
  | .ok tables => some (updateRun scan.runId (fun run => { run with generation := some generation })
      { s with tables := tables }, generation)

section Site

variable (v : Site)

def builtItem (root : Config) (path : Text) (entry : Entry) : Option Item :=
  entry.itemId.bind fun itemId =>
    (buildItem v.library root.rootId root.displayPrefix root.schema
      ⟨path, entry.data.size, v.modifiedAt entry.data.mtimeNs, itemId⟩).toOption

def builtItems (root : Config) (run : Scanned) (batch : List Text) : Option (List Item) :=
  batch.mapM fun path => (run[path]?).bind (builtItem v root path)

/-- One batch of items. -/
def addBatch (root : Config) (runId : Text) (generation : Generation) (batch : List Text)
    (s : State) : Option State :=
  (builtItems v root (entriesOf s runId) batch).bind fun items =>
    match addItems v.library s.tables generation items with
    | .error _ => none
    | .ok tables => some { s with tables := tables }

/-- The last transaction of `_build_generation`. -/
def finishBuild (runId : Text) (generation : Generation) (s : State) : Option State :=
  match finish s.tables generation with
  | .error _ => none
  | .ok tables => some (updateRun runId
      (fun run => { run with state := .built, generation := some generation })
      { s with tables := tables })

/-- `_publish`. -/
def publish (scan : Scan) (generation : Generation) (now : Time) (s : State) : Option State :=
  if Owned s scan then
    match activateGeneration s.tables generation with
    | .error _ => none
    | .ok tables =>
      let fingerprint := generation.fingerprint
      some (updateRun scan.runId
        (fun run => { run with state := .published, fingerprintDigest := some fingerprint })
        { s with
          tables := tables
          index := s.index.insert scan.root.rootId
            ⟨.sqlite ⟨scan.root, generation, scan.runId, fingerprint⟩, now, now, now, .current⟩
          progress := s.progress.insert scan.root.rootId
            ⟨.complete, fingerprint.rows.length, none, none⟩ })
  else none

/-- `_fail`. -/
def fail (scan : Scan) (s : State) : State :=
  let failed := updateRun scan.runId (fun run => { run with state := .failed }) s
  let progress := (s.progress[scan.root.rootId]?).getD ⟨.failed, 0, none, none⟩
  { failed with
    progress := s.progress.insert scan.root.rootId { progress with status := .failed }
    index := match s.index[scan.root.rootId]? with
      | some previous => s.index.insert scan.root.rootId { previous with
          freshness := ⟨previous.indexedAt, previous.freshness.lastSuccessfulSyncAt, .stale⟩ }
      | none => s.index }

/-- `_stopped`. -/
def stopped (scan : Scan) (s : State) : State :=
  match s.progress[scan.root.rootId]? with
  | some progress =>
    if progress.runId = some scan.runId then
      { s with progress := s.progress.insert scan.root.rootId { progress with status := .stopped } }
    else s
  | none => s

/-- The scan has a run that `_fail` and `_stopped` know of, and it has not been published. -/
def Phase.working : Phase → Bool
  | .discarding _ => false
  | .cleaning _ => false
  | _ => true

inductive Event where
  /-- A scan of a root as the indexer has read it, with the name that is drawn for its run. -/
  | scan (root : Config) (runId : Text)
  /-- One turn of `_discard_run`. -/
  | discard
  | insertRun
  /-- A batch of files that are not technical ones. -/
  | stage (batch : List Row)
  /-- The tree has been walked to its end. -/
  | walked
  | complete (now : Time)
  | assign
  /-- Only some identifiers are written. -/
  | assignPart (run : Scanned)
  | create
  | build
  | publish (now : Time)
  | fail
  | stop
  /-- Also the end of a clean-up, which is not reported. -/
  | crash
  | configure (rootId : Text) (root : Config)
  /-- Another indexer replaces the index row. -/
  | replace (rootId : Text) (row : IndexRow)

/-- One turn for the first of some runs. -/
def discardNext (runIds : List Text) (phase : List Text → Phase) (s : State) : Option State :=
  match runIds with
  | [] => none
  | runId :: rest => (discardRun runId s).map fun (done, t) =>
      setPhase (phase (if done then rest else runId :: rest)) t

def stepScan (scan : Scan) (s : State) : Event → Option State
  | .discard =>
    match scan.phase with
    | .discarding runIds => discardNext runIds .discarding s
    | .unchanged => (discardRun scan.runId s).map fun (done, t) =>
        if done then { t with scan := none } else t
    | .cleaning runIds => discardNext runIds .cleaning s
    | _ => none
  | .insertRun =>
    match scan.phase with
    | .discarding [] => some (setPhase (.staging 0) (insertRun scan s))
    | _ => none
  | .stage batch =>
    match scan.phase with
    | .staging count =>
      if batch ≠ [] ∧ batch.length ≤ writeBatchSize ∧ ∀ row ∈ batch, row.1 ≠ [] then
        (stage scan (count + batch.length) batch s).map
          (setPhase (.staging (count + batch.length)))
      else none
    | _ => none
  | .walked =>
    match scan.phase with
    | .staging _ => some (setPhase .staged s)
    | _ => none
  | .complete now =>
    match scan.phase with
    | .staged => if unchanged s scan then
        (completeUnchanged scan (observation s scan).rows.length now s).map (setPhase .unchanged)
      else none
    | _ => none
  | .assign =>
    match scan.phase with
    | .staged => if unchanged s scan then none
      else
        let staged := entriesOf s scan.runId
        (assignIds v.digest scan.root.rootId s.entries (previousIndex s scan.root.rootId)
          ((rows staged).length + 1) staged).map fun run =>
            setPhase (.assigned (observation s scan))
              { s with entries := s.entries.insert scan.runId run }
    | _ => none
  | .assignPart run =>
    match scan.phase with
    | .staged => if unchanged s scan ∨ rows run ≠ rows (entriesOf s scan.runId) then none
      else some (setPhase .interrupted { s with entries := s.entries.insert scan.runId run })
    | _ => none
  | .create =>
    match scan.phase with
    | .assigned fingerprint => (createFor scan fingerprint s).map fun (t, generation) =>
        setPhase (.building generation []) t
    | _ => none
  | .build =>
    match scan.phase with
    | .building generation lastPath =>
      let batch := page buildBatchSize lastPath (paths (fun _ => true) (entriesOf s scan.runId))
      match batch.getLast? with
      | none => (finishBuild scan.runId generation s).map (setPhase (.built generation))
      | some top => (addBatch v scan.root scan.runId generation batch s).map
          (setPhase (.building generation top))
    | _ => none
  | .publish now =>
    match scan.phase with
    | .built generation => (publish scan generation now s).map fun t =>
        setPhase (.cleaning ((runsOf t scan.root.rootId (·.state = .published)).filter
          (· ≠ scan.runId))) t
    | _ => none
  | .fail => if scan.phase.working then some { fail scan s with scan := none } else none
  | .stop => if scan.phase.working then some { stopped scan s with scan := none } else none
  | .crash => some { s with scan := none }
  | _ => none

def step (s : State) : Event → Option State
  | .configure rootId root => some { s with roots := s.roots.insert rootId root }
  | .scan root runId =>
    match s.scan with
    | none => some { s with scan := some ⟨root, runId,
        .discarding (runsOf s root.rootId (·.state ≠ .published))⟩ }
    | some _ => none
  | .replace rootId row => if row.contents.generation = none then
      some { s with index := s.index.insert rootId row } else none
  | e => match s.scan with
    | none => none
    | some scan => stepScan v scan s e

/-- `uid` draws new names. -/
def Drawn (s : State) : Event → Prop
  | .scan _ runId => s.runs[runId]? = none ∧ s.entries[runId]? = none
  | _ => True

instance (s : State) (e : Event) : Decidable (Drawn s e) := by
  cases e <;> unfold Drawn <;> infer_instance

inductive Run : State → Prop where
  | start (roots : Table Config) (index : Table IndexRow) (progress : Table Progress) :
      (∀ (k : Text) row, index[k]? = some row → row.contents.generation = none) →
      Run ⟨roots, ∅, ∅, {}, index, progress, none⟩
  | step {s t : State} {e : Event} : Run s → Drawn s e → step v s e = some t → Run t

end Site

end LargeScans
