import Mathlib.Data.List.DropRight
import WiseWay.EntryIds
import WiseWay.Search

/-! # Staged scans

`Indexer._scan_search_root`: the items of a root are built a hundred at a time and kept in chunks,
so that an interrupted scan can be resumed, and one transaction publishes all of them. A step is a
transaction with what the scanner computes before it. A digest stands for its parts. -/
namespace StagedScans

open Records Intake EntryIds SearchText
open Search hiding Row Location

/-- What the digest of a configuration covers. -/
structure Config where
  schemaSetVersion : Text
  schema : Schema
  prefixes : List Text
  deriving DecidableEq, Repr

structure Root where
  rootId : Text
  label : Text
  displayPrefix : Text
  base : Text
  config : Config
  deriving DecidableEq, Repr

structure Observation where
  files : List Row
  config : Config
  deriving DecidableEq, Repr

/-- A generation is named after its root and its fingerprint. -/
structure PublicRoot where
  rootId : Text
  label : Text
  displayPrefix : Text
  schemaSetVersion : Text
  indexGeneration : Text × Observation
  deriving DecidableEq, Repr

/-- An index document with its items. Older ones have no fingerprint. -/
structure Published where
  root : Option PublicRoot
  items : List Item
  entryIds : Table Identity
  fingerprintDigest : Option Observation

/-- An external index belongs to SQLite or OpenSearch. -/
inductive Contents where
  | items (published : Published)
  | external

structure IndexRow where
  contents : Contents
  indexedAt : Time
  freshness : Freshness

inductive ProgressStatus where
  | scanning | failed | complete
  deriving DecidableEq, Repr

/-- Older deployments keep everything that is staged in the progress record. -/
inductive Staging where
  | none
  | run (runId : Text) (chunkCount : ℕ)
  | legacy (found : List Row) (items : List Item)
  deriving DecidableEq, Repr

structure Progress where
  status : ProgressStatus
  count : ℕ
  checkpoint : Option Text
  configDigest : Option Config
  staging : Staging
  deriving DecidableEq, Repr

structure Chunk where
  rootId : Text
  runId : Text
  sequence : ℕ
  found : List Row
  items : List Item
  deriving DecidableEq, Repr

/-- What a scan resumes with. -/
structure Staged where
  found : List Row
  items : List Item
  runId : Text
  chunkCount : ℕ
  deriving DecidableEq, Repr

inductive Phase where
  | opened
  | started (staged : Staged)
  /-- The index that has been read, as `_entry_ids` uses it. -/
  | compared (staged : Staged) (found : List Row) (previous : Table Identity)
  | building (found : List Row) (ids : List (Text × Text)) (staged : Staged)
  /-- An exception has been caught. -/
  | failed

structure Scan where
  root : Root
  now : Time
  phase : Phase

structure State where
  index : Table IndexRow
  progress : Table Progress
  chunks : List Chunk
  scan : Option Scan

/-- The search library, and the time of a file as it is published. -/
structure Service where
  library : Library
  modifiedAt : Int → Text

def checkpointInterval : ℕ := 100

/-! The walk. -/

def stripBase (path base : Text) : Text :=
  if base ≠ [] ∧ base ++ ['/'] <+: path then path.drop (base.length + 1) else path

def technicalName (path : Text) : Bool :=
  path.rtakeWhile (· ≠ '/') ∈ [".DS_Store".toList, "Thumbs.db".toList]

def physical (base part : Text) : Text := joinWith ['/'] ([base, part].filter (· ≠ []))

/-- `sorted`, which cannot compare the metadata of two entries with one path. -/
def sorted (rows : List Row) : Option (List Row) :=
  if ∀ row ∈ rows, ∀ other ∈ rows, row.1 = other.1 → row.2 = other.2 then
    some (rows.mergeSort fun row other => row.1 ≤ other.1)
  else none

/-- `_walk`. The argument lists the files below a directory, or fails. -/
def walk (root : Root) (files : Text → Option (List Row)) : Option (List Row) :=
  (root.config.prefixes.mapM fun part => files (physical root.base part)).bind fun found =>
    sorted (found.flatten.map fun row => (stripBase row.1 root.base, row.2))

def observed (root : Root) (files : Text → Option (List Row)) : Option (List Row) :=
  (walk root files).map fun found => found.filter fun row => !technicalName row.1

/-! The chunks. -/

def putChunk (chunk : Chunk) (chunks : List Chunk) : List Chunk :=
  chunks.filter (fun other => ¬(other.rootId = chunk.rootId ∧ other.runId = chunk.runId ∧
    other.sequence = chunk.sequence)) ++ [chunk]

/-- `_clear_chunks` of a root. -/
def clearChunks (rootId : Text) (chunks : List Chunk) : List Chunk :=
  chunks.filter (·.rootId ≠ rootId)

/-- `_clear_chunks` of a run. -/
def clearRun (rootId runId : Text) (chunks : List Chunk) : List Chunk :=
  chunks.filter fun chunk => ¬(chunk.rootId = rootId ∧ chunk.runId = runId)

def validEntry (rootId : Text) (entry : Row) (item : Item) : Bool :=
  item.itemId ≠ [] ∧ item.location.rootId = rootId ∧ item.location.relativePath = entry.1

def validChunk (rootId runId : Text) (expected : ℕ) (chunk : Chunk) : Bool :=
  chunk.rootId = rootId ∧ chunk.runId = runId ∧ chunk.sequence = expected ∧ chunk.found ≠ [] ∧
    chunk.found.length = chunk.items.length ∧ chunk.found.length ≤ checkpointInterval ∧
    (chunk.found.zip chunk.items).all fun pair => validEntry rootId pair.1 pair.2

def loadFrom (rootId runId : Text) : ℕ → List Chunk → Option (List Row × List Item × ℕ)
  | expected, [] => some ([], [], expected)
  | expected, chunk :: rest =>
    if validChunk rootId runId expected chunk then
      (loadFrom rootId runId (expected + 1) rest).map fun (found, items, count) =>
        (chunk.found ++ found, chunk.items ++ items, count)
    else none

/-- `_load_chunks`. -/
def loadChunks (rootId runId : Text) (count : ℕ) (chunks : List Chunk) :
    Option (List Row × List Item × ℕ) :=
  (loadFrom rootId runId 0 ((chunks.filter fun chunk =>
    chunk.rootId = rootId ∧ chunk.runId = runId).mergeSort fun chunk other =>
      chunk.sequence ≤ other.sequence)).filter fun loaded => loaded.2.1.length = count

def sliceCount (count : ℕ) : ℕ := (count + checkpointInterval - 1) / checkpointInterval

def slice {α : Type} (sequence : ℕ) (rows : List α) : List α :=
  (rows.drop (checkpointInterval * sequence)).take checkpointInterval

/-- The upgrade of a progress record that holds everything. -/
def upgrade (rootId runId : Text) (found : List Row) (items : List Item) (chunks : List Chunk) :
    List Chunk :=
  (List.range (sliceCount items.length)).foldl (fun chunks sequence =>
    putChunk ⟨rootId, runId, sequence, slice sequence found, slice sequence items⟩ chunks)
    (clearChunks rootId chunks)

/-! Transactions. -/

def scanProgress (root : Root) (staged : Staged) : Progress where
  status := .scanning
  count := staged.items.length
  checkpoint := staged.found.getLast?.map Prod.fst
  configDigest := some root.config
  staging := .run staged.runId staged.chunkCount

/-- What can be resumed, with the chunks that hold it then. -/
def resumable (root : Root) (runId : Text) (s : State) : Option (Staged × List Chunk) :=
  ((s.progress[root.rootId]?).filter fun saved =>
    saved.status ≠ .complete ∧ saved.configDigest = some root.config).bind fun saved =>
  match saved.staging with
  | .none => none
  | .run savedId chunkCount =>
    ((loadChunks root.rootId savedId saved.count s.chunks).filter fun loaded =>
      loaded.2.2 = chunkCount).map fun (found, items, count) =>
        (⟨found, items, savedId, count⟩, s.chunks)
  | .legacy found items =>
    if found.length = items.length ∧ saved.count = items.length then
      some (⟨found, items, runId, sliceCount items.length⟩,
        upgrade root.rootId runId found items s.chunks)
    else none

/-- `_start_search_progress`. -/
def startProgress (root : Root) (runId : Text) (s : State) : Staged × State :=
  let (staged, chunks) := (resumable root runId s).getD
    (⟨[], [], runId, 0⟩, clearChunks root.rootId s.chunks)
  (staged, { s with
    chunks := chunks
    progress := s.progress.insert root.rootId (scanProgress root staged) })

/-- `_reset_search_progress`. -/
def resetProgress (root : Root) (runId : Text) (s : State) : Staged × State :=
  let staged : Staged := ⟨[], [], runId, 0⟩
  (staged, { s with
    chunks := clearChunks root.rootId s.chunks
    progress := s.progress.insert root.rootId (scanProgress root staged) })

def Contents.entries : Contents → Table Identity
  | .items published => published.entryIds
  | .external => ∅

def Contents.fingerprint : Contents → Option Observation
  | .items published => published.fingerprintDigest
  | .external => none

/-- The `_entry_ids` map of the index of a root. -/
def entries (index : Table IndexRow) (rootId : Text) : Table Identity :=
  ((index[rootId]?).map (·.contents.entries)).getD ∅

/-- The index row of a root, if it has this fingerprint. -/
def sameIndex (s : State) (rootId : Text) (fingerprint : Observation) : Option IndexRow :=
  (s.index[rootId]?).filter (·.contents.fingerprint = some fingerprint)

/-- A scan that has found nothing new. -/
def complete (scan : Scan) (runId : Text) (count : ℕ) (row : IndexRow) (s : State) : State where
  index := s.index.insert scan.root.rootId
    { row with freshness := ⟨row.indexedAt, scan.now, .current⟩ }
  progress := s.progress.insert scan.root.rootId ⟨.complete, count, none, none, .none⟩
  chunks := clearRun scan.root.rootId runId s.chunks
  scan := none

def Contents.isExternal : Contents → Bool
  | .items _ => false
  | .external => true

def Contents.count : Contents → ℕ
  | .items published => published.items.length
  | .external => 0

def setPhase (phase : Phase) (s : State) : State :=
  { s with scan := s.scan.map fun scan => { scan with phase := phase } }

/-- The walk and the first comparison. -/
def observe (scan : Scan) (staged : Staged) (files : Text → Option (List Row)) (s : State) :
    State :=
  match observed scan.root files with
  | none => setPhase .failed s
  | some found =>
    match sameIndex s scan.root.rootId ⟨found, scan.root.config⟩ with
    | some row => complete scan staged.runId row.contents.count row s
    | none => setPhase (.compared staged found (entries s.index scan.root.rootId)) s

/-- The check of what is staged, and `_entry_ids`. -/
def resume (scan : Scan) (staged : Staged) (found : List Row) (previous : Table Identity)
    (runId : Text) (hex : Text → Text) (s : State) : State :=
  let (staged, s) :=
    if found.take staged.found.length = staged.found ∧
        staged.found.length = staged.items.length then (staged, s)
    else resetProgress scan.root runId s
  setPhase (.building found (entryIds scan.root.rootId found previous hex
    (staged.items.map (·.itemId))) staged) s

/-- `_checkpoint`; the staged rows are those of the checkpoint before. -/
def checkpoint (root : Root) (staged : Staged) (rows : List Row) (items : List Item) (s : State) :
    Option (Staged × State) :=
  ((s.progress[root.rootId]?).filter fun progress =>
    progress.staging = .run staged.runId staged.chunkCount ∧
      progress.count = staged.items.length).map fun _ =>
  let later : Staged :=
    ⟨staged.found ++ rows, staged.items ++ items, staged.runId, staged.chunkCount + 1⟩
  (later, { s with
    chunks := putChunk ⟨root.rootId, staged.runId, staged.chunkCount, rows, items⟩ s.chunks
    progress := s.progress.insert root.rootId (scanProgress root later) })

section Service

variable (v : Service)

def builtItem (root : Root) (file : Row) (itemId : Text) : Option Item :=
  (buildItem v.library root.rootId root.displayPrefix root.config.schema
    ⟨file.1, file.2.size, v.modifiedAt file.2.mtimeNs, itemId⟩).toOption

def builtItems (root : Root) (ids : List (Text × Text)) (rows : List Row) : Option (List Item) :=
  rows.mapM fun file => builtItem v root file ((ids.lookup file.1).getD [])

def nextRows (found : List Row) (count : ℕ) : List Row :=
  (found.drop count).take (checkpointInterval - count % checkpointInterval)

def build (root : Root) (found : List Row) (ids : List (Text × Text)) (staged : Staged)
    (s : State) : State :=
  let rows := nextRows found staged.items.length
  match builtItems v root ids rows with
  | none => setPhase .failed s
  | some items =>
    match checkpoint root staged rows items s with
    | none => setPhase .failed s
    | some (later, s) => setPhase (.building found ids later) s

end Service

def publicRoot (root : Root) (fingerprint : Observation) : PublicRoot where
  rootId := root.rootId
  label := root.label
  displayPrefix := root.displayPrefix
  schemaSetVersion := root.config.schemaSetVersion
  indexGeneration := (root.rootId, fingerprint)

/-- The last transaction. -/
def publish (scan : Scan) (found : List Row) (ids : List (Text × Text)) (staged : Staged)
    (s : State) : State :=
  let fingerprint : Observation := ⟨found, scan.root.config⟩
  match sameIndex s scan.root.rootId fingerprint with
  | some row => complete scan staged.runId staged.items.length row s
  | none => complete scan staged.runId staged.items.length
    ⟨.items ⟨some (publicRoot scan.root fingerprint), staged.items, published found ids,
      some fingerprint⟩, scan.now, ⟨scan.now, scan.now, .current⟩⟩ s

/-- What is written when an exception has been caught. -/
def report (scan : Scan) (s : State) : State where
  index := match s.index[scan.root.rootId]? with
    | some previous => s.index.insert scan.root.rootId { previous with
        freshness := ⟨previous.indexedAt, previous.freshness.lastSuccessfulSyncAt, .stale⟩ }
    | none => s.index
  progress := s.progress.insert scan.root.rootId
    { (s.progress[scan.root.rootId]?).getD ⟨.failed, 0, none, none, .none⟩ with status := .failed }
  chunks := s.chunks
  scan := none

inductive Event where
  /-- A scan of a root as the indexer has read it. -/
  | scan (root : Root) (now : Time)
  | start (runId : Text)
  | walk (files : Text → Option (List Row))
  /-- With the name and the identifiers that are drawn. -/
  | resume (runId : Text) (hex : Text → Text)
  | build
  | publish
  | fail
  | report
  | crash
  /-- Another indexer replaces the index row. -/
  | replace (rootId : Text) (row : IndexRow)

def stepScan (v : Service) (scan : Scan) (s : State) : Event → Option State
  | .start runId =>
    match scan.phase with
    | .opened => some (setPhase (.started (startProgress scan.root runId s).1)
        (startProgress scan.root runId s).2)
    | _ => none
  | .walk files =>
    match scan.phase with
    | .started staged => some (observe scan staged files s)
    | _ => none
  | .resume runId hex =>
    match scan.phase with
    | .compared staged found previous => some (resume scan staged found previous runId hex s)
    | _ => none
  | .build =>
    match scan.phase with
    | .building found ids staged =>
      if staged.items.length < found.length then some (build v scan.root found ids staged s)
      else none
    | _ => none
  | .publish =>
    match scan.phase with
    | .building found ids staged =>
      if found.length ≤ staged.items.length then some (publish scan found ids staged s) else none
    | _ => none
  | .fail =>
    match scan.phase with
    | .opened => none
    | _ => some (setPhase .failed s)
  | .report =>
    match scan.phase with
    | .failed => some (report scan s)
    | _ => none
  | .crash => some { s with scan := none }
  | _ => none

def step (v : Service) (s : State) : Event → Option State
  | .scan root now =>
    if s.scan.isSome ∨ (s.index[root.rootId]?).any (·.contents.isExternal) then none
    else some { s with scan := some ⟨root, now, .opened⟩ }
  | .replace rootId row =>
    if row.contents.isExternal then some { s with index := s.index.insert rootId row } else none
  | e => s.scan.bind fun scan => stepScan v scan s e

/-- The identifiers that `_entry_ids` draws are new. -/
def Phase.Given (hex : Text → Text) : Phase → Prop
  | .compared staged found previous => Fresh found previous (staged.items.map (·.itemId)) hex
  | _ => True

/-- The names and identifiers that are drawn are new, and no file is below two prefixes. -/
def Drawn (s : State) : Event → Prop
  | .start runId => ∀ chunk ∈ s.chunks, chunk.runId ≠ runId
  | .walk files => ∀ scan ∈ s.scan, ∀ found ∈ observed scan.root files, (found.map Prod.fst).Nodup
  | .resume runId hex => (∀ chunk ∈ s.chunks, chunk.runId ≠ runId) ∧
      ∀ scan ∈ s.scan, scan.phase.Given hex
  | _ => True

def scanned : Event → List Root
  | .scan root _ => [root]
  | _ => []

section Service

variable (v : Service)

/-- The item of a file, as a scan of one of the roots with this configuration has built it. -/
def BuiltUnder (roots : List Root) (rootId : Text) (config : Config) (file : Row) (item : Item) :
    Prop :=
  ∃ root ∈ roots, root.rootId = rootId ∧ root.config = config ∧
    builtItem v root file item.itemId = some item

/-- What an older deployment has left: records of roots that it has scanned. -/
structure Legacy (roots : List Root) (index : Table IndexRow) (progress : Table Progress) :
    Prop where
  plain : ∀ (rootId : Text) (row : IndexRow), index[rootId]? = some row →
    row.contents.fingerprint = none ∧ Distinct row.contents.entries
  staged : ∀ (rootId : Text) (saved : Progress), progress[rootId]? = some saved →
    (∀ runId chunkCount, saved.staging ≠ .run runId chunkCount) ∧
    ∀ found items, saved.staging = .legacy found items → found.length = items.length →
      ∃ config, saved.configDigest = some config ∧
        List.Forall₂ (BuiltUnder v roots rootId config) found items ∧
        Fitting (entries index rootId) found (items.map (·.itemId))

/-- A run with the roots that have been scanned. -/
inductive Run : State → List Root → Prop where
  | start (roots : List Root) (index : Table IndexRow) (progress : Table Progress) :
      Legacy v roots index progress → Run ⟨index, progress, [], none⟩ roots
  | step {s t : State} {roots : List Root} {e : Event} : Run s roots → Drawn s e →
      step v s e = some t → Run t (roots ++ scanned e)

end Service

end StagedScans
