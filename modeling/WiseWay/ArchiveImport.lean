import WiseWay.Records

/-! # Archive imports

`archive_import.py` with the bulk builder of `opensearch.py`: manifests are streamed into a
search engine in batches, with a checkpoint after each of them, and published as points in time.
One importer runs at a time. A manifest is immutable and known by its hash, which stands for its
bytes, as a configuration hash stands for the configuration. -/
namespace ArchiveImport

open Records

abbrev Bytes := List UInt8

inductive Mode where
  | full | delta
  deriving DecidableEq, Repr

inductive JobState where
  | building | published | aborted
  deriving DecidableEq, Repr

/-- What `document` makes of a record: a deleted one has no body. -/
structure Doc where
  itemId : Text
  body : Option Text
  deriving DecidableEq, Repr

/-- A row of `imports`. -/
structure Job where
  id : ℕ
  rootId : Text
  sourceHash : Bytes
  mode : Mode
  configHash : Text
  base : Option Text
  indexName : Text
  generation : Text
  byteOffset : ℕ
  records : ℕ
  state : JobState
  deriving DecidableEq, Repr

structure Root where
  searchable : Bool
  config : Text
  deriving DecidableEq, Repr

structure Snapshot where
  indexName : Text
  pitId : Text
  searchFormat : Text
  importGeneration : Text
  deriving DecidableEq, Repr

structure IndexRow where
  generation : Text
  storage : Option Snapshot
  deriving DecidableEq, Repr

/-- A document in the engine with its external version. -/
structure Stored where
  version : ℕ
  doc : Doc
  deriving DecidableEq, Repr

structure EngineIndex where
  config : Text
  docs : Table Stored

/-- A document with the version it is given and the place behind its record. -/
structure Revision where
  doc : Doc
  version : ℕ
  offset : ℕ
  deriving DecidableEq, Repr

/-- The handle, the records that are in batches, and the record read ahead. -/
structure Cursor where
  position : ℕ
  count : ℕ
  pending : Option Revision
  deriving DecidableEq, Repr

structure BulkBatchBuilder where
  records : List Revision
  size : ℕ
  deriving DecidableEq, Repr

/-- How far `run` has come since it claimed its job. -/
inductive Phase where
  | reading (cursor : Cursor)
  | sending (batch : List Revision) (offset : ℕ) (cursor : Cursor)
  | delivered (offset : ℕ) (cursor : Cursor)
  | exhausted
  | pinned (pitId : Text)
  | committed
  deriving DecidableEq, Repr

structure Attempt where
  job : Job
  phase : Phase
  deriving DecidableEq, Repr

/-- A revision that the engine was given for a job. -/
structure Sent where
  jobId : ℕ
  revision : Revision
  deriving DecidableEq, Repr

/-- `sequence` is the counter of `AUTOINCREMENT`, and `sent` a ghost. -/
structure World where
  jobs : List Job
  sequence : ℕ
  root : Table Root
  index : Table IndexRow
  engine : Table EngineIndex
  pits : Table (Table Stored)
  attempt : Option Attempt
  sent : List Sent

/-- The importer's settings, `json.loads` with `_record`, and the length of an encoded pair of
action and document. -/
structure Service where
  batchSize : ℕ
  bulkTargetBytes : ℕ
  record : Text → Mode → Bytes → Option Doc
  encodedSize : Doc → ℕ → ℕ

inductive ImportError where
  | lineLimit | rangeExhausted | invalidRecord | invalidVersion | hardLimit
  deriving DecidableEq, Repr

def maxLine : ℕ := 256 * 1024

def versionRange : ℕ := 1000000000

def hardLimitBytes : ℕ := 16 * 1024 * 1024

def searchFormat : Text := "wiseway-search-3".toList

/-- `handle.readline(MAX_LINE + 1)`. -/
def readLine (rest : Bytes) : Bytes :=
  rest.take (min ((rest.takeWhile (· ≠ 10)).length + 1) (maxLine + 1))

/-! A batch. -/

section Batch

variable (v : Service)

/-- `BulkBatchBuilder.add`: nothing if the record has to wait for the next batch. -/
def BulkBatchBuilder.add (builder : BulkBatchBuilder) (r : Revision) :
    Except ImportError (Option BulkBatchBuilder) :=
  if 5000 ≤ builder.records.length ∨ ¬(0 < r.version ∧ r.version < 2 ^ 63) then
    .error .invalidVersion
  else if hardLimitBytes < v.encodedSize r.doc r.version then .error .hardLimit
  else if builder.records ≠ [] ∧
      v.bulkTargetBytes < builder.size + v.encodedSize r.doc r.version then .ok none
  else .ok (some ⟨builder.records ++ [r], builder.size + v.encodedSize r.doc r.version⟩)

/-- The record at the handle: nothing at the end of the manifest. -/
def readRecord (job : Job) (cursor : Cursor) : Except ImportError (Option Revision) :=
  let line := readLine (job.sourceHash.drop cursor.position)
  if line = [] then .ok none
  else if maxLine < line.length then .error .lineLimit
  else if versionRange ≤ cursor.count + 1 ∨ 2 ^ 63 / versionRange - 1 ≤ job.id then
    .error .rangeExhausted
  else match v.record job.configHash job.mode line with
    | none => .error .invalidRecord
    | some doc =>
      .ok (some ⟨doc, job.id * versionRange + cursor.count + 1, cursor.position + line.length⟩)

/-- The record that comes next, read or read ahead. -/
def nextRecord (job : Job) (cursor : Cursor) : Except ImportError (Option Revision) :=
  match cursor.pending with
  | some r => .ok (some r)
  | none => readRecord v job cursor

/-- The inner loop, for at most so many records. `batchOffset` is the place behind the last
record of the batch. -/
def fillBatch (job : Job) : ℕ → Cursor → BulkBatchBuilder → Option ℕ →
    Except ImportError (Cursor × BulkBatchBuilder × Option ℕ)
  | 0, cursor, builder, batchOffset => .ok (cursor, builder, batchOffset)
  | n + 1, cursor, builder, batchOffset =>
    match nextRecord v job cursor with
    | .error e => .error e
    | .ok none => .ok (cursor, builder, batchOffset)
    | .ok (some r) =>
      let ahead : Cursor := { cursor with position := r.offset, pending := some r }
      match builder.add v r with
      | .error e => .error e
      | .ok none => .ok (ahead, builder, batchOffset)
      | .ok (some added) =>
        fillBatch job n ⟨r.offset, cursor.count + 1, none⟩ added (some r.offset)

end Batch

/-! The journal and the engine. -/

/-- The newest job for a manifest that has not been aborted. -/
def existingJob (rootId : Text) (source : Bytes) (mode : Mode) (base : Option Text) (w : World) :
    Option Job :=
  w.jobs.reverse.find? fun job => job.rootId = rootId ∧ job.sourceHash = source ∧
    job.mode = mode ∧ job.base = base ∧ job.state ≠ .aborted

/-- The index that a delta goes to: that of its base, as long as no delta to it was aborted. -/
def deltaIndex (rootId : Text) (base : Option Text) (w : World) : Option Text :=
  (w.index[rootId]?).bind fun old => old.storage.bind fun snapshot =>
    if some old.generation = base ∧ snapshot.searchFormat = searchFormat ∧
        ∀ job ∈ w.jobs, ¬(job.indexName = snapshot.indexName ∧ job.state = .aborted)
    then some snapshot.indexName else none

/-- `_claim`, with the name and the generation that are drawn for a new job. -/
def claim (build generation rootId : Text) (source : Bytes) (mode : Mode) (base : Option Text)
    (w : World) : Option (World × Job) :=
  (w.root[rootId]?).bind fun root =>
    if root.searchable = false then none
    else
      match existingJob rootId source mode base w with
      | some existing => if existing.configHash = root.config then some (w, existing) else none
      | none =>
        if ∃ job ∈ w.jobs, job.rootId = rootId ∧ job.state = .building then none
        else
          (if mode = .full then some build else deltaIndex rootId base w).map fun name =>
            let job : Job :=
              { id := w.sequence + 1, rootId := rootId, sourceHash := source, mode := mode
                configHash := root.config, base := base, indexName := name
                generation := generation, byteOffset := 0, records := 0, state := .building }
            ({ w with jobs := w.jobs ++ [job], sequence := w.sequence + 1 }, job)

/-- `ensure`: an index keeps the configuration it was created with. -/
def ensure (name config : Text) (w : World) : Option World :=
  match w.engine[name]? with
  | some index => if index.config = config then some w else none
  | none => some { w with engine := w.engine.insert name ⟨config, ∅⟩ }

/-- A write with `external_gte`. -/
def put (docs : Table Stored) (r : Revision) : Table Stored :=
  match docs[r.doc.itemId]? with
  | some old =>
    if old.version ≤ r.version then docs.insert r.doc.itemId ⟨r.version, r.doc⟩ else docs
  | none => docs.insert r.doc.itemId ⟨r.version, r.doc⟩

def apply (name : Text) (batch : List Revision) (w : World) : World :=
  match w.engine[name]? with
  | some index =>
    { w with engine := w.engine.insert name { index with docs := batch.foldl put index.docs } }
  | none => w

def updateJob (id : ℕ) (change : Job → Job) (w : World) : World :=
  { w with jobs := w.jobs.map fun job => if job.id = id then change job else job }

/-- `run` up to its loop. A published job is only reported. -/
def begin (build generation rootId : Text) (source : Bytes) (mode : Mode) (base : Option Text)
    (w : World) : Option World :=
  (claim build generation rootId source mode base w).bind fun (claimed, job) =>
    if job.state = .published then some claimed
    else if ((w.index[rootId]?).bind (·.storage)).map (·.importGeneration) =
        some job.generation then
      some { claimed with attempt := some ⟨job, .committed⟩ }
    else
      (ensure job.indexName job.configHash claimed).map fun ensured =>
        { ensured with attempt := some ⟨job, .reading ⟨job.byteOffset, job.records, none⟩⟩ }

def commit (job : Job) (pitId : Text) (w : World) : Option World :=
  (w.root[job.rootId]?).bind fun root =>
    if root.config = job.configHash ∧ (job.mode = .delta →
        (w.index[job.rootId]?).map (·.generation) = job.base) then
      let row : IndexRow :=
        ⟨job.generation, some ⟨job.indexName, pitId, searchFormat, job.generation⟩⟩
      some { w with index := w.index.insert job.rootId row }
    else none

/-- `maintain` replaces a snapshot that it could not renew by one of the same index. -/
def restore (rootId pitId generation : Text) (w : World) : Option World :=
  (w.index[rootId]?).bind fun row => row.storage.bind fun snapshot =>
    if ∀ job ∈ w.jobs, job.indexName = snapshot.indexName → job.state = .published then
      (w.engine[snapshot.indexName]?).map fun index =>
        let restored : IndexRow := ⟨generation, some { snapshot with pitId := pitId }⟩
        { w with
          pits := w.pits.insert pitId index.docs
          index := w.index.insert rootId restored }
    else none

inductive Event where
  /-- `run` claims its job. -/
  | run (build generation rootId : Text) (source : Bytes) (mode : Mode) (base : Option Text)
  | fill
  /-- The engine applies the first documents of the batch, all of them if it answers. -/
  | bulk (applied : ℕ) (answered : Bool)
  | checkpoint
  | publish (pitId : Text)
  | commit
  | finish
  /-- A stop, a failure or a crash. -/
  | stop
  | abort (rootId : Text)
  /-- `maintain` replaces a snapshot: its engine has lost it, or has not answered. -/
  | restore (rootId pitId generation : Text)
  | losePit (pitId : Text)
  | configure (rootId : Text) (root : Root)

def setPhase (phase : Phase) (w : World) : World :=
  { w with attempt := w.attempt.map fun a => { a with phase := phase } }

def step (v : Service) (w : World) : Event → Option World
  | .run build generation rootId source mode base =>
    match w.attempt with
    | none => begin build generation rootId source mode base w
    | some _ => none
  | .fill =>
    match w.attempt with
    | some ⟨job, .reading cursor⟩ =>
      match fillBatch v job v.batchSize cursor ⟨[], 0⟩ none with
      | .error _ => some { w with attempt := none }
      | .ok (next, builder, batchOffset) =>
        match builder.records, batchOffset with
        | [], _ => if next.pending = none then some (setPhase .exhausted w)
          else some { w with attempt := none }
        | batch, some offset => some (setPhase (.sending batch offset next) w)
        | _, none => none
    | _ => none
  | .bulk applied answered =>
    match w.attempt with
    | some ⟨job, .sending batch offset cursor⟩ =>
      let sent := { apply job.indexName (batch.take applied) w with
        sent := w.sent ++ batch.map fun r => ⟨job.id, r⟩ }
      if answered then
        if batch.length ≤ applied then some (setPhase (.delivered offset cursor) sent) else none
      else some { sent with attempt := none }
    | _ => none
  | .checkpoint =>
    match w.attempt with
    | some ⟨job, .delivered offset cursor⟩ =>
      some (setPhase (.reading cursor) (updateJob job.id
        (fun row => { row with byteOffset := offset, records := cursor.count }) w))
    | _ => none
  | .publish pitId =>
    match w.attempt, w.pits[pitId]? with
    | some ⟨job, .exhausted⟩, none => (w.engine[job.indexName]?).map fun index =>
      setPhase (.pinned pitId) { w with pits := w.pits.insert pitId index.docs }
    | _, _ => none
  | .commit =>
    match w.attempt with
    | some ⟨job, .pinned pitId⟩ => (commit job pitId w).map (setPhase .committed)
    | _ => none
  | .finish =>
    match w.attempt with
    | some ⟨job, .committed⟩ => some { updateJob job.id
        (fun row => { row with state := .published }) w with attempt := none }
    | _ => none
  | .stop => some { w with attempt := none }
  | .abort rootId =>
    match w.attempt with
    | none => some { w with jobs := w.jobs.map fun job =>
        if job.rootId = rootId ∧ job.state = .building then
          { job with state := .aborted } else job }
    | some _ => none
  | .restore rootId pitId generation =>
    match w.attempt, w.pits[pitId]? with
    | none, none => restore rootId pitId generation w
    | _, _ => none
  | .losePit pitId => some { w with pits := w.pits.erase pitId }
  | .configure rootId root => some { w with root := w.root.insert rootId root }

inductive Run (v : Service) : World → Prop where
  | start (root : Table Root) (index : Table IndexRow) :
      (∀ (k : Text) row, index[k]? = some row → row.storage = none) →
      Run v ⟨[], 0, root, index, ∅, ∅, none, []⟩
  | step {w t : World} {e : Event} : Run v w → step v w e = some t → Run v t

end ArchiveImport
