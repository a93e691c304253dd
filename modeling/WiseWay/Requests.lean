import WiseWay.DictionaryService
import WiseWay.Intake

/-! # Idempotent requests

`createSortingBatch` and `publishDictionary` as `app.py` executes them: one write transaction
looks up the `Idempotency-Key`, acts, stores the result and validates the response. -/
namespace Requests

open Records Services Intake DictionaryService

structure OutcomeCounts where
  sorted : ℕ
  manualReview : ℕ
  requiresDecision : ℕ
  quarantined : ℕ
  skipped : ℕ
  recoveryRequired : ℕ
  deriving DecidableEq, Repr

inductive BatchStatus where
  | accepted | running | recoveryRequired | completed | completedWithIssues
  deriving DecidableEq, Repr

/-- What `Context.batch` computes of a stored batch and its attempts. -/
structure BatchView where
  batch : Batch
  outcomes : List Outcome
  counts : OutcomeCounts
  completedCount : ℕ
  startedAt : Option Time
  finishedAt : Option Time
  status : BatchStatus
  deriving DecidableEq, Repr

def outcomeCounts (outcomes : List Outcome) : OutcomeCounts where
  sorted := outcomes.countP (·.state = .sorted)
  manualReview := outcomes.countP (·.state = .manualReview)
  requiresDecision := outcomes.countP (·.state = .requiresDecision)
  quarantined := outcomes.countP (·.state = .quarantined)
  skipped := outcomes.countP (·.state = .skipped)
  recoveryRequired := outcomes.countP (·.state = .recoveryRequired)

def OutcomeCounts.completed (c : OutcomeCounts) : ℕ :=
  c.sorted + c.manualReview + c.requiresDecision + c.quarantined + c.skipped

def batchStatus (selected : ℕ) (counts : OutcomeCounts) (started : List Time) : BatchStatus :=
  if counts.completed = selected then
    if counts.sorted = counts.completed then .completed else .completedWithIssues
  else if counts.recoveryRequired ≠ 0 then .recoveryRequired
  else if started ≠ [] then .running
  else .accepted

/-- Attempts are stored under their identifiers, so the table lists them in that order. -/
def batchView (s : Store) (batchId : Text) : Except Exn BatchView := do
  let batch ← require s.batch batchId
  let outcomes := ((list s.attempt).filter (·.batchId = batchId)).map (·.outcome)
  let counts := outcomeCounts outcomes
  let started := outcomes.filterMap (·.startedAt)
  let finished := outcomes.filterMap (·.finishedAt)
  return {
    batch := batch
    outcomes := outcomes
    counts := counts
    completedCount := counts.completed
    startedAt := started.min?
    finishedAt := if counts.completed = batch.selectedCount then finished.max? else none
    status := batchStatus batch.selectedCount counts started }

/-! Pages. -/

/-- What a page snapshot keeps; those of other operations are known by their identifier. -/
inductive Payload where
  | batch (view : BatchView)
  | simulation (simulation : Simulation)
  | other (snapshotId : Text)
  deriving DecidableEq, Repr

/-- The value whose digest is the identifier of a snapshot. -/
structure PageKey where
  owner : Text
  payload : Payload
  deriving DecidableEq, Repr

structure PageSnapshot where
  key : PageKey
  payloadBytes : ℕ
  expires : Time
  deriving DecidableEq, Repr

structure PageCursor where
  key : PageKey
  offset : ℕ
  expires : Time
  deriving DecidableEq, Repr

structure Pages where
  snapshots : List PageSnapshot
  cursors : List PageCursor
  deriving DecidableEq, Repr

def pageLimit : ℕ := 100

/-- `PAGE_CURSOR_SECONDS`, in microseconds. -/
def pageCursorTime : Time := 86400 * 1000000

def maxPageSnapshots : ℕ := 64

def maxPageSnapshotBytes : ℕ := 8 * 1024 * 1024

def maxPageSnapshotTotalBytes : ℕ := 32 * 1024 * 1024

def deleteExpiredPages (now : Time) (pages : Pages) : Pages where
  snapshots := pages.snapshots.filter (now < ·.expires)
  cursors := pages.cursors.filter (now < ·.expires)

def checkPageQuota (pages : Pages) (owner : Text) (bytes : ℕ) : Except Exn Unit :=
  let own := pages.snapshots.filter (·.key.owner = owner)
  if maxPageSnapshotBytes < bytes ∨ maxPageSnapshots ≤ own.length ∨
      maxPageSnapshotTotalBytes < (own.map (·.payloadBytes)).sum + bytes then
    .error (apiError .rateLimited)
  else .ok ()

/-- `page` without a cursor: the rows beyond the limit are kept in a snapshot for the pages that
follow. `rows` is the length of the paged field. -/
def page (bytes : Payload → ℕ) (now : Time) (owner : Text) (payload : Payload) (rows : ℕ)
    (pages : Pages) : Except Exn (Option PageCursor × Pages) := do
  if rows ≤ pageLimit then return (none, pages)
  let pages := deleteExpiredPages now pages
  let key : PageKey := ⟨owner, payload⟩
  match pages.snapshots.find? (·.key = key) with
  | some snapshot =>
    let cursor : PageCursor := ⟨key, pageLimit, snapshot.expires⟩
    return (some cursor, { pages with cursors := cursor :: pages.cursors.erase cursor })
  | none =>
    checkPageQuota pages owner (bytes payload)
    let expires := now + pageCursorTime
    let cursor : PageCursor := ⟨key, pageLimit, expires⟩
    return (some cursor,
      { snapshots := ⟨key, bytes payload, expires⟩ :: pages.snapshots
        cursors := cursor :: pages.cursors.erase cursor })

/-! Requests and their records. -/

inductive Body where
  | batch (body : BatchRequest)
  | publish (body : PublishBody)
  deriving DecidableEq, Repr

/-- The idempotent operations, each with what its path and its body carry. -/
inductive Request where
  | createSortingBatch (body : BatchRequest)
  | publishDictionary (dictionaryId : Text) (body : PublishBody)
  deriving DecidableEq, Repr

/-- `name + ":" + request.url.path`. -/
def Request.identity : Request → Text
  | .createSortingBatch _ => "createSortingBatch:/api/v1/sorting/batches".toList
  | .publishDictionary dictionaryId _ =>
    "publishDictionary:/api/v1/dictionaries/".toList ++ dictionaryId ++ "/publish".toList

def Request.body : Request → Body
  | .createSortingBatch body => .batch body
  | .publishDictionary _ body => .publish body

inductive Result where
  | batch (view : BatchView) (nextCursor : Option PageCursor)
  | published (published : Published)
  deriving DecidableEq, Repr

structure Response where
  status : ℕ
  result : Result
  deriving DecidableEq, Repr

structure Record where
  body : Body
  response : Response
  deriving DecidableEq, Repr

/-- The store with the kinds that only requests read, and the files. `authorised` is a ghost:
each publication with the simulation that authorised it. -/
structure Site where
  store : Store
  simulation : Table Simulation
  record : Std.ExtTreeMap (List Text) Record
  pages : Pages
  tree : FileTree
  authorised : List (Text × Text)

/-- What the service is made of: its configuration, the validator of the API contract and the
length of an encoded payload. -/
structure Server where
  layout : Layout
  casefold : Text → Text
  settings : Settings
  conforms : Request → Response → Bool
  payloadBytes : Payload → ℕ

/-- What a transaction draws: the clock, identifiers and its request identifier. -/
structure Draw where
  now : Time
  draws : Draws
  versionId : Text
  requestId : Text

variable (v : Server)

def acceptBatch (x : Draw) (actor : Text) (body : BatchRequest) (site : Site) :
    Except Exn (Response × Site) := do
  let store ← accept v.layout v.casefold site.tree x.draws x.now actor x.requestId body site.store
  let view ← batchView store x.draws.batch
  let (cursor, pages) ←
    page v.payloadBytes x.now actor (.batch view) view.outcomes.length site.pages
  let shown := { view with outcomes := view.outcomes.take pageLimit }
  return (⟨202, .batch shown cursor⟩, { site with store := store, pages := pages })

def publishDictionary (x : Draw) (actor dictionaryId : Text) (body : PublishBody) (site : Site) :
    Except Exn (Response × Site) := do
  let (published, store) ← publish v.layout site.tree x.versionId actor x.requestId x.now
    dictionaryId body site.simulation site.store
  return (⟨201, .published published⟩, { site with
    store := store
    authorised := site.authorised ++ [(body.simulationId, x.versionId)] })

/-- `dispatch` for the idempotent operations. -/
def dispatch (x : Draw) (actor : Text) : Request → Site → Except Exn (Response × Site)
  | .createSortingBatch body, site => acceptBatch v x actor body site
  | .publishDictionary dictionaryId body, site =>
    publishDictionary v x actor dictionaryId body site

def recordId (actor key : Text) (request : Request) : List Text :=
  [actor, request.identity, key]

/-- `Context.idempotent`. -/
def idempotent (x : Draw) (actor key : Text) (request : Request) (site : Site) :
    Except Exn (Response × Site) :=
  match site.record[recordId actor key request]? with
  | some previous =>
    if previous.body ≠ request.body then .error (apiError .idempotencyKeyReused)
    else .ok (previous.response, site)
  | none => do
    let (response, next) ← dispatch v x actor request site
    return (response, { next with
      record := next.record.insert (recordId actor key request) ⟨request.body, response⟩ })

/-- The write transaction of `execute`: the response is validated before the commit, and any
exception rolls back. -/
def execute (x : Draw) (actor key : Text) (request : Request) (site : Site) :
    Except Exn Response × Site :=
  match idempotent v x actor key request site with
  | .ok (response, next) =>
    if v.conforms request response then (.ok response, next) else (.error .failure, site)
  | .error e => (.error e, site)

end Requests
