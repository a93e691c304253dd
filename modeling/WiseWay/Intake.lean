import Mathlib.Data.List.Sort
import WiseWay.Services

/-! # Selections, batches and the incoming scan

The write transactions of `sorting.py` and of `indexer.py` that fill the queue and turn
a selection into attempts. They do not hold `worker.lock`. -/
namespace Intake

open Records Services

section Selection

variable (layout : Layout) (casefold : Text → Text) (settings : Settings)

structure QueueFilters where
  statuses : List QueueStatus
  queryText : Text
  deriving DecidableEq, Repr

inductive SelectionMode where
  | explicit (items : List (Text × ℕ))
  | allMatching (filters : QueueFilters) (expectedEligibleCount : ℕ)
  deriving DecidableEq, Repr

structure SelectionRequest where
  companyId : Text
  mode : SelectionMode
  deriving DecidableEq, Repr

def queueStates : List QueueStatus :=
  [.discovered, .waitingReady, .ready, .processing, .requiresDecision, .recoveryRequired, .missing]

/-- Moved items are hidden from the queue. -/
def queueSnapshot (s : Store) (companyId : Text) : List QueueItem :=
  (list s.queue).filter fun q => q.companyId = companyId ∧ q.departed = false

/-- The order of `sorted` by the folded display path, the display path and the identifier. -/
def queueKeyLe (a b : QueueItem) : Bool :=
  let (foldedA, foldedB) := (casefold a.source.displayPath, casefold b.source.displayPath)
  let (pathA, pathB) := (a.source.displayPath, b.source.displayPath)
  foldedA < foldedB ∨ (foldedA = foldedB ∧
    (pathA < pathB ∨ (pathA = pathB ∧ (a.itemId < b.itemId ∨ a.itemId = b.itemId))))

def queueItems (s : Store) (companyId : Text) (filters : QueueFilters) : List QueueItem :=
  let states :=
    if filters.statuses = [] then queueStates.filter (· ≠ .missing) else filters.statuses
  let text := casefold filters.queryText
  ((queueSnapshot s companyId).filter fun q => q.status ∈ states ∧
    (text = [] ∨ text <:+: casefold q.filename ∨
      text <:+: casefold q.source.displayPath)).insertionSort (queueKeyLe casefold · ·)

/-- The explicit items of a request, each checked against its stored revision. -/
def explicitItems (s : Store) (companyId : Text) :
    List (Text × ℕ) → List Text → Except Exn (List QueueItem)
  | [], _ => .ok []
  | (itemId, revision) :: rest, seen =>
    match s.queue[itemId]? with
    | none => .error (apiError .selectionChanged)
    | some item =>
      if item.companyId ≠ companyId ∨ item.itemId ∈ seen ∨ item.itemRevision ≠ revision ∨
          item.selectable = false then
        .error (apiError .selectionChanged)
      else do return item :: (← explicitItems s companyId rest (item.itemId :: seen))

def selectedItems (request : SelectionRequest) (s : Store) : Except Exn (List QueueItem) :=
  match request.mode with
  | .explicit items => explicitItems s request.companyId items []
  | .allMatching filters expected =>
    let items := (queueItems casefold s request.companyId filters).filter (·.selectable)
    if items.length ≠ expected then .error (apiError .selectionChanged) else .ok items

def knownCompany (companyId : Text) : Except Exn Unit :=
  match layout.company companyId with
  | some _ => .ok ()
  | none => .error (apiError .validationError)

def selection (selectionId actor : Text) (now : Time) (request : SelectionRequest) (s : Store) :
    Except Exn Store := do
  knownCompany layout request.companyId
  let items ← selectedItems casefold request s
  if items = [] then .error (apiError .emptySelection)
  if settings.maxBatchItems < items.length then .error (apiError .batchLimitExceeded)
  let created : Selection :=
    { selectionId := selectionId
      companyId := request.companyId
      expiresAt := now + settings.ttl
      items := items
      owner := actor
      batchId := none }
  return { s with selection := s.selection.insert selectionId created }

def getSelection (s : Store) (actor selectionId : Text) : Except Exn Selection := do
  let found ← require s.selection selectionId
  if found.owner ≠ actor then .error (apiError .forbidden)
  return found

/-- A claimed item is skipped here: its own attempt will say so. -/
def checkItem (tree : FileTree) (s : Store) (saved : QueueItem) : Except Exn Unit :=
  match s.claim[saved.itemId]? with
  | some _ => .ok ()
  | none =>
    match s.queue[saved.itemId]? with
    | none => .error (apiError .selectionChanged)
    | some current =>
      if current.itemRevision ≠ saved.itemRevision ∨ current.selectable = false then
        .error (apiError .selectionChanged)
      else do
        let observed ← stat tree (← physical layout saved.source)
        if observed ≠ some saved.fingerprint then .error (apiError .selectionChanged)

def checkSelection (tree : FileTree) (now : Time) (selection : Selection) (s : Store) :
    Except Exn Unit := do
  if selection.expiresAt ≤ now then .error (apiError .selectionExpired)
  selection.items.forM (checkItem layout tree s)

def selectionPlan (tree : FileTree) (selection : Selection) (s : Store) :
    Except Exn (List PlanRow) := do
  let rules ← flattenedRules s selection.companyId none
  plan layout casefold tree (selection.items.map (·.toPublicItem)) rules selection.companyId

def preview (tree : FileTree) (previewId actor selectionId : Text) (now : Time) (s : Store) :
    Except Exn Store := do
  let selection ← getSelection s actor selectionId
  checkSelection layout tree now selection s
  let rows ← selectionPlan layout casefold tree selection s
  let created : Preview :=
    { previewId := previewId
      selectionId := selection.selectionId
      companyId := selection.companyId
      ruleSet := ruleSet s selection.companyId
      expiresAt := min (now + settings.ttl) selection.expiresAt
      rows := rows
      owner := actor }
  return { s with preview := s.preview.insert previewId created }

/-- `preview_id` is present exactly in the `PREVIEWED` mode. -/
structure BatchRequest where
  selectionId : Text
  previewId : Option Text
  deriving DecidableEq, Repr

/-- The identifiers a batch draws: its own and one for each attempt. -/
structure Draws where
  batch : Text
  attempt : ℕ → Text

/-- A changed selection makes a preview stale. -/
def asStale (previewed : Bool) : Exn → Exn
  | .api code op =>
    if previewed ∧ (code = .selectionChanged ∨ code = .selectionExpired) then
      apiError .stalePreview
    else .api code op
  | e => e

def checkPreview (now : Time) (actor : Text) (selection : Selection) (current : RuleSet)
    (rows : List PlanRow) (s : Store) : Option Text → Except Exn (List PlanRow)
  | none => .ok rows
  | some previewId => do
    let preview ← require s.preview previewId
    if preview.owner ≠ actor then .error (apiError .forbidden)
    if preview.selectionId ≠ selection.selectionId ∨ preview.expiresAt ≤ now ∨
        preview.ruleSet ≠ current ∨ preview.rows ≠ rows then
      .error (apiError .stalePreview)
    return preview.rows

def acceptedEvent (actor requestId batchId companyId : Text) (current : RuleSet) (now : Time) :
    AuditEvent where
  actor := actor
  action := .batchAccepted
  requestId := requestId
  occurredAt := now
  companyId := companyId
  batchId := batchId
  ruleSet := current

structure Acceptance where
  batchId : Text
  companyId : Text
  actor : Text
  requestId : Text
  now : Time
  deriving DecidableEq, Repr

def acceptedOutcome (a : Acceptance) (attemptId : Text) (occupied : Bool) (saved : QueueItem)
    (row : PlanRow) : Outcome where
  attemptId := attemptId
  itemId := saved.itemId
  itemRevision := saved.itemRevision
  state := if occupied then .skipped else .pending
  reasonCode := if occupied then some .alreadyProcessing else none
  source := saved.source
  plannedTarget := row.target
  actualLocation := none
  matchedRule := row.selectedRule
  startedAt := none
  finishedAt := if occupied then some a.now else none

def acceptedAttempt (a : Acceptance) (attemptId : Text) (occupied : Bool) (saved : QueueItem)
    (row : PlanRow) : Attempt where
  attemptId := attemptId
  batchId := a.batchId
  companyId := a.companyId
  actor := a.actor
  requestId := a.requestId
  item := saved
  plan := row
  outcome := acceptedOutcome a attemptId occupied saved row
  phase := if occupied then .done else .queued
  intent := none

/-- The two events of an attempt that ends as it is accepted. -/
def occupiedEvents (a : Acceptance) (attemptId : Text) (saved : QueueItem) : List AuditEvent :=
  let started : AuditEvent :=
    { actor := a.actor
      action := .fileAttemptStarted
      requestId := a.requestId
      occurredAt := a.now
      companyId := a.companyId
      batchId := a.batchId
      attemptId := attemptId
      itemId := saved.itemId
      source := saved.source }
  [started, { started with
    action := .fileAttemptFinished, result := .issue, reasonCode := some .alreadyProcessing }]

def claimedItem (attemptId : Text) (item : QueueItem) : QueueItem :=
  { item with
    status := .processing, selectable := false, activeAttemptId := some attemptId
    reasonCode := none }

def acceptOne (a : Acceptance) (s : Store) (entry : (QueueItem × PlanRow) × Text) :
    Except Exn Store := do
  let ((saved, row), attemptId) := entry
  let occupied := (s.claim[saved.itemId]?).isSome
  let attempts ← insertNew s.attempt attemptId (acceptedAttempt a attemptId occupied saved row)
  if occupied then
    return { s with attempt := attempts, audit := s.audit ++ occupiedEvents a attemptId saved }
  else
    let item ← require s.queue saved.itemId
    return { s with
      attempt := attempts
      claim := s.claim.insert saved.itemId ⟨attemptId, a.batchId⟩
      queue := s.queue.insert item.itemId (claimedItem attemptId item) }

def acceptedBatch (a : Acceptance) (selection : Selection) (previewId : Option Text)
    (current : RuleSet) (rows : List PlanRow) : Batch where
  batchId := a.batchId
  companyId := a.companyId
  actor := a.actor
  selectionId := selection.selectionId
  previewId := previewId
  ruleSet := current
  createdAt := a.now
  selectedCount := rows.length

def drawnEntries (drawn : Draws) (items : List QueueItem) (rows : List PlanRow) :
    List ((QueueItem × PlanRow) × Text) :=
  (items.zip rows).zipIdx.map fun (entry, i) => (entry, drawn.attempt i)

def accept (tree : FileTree) (drawn : Draws) (now : Time) (actor requestId : Text)
    (request : BatchRequest) (s : Store) : Except Exn Store := do
  let selection ← getSelection s actor request.selectionId
  (checkSelection layout tree now selection s).mapError (asStale request.previewId.isSome)
  if selection.batchId ≠ none then .error (apiError .invalidState)
  let current := ruleSet s selection.companyId
  let planned ← selectionPlan layout casefold tree selection s
  let rows ← checkPreview now actor selection current planned s request.previewId
  let a : Acceptance := ⟨drawn.batch, selection.companyId, actor, requestId, now⟩
  let batches ← insertNew s.batch drawn.batch
    (acceptedBatch a selection request.previewId current rows)
  let s := { s with
    batch := batches
    audit := s.audit ++
      [acceptedEvent actor requestId drawn.batch selection.companyId current now] }
  let s ← (drawnEntries drawn selection.items rows).foldlM (acceptOne a) s
  let launched := { selection with batchId := some drawn.batch }
  return { s with selection := s.selection.insert selection.selectionId launched }

end Selection

section Scan

variable (casefold : Text → Text) (settings : Settings)

/-- A regular file found below the root, with the identifier that would be drawn for it. -/
structure Found where
  relative : Text
  fingerprint : Fingerprint
  drawn : Text
  deriving DecidableEq, Repr

def inode (fingerprint : Fingerprint) : ℕ × ℕ := (fingerprint.dev, fingerprint.ino)

def temporaryName (path : Text) : Bool :=
  let folded := casefold path
  ".part".toList.isSuffixOf folded || ".tmp".toList.isSuffixOf folded ||
    ".crdownload".toList.isSuffixOf folded

def dashed (n : ℕ) : Text := '-' :: Nat.toDigits 10 n

def queueId (rootId : Text) (fingerprint : Fingerprint) : Text :=
  "queue-".toList ++ rootId ++ dashed fingerprint.dev ++ dashed fingerprint.ino

/-- The rows of one pass over a root, read once at its start. -/
structure Pass where
  rootId : Text
  root : Root
  companyId : Text
  now : Time
  found : List Found
  existing : List QueueItem

def Pass.byPath (p : Pass) (relative : Text) : Option QueueItem :=
  (p.existing.filter (·.source.relativePath = relative)).getLast?

def Pass.byInode (p : Pass) (key : ℕ × ℕ) : List QueueItem :=
  p.existing.filter fun q => q.source.relativePath ∉ p.found.map (·.relative) ∧
    inode q.fingerprint = key

/-- The stored item of a file: by its path, else by an unambiguous inode that left its path. -/
def Pass.previous (p : Pass) (assigned : List Text) (file : Found) : Option QueueItem :=
  match (p.byPath file.relative).filter (·.itemId ∉ assigned) with
  | some item => some item
  | none =>
    match (p.byInode (inode file.fingerprint)).filter (·.itemId ∉ assigned) with
    | [item] =>
      if p.found.countP (inode ·.fingerprint = inode file.fingerprint) = 1 then some item else none
    | _ => none

def Pass.newId (p : Pass) (assigned : List Text) (file : Found) : Text :=
  let itemId := queueId p.rootId file.fingerprint
  if itemId ∈ assigned ∨ itemId ∈ p.existing.map (·.itemId) then file.drawn else itemId

def Pass.source (p : Pass) (file : Found) : Location :=
  ⟨p.rootId, file.relative, p.root.displayPrefix.rdropWhile (· = '/') ++ '/' :: file.relative⟩

def Pass.newItem (p : Pass) (itemId : Text) (file : Found) : QueueItem where
  itemId := itemId
  itemRevision := 1
  companyId := p.companyId
  incomingSourceId := p.rootId
  sourceName := p.root.label
  source := p.source file
  filename := Rules.leaf file.relative
  sizeBytes := file.fingerprint.size
  modifiedAt := file.fingerprint.mtimeNs
  status := .waitingReady
  reasonCode := none
  selectable := false
  activeAttemptId := none
  fingerprint := file.fingerprint
  observedAt := p.now
  departed := false

/-- The same file at the same path: it becomes ready once it has rested. -/
def Pass.sameItem (p : Pass) (previous : QueueItem) (file : Found) : QueueItem :=
  let value := { previous with
    source := p.source file
    filename := Rules.leaf file.relative
    sizeBytes := file.fingerprint.size
    modifiedAt := file.fingerprint.mtimeNs }
  if temporaryName casefold file.relative then
    { value with status := .waitingReady, reasonCode := none, selectable := false }
  else if (value.status = .discovered ∨ value.status = .waitingReady) ∧
      settings.readiness ≤ p.now - value.observedAt then
    { value with status := .ready, reasonCode := none, selectable := true }
  else value

/-- Another file, or a missing one come back, under the identifier of `previous`. -/
def Pass.changedItem (p : Pass) (previous : QueueItem) (file : Found) : QueueItem :=
  { previous with
    itemRevision := previous.itemRevision + 1
    source := p.source file
    filename := Rules.leaf file.relative
    sizeBytes := file.fingerprint.size
    modifiedAt := file.fingerprint.mtimeNs
    status := .waitingReady
    reasonCode := none
    selectable := false
    fingerprint := file.fingerprint
    observedAt := p.now
    departed := false }

def locked (item : QueueItem) : Bool :=
  item.status = .processing ∨ item.status = .recoveryRequired ∨ item.activeAttemptId ≠ none

def Pass.known (p : Pass) (previous : QueueItem) (file : Found) : QueueItem :=
  if locked previous then previous
  else if previous.fingerprint = file.fingerprint ∧
      previous.source.relativePath = file.relative ∧ previous.status ≠ .missing then
    p.sameItem casefold settings previous file
  else p.changedItem previous file

/-- The queue and the identifiers assigned so far. -/
structure ScanState where
  queue : Table QueueItem
  assigned : List Text

def Pass.turn (p : Pass) (st : ScanState) (file : Found) : ScanState :=
  match p.previous st.assigned file with
  | some previous =>
    ⟨st.queue.insert previous.itemId (p.known casefold settings previous file),
      previous.itemId :: st.assigned⟩
  | none =>
    let itemId := p.newId st.assigned file
    ⟨st.queue.insert itemId (p.newItem itemId file), itemId :: st.assigned⟩

def missingItem (prior : QueueItem) : QueueItem :=
  if prior.status = .missing then prior
  else { prior with
    itemRevision := prior.itemRevision + 1, status := .missing
    reasonCode := some .sourceMissing, selectable := false }

def unseen (assigned : List Text) (prior : QueueItem) : Bool :=
  prior.itemId ∉ assigned ∧ prior.departed = false ∧ prior.status ∉
    [QueueStatus.sorted, .manualReview, .quarantined, .processing, .recoveryRequired]

def markMissing (assigned : List Text) (queue : Table QueueItem) (prior : QueueItem) :
    Table QueueItem :=
  if unseen assigned prior then queue.insert prior.itemId (missingItem prior) else queue

def Pass.queue (p : Pass) (queue : Table QueueItem) : Table QueueItem :=
  let st := p.found.foldl (p.turn casefold settings) ⟨queue, []⟩
  p.existing.foldl (markMissing st.assigned) st.queue

def startPass (rootId : Text) (root : Root) (companyId : Text) (now : Time) (found : List Found)
    (s : Store) : Pass :=
  ⟨rootId, root, companyId, now, found,
    (list s.queue).filter fun q => q.incomingSourceId = rootId⟩

/-- `_scan_incoming_root` after its walk of the tree. -/
def scan (layout : Layout) (rootId : Text) (now : Time) (found : List Found) (s : Store) :
    Option Store :=
  match layout.root rootId with
  | none => none
  | some root =>
    match root.incomingCompany with
    | none => none
    | some companyId =>
      some { s with
        queue := (startPass rootId root companyId now found s).queue casefold settings s.queue }

/-- `uid("queue")`: hexadecimal, so without a dash after the prefix. -/
def drawnShape (itemId : Text) : Bool :=
  "queue-".toList.isPrefixOf itemId && (itemId.drop 6).all (· ≠ '-')

/-- A walk meets each path once; drawn identifiers are new. -/
def foundFresh (found : List Found) (s : Store) : Bool :=
  (found.map (·.relative)).Nodup ∧ (found.map (·.drawn)).Nodup ∧
    found.all fun f => drawnShape f.drawn && (s.queue[f.drawn]?).isNone

end Scan

end Intake
