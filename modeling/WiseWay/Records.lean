import Mathlib.Algebra.GroupWithZero.Nat
import Mathlib.Data.List.DropRight
import Mathlib.Data.List.Infix
import Mathlib.Data.List.Lex
import Mathlib.Data.Char
import Mathlib.Order.Lex
import Std.Data.ExtTreeMap

/-! # Stored records

The objects of the SQLite store, one table for each kind, and the configuration that no
operation rewrites. Identifiers, paths and names are sequences of characters. A `Table`
lists its rows in the order of their identifiers, as `ORDER BY id` does. -/
namespace Records

abbrev Text := List Char

instance : LawfulBEq Text := inferInstance

instance : Std.TransOrd (List Text) := inferInstance

/-- Microseconds on the service clock. -/
abbrev Time := Int

abbrev Table (V : Type) := Std.ExtTreeMap Text V

@[simp] theorem get_put {V : Type} (t : Table V) (k j : Text) (v : V) :
    (t.insert k v)[j]? = if k = j then some v else t[j]? := by
  simp [Std.ExtTreeMap.getElem?_insert]

@[simp] theorem get_delete {V : Type} (t : Table V) (k j : Text) :
    (t.erase k)[j]? = if k = j then none else t[j]? := by
  simp [Std.ExtTreeMap.getElem?_erase]

/-- `tx.list`: the bodies of a kind, ordered by identifier. -/
def list {V : Type} (t : Table V) : List V := t.toList.map Prod.snd

theorem mem_list {V : Type} {t : Table V} {v : V} : v ∈ list t ↔ ∃ k : Text, t[k]? = some v := by
  simp [list]

inductive ApiCode where
  | notFound | validationError | forbidden | invalidTarget | pathOutsideRoot
  | selectionChanged | selectionExpired | emptySelection | batchLimitExceeded
  | stalePreview | invalidState | idempotencyKeyReused | quarantineVersionConflict
  | originalPathOccupied | recoveryRequired | staleSimulation | ruleConflict
  | noScenarioAckRequired | draftVersionConflict | dictionaryNameConflict | rateLimited
  deriving DecidableEq, Repr

/-- Exceptions as the handlers of the source tell them apart; `failure` is any other one,
such as an `OSError`, a database error or a refused path. -/
inductive Exn where
  | targetExists
  | sourceChanged
  | postRenameChanged
  | api (code : ApiCode) (operationId : Option Text)
  | failure
  deriving DecidableEq, Repr

def apiError (code : ApiCode) : Exn := .api code none

structure Fingerprint where
  dev : ℕ
  ino : ℕ
  size : ℕ
  mtimeNs : Int
  deriving DecidableEq, Repr

structure Location where
  rootId : Text
  relativePath : Text
  displayPath : Text
  deriving DecidableEq, Repr

inductive QueueStatus where
  | discovered | waitingReady | ready | processing | requiresDecision | recoveryRequired
  | missing | sorted | manualReview | quarantined
  deriving DecidableEq, Repr

inductive Reason where
  | notReady | noScenario | ruleConflict | targetOccupied | manualReviewNameOccupied
  | sourceMissing | sourceChanged | technicalError | recoveryRequired | alreadyProcessing
  deriving DecidableEq, Repr

/-- What `public` leaves of a queue item. -/
structure PublicItem where
  itemId : Text
  itemRevision : ℕ
  companyId : Text
  incomingSourceId : Text
  sourceName : Text
  source : Location
  filename : Text
  sizeBytes : ℕ
  modifiedAt : Int
  status : QueueStatus
  reasonCode : Option Reason
  selectable : Bool
  activeAttemptId : Option Text
  deriving DecidableEq, Repr

structure QueueItem extends PublicItem where
  fingerprint : Fingerprint
  observedAt : Time
  departed : Bool
  deriving DecidableEq, Repr

inductive MatchField where
  | basename | relativePath
  deriving DecidableEq, Repr

structure TargetDirectory where
  rootId : Text
  relativeDirectory : Text
  deriving DecidableEq, Repr

/-- A rule of a draft or of a published version. -/
structure RuleBody where
  ruleId : Text
  matchField : MatchField
  mask : Text
  priority : Int
  target : TargetDirectory
  targetStem : Text
  deriving DecidableEq, Repr

/-- A rule with the dictionary and the version it was taken from. -/
structure Rule extends RuleBody where
  dictionaryId : Text
  versionId : Option Text
  deriving DecidableEq, Repr

structure RuleReference where
  dictionaryId : Text
  versionId : Option Text
  ruleId : Text
  deriving DecidableEq, Repr

structure FileMetadata where
  filename : Text
  location : Location
  sizeBytes : ℕ
  modifiedAt : Int
  deriving DecidableEq, Repr

inductive CollisionKind where
  | duplicatePlanTarget | existingTarget | manualReviewName
  deriving DecidableEq, Repr

structure Collision where
  kind : CollisionKind
  sourceMetadata : FileMetadata
  existingTargetMetadata : Option FileMetadata
  conflictingItemIds : List Text
  deriving DecidableEq, Repr

inductive PredictedState where
  | willMove | willManualReview | requiresDecision | notReady
  deriving DecidableEq, Repr

structure PlanRow where
  itemId : Text
  itemRevision : ℕ
  source : Location
  filename : Text
  companyId : Text
  predictedState : PredictedState
  reasonCode : Option Reason
  target : Option Location
  matchedRules : List RuleReference
  selectedRule : Option RuleReference
  collision : Option Collision
  deriving DecidableEq, Repr

inductive Phase where
  | queued | intent | recoveryRequired | done
  deriving DecidableEq, Repr

inductive OutcomeState where
  | pending | processing | sorted | manualReview | requiresDecision | quarantined | skipped
  | recoveryRequired
  deriving DecidableEq, Repr

structure Outcome where
  attemptId : Text
  itemId : Text
  itemRevision : ℕ
  state : OutcomeState
  reasonCode : Option Reason
  source : Location
  plannedTarget : Option Location
  actualLocation : Option Location
  matchedRule : Option RuleReference
  startedAt : Option Time
  finishedAt : Option Time
  deriving DecidableEq, Repr

/-- Where a durable intent can take a file. -/
inductive IntendedState where
  | sorted | manualReview | quarantined
  deriving DecidableEq, Repr

def IntendedState.outcome : IntendedState → OutcomeState
  | .sorted => .sorted
  | .manualReview => .manualReview
  | .quarantined => .quarantined

/-- `intent_target`, `intended_state` and `intended_reason`, which are only ever written
together. -/
structure Intent where
  target : Location
  state : IntendedState
  reason : Option Reason
  deriving DecidableEq, Repr

structure Attempt where
  attemptId : Text
  batchId : Text
  companyId : Text
  actor : Text
  requestId : Text
  item : QueueItem
  plan : PlanRow
  outcome : Outcome
  phase : Phase
  intent : Option Intent
  deriving DecidableEq, Repr

def Attempt.intentTarget (attempt : Attempt) : Option Location := attempt.intent.map (·.target)

structure Claim where
  attemptId : Text
  batchId : Text
  deriving DecidableEq, Repr

structure RuleSet where
  companyId : Text
  members : List (Text × Text)
  deriving DecidableEq, Repr

structure Selection where
  selectionId : Text
  companyId : Text
  expiresAt : Time
  items : List QueueItem
  owner : Text
  batchId : Option Text
  deriving DecidableEq, Repr

structure Preview where
  previewId : Text
  selectionId : Text
  companyId : Text
  ruleSet : RuleSet
  expiresAt : Time
  rows : List PlanRow
  owner : Text
  deriving DecidableEq, Repr

/-- The stored part of a batch; its counts and status are computed from its attempts. -/
structure Batch where
  batchId : Text
  companyId : Text
  actor : Text
  selectionId : Text
  previewId : Option Text
  ruleSet : RuleSet
  createdAt : Time
  selectedCount : ℕ
  deriving DecidableEq, Repr

structure QuarantineCard where
  quarantineId : Text
  revision : ℕ
  itemId : Text
  companyId : Text
  filename : Text
  location : Location
  originalLocation : Location
  reasonCode : Reason
  quarantinedAt : Time
  sourceAttemptId : Text
  recoveryOperationId : Option Text
  canReturn : Bool
  fingerprint : Option Fingerprint
  returned : Bool
  deriving DecidableEq, Repr

inductive ReturnPhase where
  | intent | recoveryRequired | done | rejected
  deriving DecidableEq, Repr

structure ReturnBody where
  expectedRevision : ℕ
  comment : Text
  deriving DecidableEq, Repr

structure ReturnResult where
  returnOperationId : Text
  item : PublicItem
  deriving DecidableEq, Repr

structure ReturnOperation where
  operationId : Text
  quarantineId : Text
  actor : Text
  requestId : Text
  body : ReturnBody
  phase : ReturnPhase
  fingerprint : Fingerprint
  source : Location
  target : Location
  error : Option ApiCode
  result : Option ReturnResult
  deriving DecidableEq, Repr

structure ReturnKey where
  body : ReturnBody
  operationId : Text
  deriving DecidableEq, Repr

inductive AuditAction where
  | batchAccepted | fileAttemptStarted | fileAttemptFinished | recoveryRequired
  | quarantineReturned | dictionaryCreated | draftSaved | dictionaryRestored
  | dictionarySimulated | dictionaryPublished
  deriving DecidableEq, Repr

inductive AuditResult where
  | success | issue
  deriving DecidableEq, Repr

/-- `emit` with its links; the links a call leaves out are null. -/
structure AuditEvent where
  actor : Text
  action : AuditAction
  requestId : Text
  occurredAt : Time
  result : AuditResult := .success
  operationId : Option Text := none
  sourceAttemptId : Option Text := none
  companyId : Option Text := none
  dictionaryId : Option Text := none
  versionId : Option Text := none
  ruleSet : Option RuleSet := none
  batchId : Option Text := none
  attemptId : Option Text := none
  itemId : Option Text := none
  source : Option Location := none
  target : Option Location := none
  reasonCode : Option Reason := none
  comment : Option Text := none
  deriving DecidableEq, Repr

/-- An upsert of a moved file, waiting for its delivery to the search engine. -/
structure OutboxRow where
  eventKey : Text
  rootId : Text
  itemId : Text
  relativePath : Text
  sizeBytes : ℕ
  modifiedAt : Int
  deriving DecidableEq, Repr

inductive FreshnessStatus where
  | current | stale
  deriving DecidableEq, Repr

structure Freshness where
  indexedAt : Time
  lastSuccessfulSyncAt : Time
  status : FreshnessStatus
  deriving DecidableEq, Repr

structure Draft where
  draftRevision : ℕ
  rules : List RuleBody
  basedOnVersionId : Option Text
  deriving DecidableEq, Repr

structure Dictionary where
  dictionaryId : Text
  companyId : Text
  name : Text
  description : Text
  draft : Draft
  activeVersionId : Option Text
  versionsCount : ℕ
  updatedAt : Time
  updatedBy : Text
  deriving DecidableEq, Repr

structure DictionaryVersion where
  versionId : Text
  dictionaryId : Text
  versionNumber : ℕ
  name : Text
  description : Text
  rules : List RuleBody
  publishedAt : Time
  publishedBy : Text
  comment : Text
  restoredFromVersionId : Option Text
  deriving DecidableEq, Repr

structure Root where
  label : Text
  displayPrefix : Text
  base : Text
  searchable : Bool
  incomingCompany : Option Text
  deriving DecidableEq, Repr

/-- The folder of a company is one path component, so that joining it with a file name
is the same by `_join` and by an f-string. -/
structure Company where
  folder : Text
  targets : List TargetDirectory
  folder_nonempty : folder ≠ []
  folder_component : '/' ∉ folder

/-- Roots and companies as the bootstrap stores them. -/
structure Layout where
  root : Text → Option Root
  company : Text → Option Company

structure Settings where
  ttl : Time
  readiness : Time
  maxBatchItems : ℕ

end Records
