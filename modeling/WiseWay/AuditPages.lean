import Mathlib.Data.List.Sort
import Mathlib.Data.Prod.Lex
import WiseWay.AuditTimes
import WiseWay.Sessions

/-! # Pages of the audit journal

`query_events` of `audit.py`, `audit_pagination.py` and the snapshots and cursors of
`services.py`. A page is read in one transaction; its snapshot and its cursor are written in two
more, between which other requests run. -/
namespace AuditPages

open Records AuditTimes
open Sessions (Role Actor)

inductive Category where
  | business | system
  deriving DecidableEq, Repr

inductive Action where
  | dictionaryCreated | draftSaved | dictionarySimulated | dictionaryPublished
  | dictionaryRestored | batchAccepted | fileAttemptStarted | fileAttemptFinished
  | quarantineReturned | recoveryRequired | loginSucceeded | loginFailed | logout
  | accountBlocked | accountCreated | accountUnblocked | passwordChanged
  deriving DecidableEq, Repr

/-- `SYSTEM_ACTIONS`. -/
def systemActions : List Action :=
  [.loginSucceeded, .loginFailed, .logout, .accountBlocked, .accountCreated, .accountUnblocked,
    .passwordChanged]

inductive Result where
  | success | issue | failed
  deriving DecidableEq, Repr

/-- The fields of an event that a query reads; of its actor the identifier, of its source and its
target the display path. -/
structure JournalEvent where
  eventId : Text
  occurredAt : Text
  actor : Option Text
  category : Category
  action : Action
  result : Result
  companyId : Option Text
  source : Option Text
  target : Option Text
  deriving DecidableEq, Repr

/-- The body of a query without its cursor and its limit; also its signature. -/
structure Filter where
  companyId : Option Text
  «from» : Text
  «to» : Text
  actorId : Option Text
  action : Option Action
  result : Option Result
  queryText : Text
  deriving DecidableEq, Repr

inductive AuditError where
  | validationError | forbidden | rateLimited
  /-- A Python exception that is no `ApiError`. -/
  | raised
  deriving DecidableEq, Repr

/-- `str.casefold` and the length of the JSON text of a snapshot. -/
structure Library where
  casefold : Text → Text
  snapshotBytes : Text → Filter → ℕ → Option Text → Time → ℕ

section Query

variable (u : Library) (actor : Actor) (filter : Filter)

def visible (role : Role) (event : JournalEvent) : Bool :=
  role = .admin ∨ event.category = .business

/-- `visible_events`: the newest first. -/
def visibleEvents (journal : List JournalEvent) : List JournalEvent :=
  journal.reverse.filter (visible actor.role)

/-- `query_bounds`. -/
def queryBounds : Except AuditError (ℚ × ℚ) :=
  match timestamp filter.from, timestamp filter.to with
  | some start, some stop =>
    if stop ≤ start then .error .validationError
    else if filter.action.any (· ∈ systemActions) ∧ actor.role ≠ .admin then .error .forbidden
    else .ok (start, stop)
  | _, _ => .error .raised

def selects {α : Type} [DecidableEq α] (wanted : Option α) (found : Option α) : Bool :=
  wanted = none ∨ found = wanted

/-- The conditions of `query_events` other than the period. -/
def chosen (event : JournalEvent) : Bool :=
  selects filter.companyId event.companyId ∧ selects filter.action (some event.action) ∧
    selects filter.result (some event.result) ∧ selects filter.actorId event.actor ∧
    (u.casefold filter.queryText = [] ∨
      [event.source, event.target].any fun path =>
        u.casefold filter.queryText <:+: u.casefold (path.getD []))

abbrev TimeKey := ℚ ×ₗ Text

def timedRow (event : JournalEvent) : Except AuditError (TimeKey × JournalEvent) :=
  match timestamp event.occurredAt with
  | some time => .ok (toLex (time, event.eventId), event)
  | none => .error .raised

/-- `query_events` on the events that are visible. -/
def queryEvents (events : List JournalEvent) : Except AuditError (List JournalEvent) := do
  let (start, stop) ← queryBounds actor filter
  let timed ← events.mapM timedRow
  let found := timed.filter fun row =>
    start ≤ (ofLex row.1).1 ∧ (ofLex row.1).1 < stop ∧ chosen u filter row.2
  return (found.insertionSort fun a b => b.1 ≤ a.1).map Prod.snd

/-! SQLite. -/

structure Keyset where
  occurredAt : Text
  eventId : Text
  deriving DecidableEq, Repr

/-- A condition that is left out when there is nothing to compare with. -/
def sqlEquals {α : Type} [DecidableEq α] (wanted : Option α) (found : Option α) : Bool :=
  match wanted with
  | none => true
  | some wanted => found = some wanted

def casefoldContains (value : Option Text) (needle : Text) : Bool :=
  value.any fun text => u.casefold needle <:+: u.casefold text

/-- The keyset clause; `NULL` is not true. -/
def isAfter (after : Option Keyset) (occurred : Text) (eventId : Text) : Bool :=
  match after with
  | none => true
  | some after =>
    match normalizedUtc after.occurredAt with
    | none => false
    | some position => occurred < position ∨ occurred = position ∧ eventId < after.eventId

/-- `_where` without `seq <= :cutoff_seq`. -/
def whereClause (after : Option Keyset) (event : JournalEvent) : Bool :=
  match normalizedUtc event.occurredAt, normalizedUtc filter.from, normalizedUtc filter.to with
  | some occurred, some start, some stop =>
    start ≤ occurred ∧ occurred < stop ∧
    (actor.role = .admin ∨ event.category = .business) ∧
    sqlEquals filter.companyId event.companyId ∧ sqlEquals filter.action (some event.action) ∧
    sqlEquals filter.result (some event.result) ∧ sqlEquals filter.actorId event.actor ∧
    (filter.queryText = [] ∨ casefoldContains u event.source filter.queryText ∨
      casefoldContains u event.target filter.queryText) ∧
    isAfter after occurred event.eventId
  | _, _, _ => false

abbrev SqlKey := Text ×ₗ Text

def sqlKey (event : JournalEvent) : SqlKey :=
  toLex ((normalizedUtc event.occurredAt).getD [], event.eventId)

/-- The rows that `_events` selects, before its limit. The `seq` of a row is its place in the
journal, counted from one. -/
def selectRows (journal : List JournalEvent) (cutoffSeq : ℕ) (after : Option Keyset) :
    List JournalEvent :=
  ((journal.take cutoffSeq).filter (whereClause u actor filter after)).insertionSort
    fun a b => sqlKey b ≤ sqlKey a

/-- `_newest_visible_event_id`. -/
def newestVisibleEventId (role : Role) (journal : List JournalEvent) (cutoffSeq : ℕ) :
    Option Text :=
  (((journal.take cutoffSeq).filter (visible role)).getLast?).map (·.eventId)

/-- `_visible_cutoff`: the largest `seq` of a visible row. -/
def visibleCutoff (role : Role) (journal : List JournalEvent) : ℕ :=
  ((((journal.zipIdx 1).filter fun row => visible role row.1).map Prod.snd).max?).getD 0

end Query

/-! Snapshots and cursors. -/

/-- The parts whose digest is the identifier of a snapshot. -/
structure SnapshotId where
  owner : Text
  query : Filter
  cutoffSeq : ℕ
  expires : Time
  deriving DecidableEq, Repr

structure AuditSnapshot where
  snapshotId : SnapshotId
  owner : Text
  query : Filter
  cutoffSeq : ℕ
  newestEventId : Option Text
  expires : Time
  payloadBytes : ℕ
  deriving DecidableEq, Repr

structure CursorKey where
  owner : Text
  query : Filter
  snapshotId : SnapshotId
  position : Keyset
  deriving DecidableEq, Repr

structure AuditCursor where
  cursorId : CursorKey
  owner : Text
  query : Filter
  snapshotId : SnapshotId
  expires : Time
  position : Keyset
  deriving DecidableEq, Repr

/-- A snapshot of another listing, as far as the quota counts it. -/
structure PayloadPage where
  owner : Text
  payloadBytes : ℕ
  expires : Time
  deriving DecidableEq, Repr

structure Site where
  journal : List JournalEvent
  snapshots : List AuditSnapshot
  cursors : List AuditCursor
  payloadPages : List PayloadPage

/-- Of 1000000 microseconds each. -/
def pageCursorSeconds : Time := 86400 * 1000000

def maxPageSnapshotsPerUser : ℕ := 64

def maxPageSnapshotBytes : ℕ := 8 * 1024 * 1024

def maxPageSnapshotTotalBytesPerUser : ℕ := 32 * 1024 * 1024

/-- `_delete_expired_pages`; `Maintenance` deletes the same rows. -/
def deleteExpiredPages (now : Time) (s : Site) : Site :=
  { s with
    snapshots := s.snapshots.filter fun snapshot => now < snapshot.expires
    cursors := s.cursors.filter fun cursor => now < cursor.expires
    payloadPages := s.payloadPages.filter fun page => now < page.expires }

def ownPages (s : Site) (owner : Text) : List ℕ :=
  ((s.snapshots.filter (·.owner = owner)).map (·.payloadBytes)) ++
    (s.payloadPages.filter (·.owner = owner)).map (·.payloadBytes)

/-- `_check_page_quota`. -/
def checkPageQuota (s : Site) (owner : Text) (payloadBytes : ℕ) : Except AuditError Unit :=
  if maxPageSnapshotBytes < payloadBytes ∨ maxPageSnapshotsPerUser ≤ (ownPages s owner).length ∨
      maxPageSnapshotTotalBytesPerUser < (ownPages s owner).sum + payloadBytes then
    .error .rateLimited
  else .ok ()

def putSnapshot (s : Site) (snapshot : AuditSnapshot) : Site :=
  { s with snapshots :=
      s.snapshots.filter (·.snapshotId ≠ snapshot.snapshotId) ++ [snapshot] }

def putCursor (s : Site) (cursor : AuditCursor) : Site :=
  { s with cursors := s.cursors.filter (·.cursorId ≠ cursor.cursorId) ++ [cursor] }

def getSnapshot (s : Site) (id : SnapshotId) : Option AuditSnapshot :=
  s.snapshots.find? (·.snapshotId = id)

def getCursor (s : Site) (id : CursorKey) : Option AuditCursor :=
  s.cursors.find? (·.cursorId = id)

/-- `reserve_audit_snapshot`. -/
def reserveAuditSnapshot (u : Library) (actor : Actor) (query : Filter) (cutoffSeq : ℕ)
    (newestEventId : Option Text) (now : Time) (s : Site) :
    Except AuditError (AuditSnapshot × Site) := do
  let expires := now + pageCursorSeconds
  let s := deleteExpiredPages now s
  match s.snapshots.find? fun saved => saved.owner = actor.userId ∧ saved.query = query ∧
      saved.cutoffSeq = cutoffSeq ∧ now < saved.expires with
  | some saved => return (saved, s)
  | none =>
    let metadata : AuditSnapshot := {
      snapshotId := ⟨actor.userId, query, cutoffSeq, expires⟩
      owner := actor.userId
      query := query
      cutoffSeq := cutoffSeq
      newestEventId := newestEventId
      expires := expires
      payloadBytes := u.snapshotBytes actor.userId query cutoffSeq newestEventId expires }
    checkPageQuota s actor.userId metadata.payloadBytes
    return (metadata, putSnapshot s metadata)

/-- `create_audit_cursor`. -/
def createAuditCursor (actor : Actor) (query : Filter) (snapshot : AuditSnapshot)
    (position : Keyset) (now : Time) (s : Site) : Except AuditError (CursorKey × Site) :=
  let key : CursorKey := ⟨actor.userId, query, snapshot.snapshotId, position⟩
  match getSnapshot s snapshot.snapshotId with
  | none => .error .validationError
  | some saved =>
    if saved.owner ≠ actor.userId ∨ saved.query ≠ query ∨ saved.expires ≤ now then
      .error .validationError
    else
      .ok (key, putCursor s {
        cursorId := key
        owner := actor.userId
        query := query
        snapshotId := saved.snapshotId
        expires := saved.expires
        position := position })

/-- `_snapshot_for_cursor`. -/
def snapshotForCursor (actor : Actor) (query : Filter) (cursor : CursorKey) (now : Time)
    (s : Site) : Except AuditError (AuditSnapshot × Keyset) :=
  match getCursor s cursor with
  | none => .error .validationError
  | some saved =>
    if saved.owner ≠ actor.userId ∨ saved.query ≠ query ∨ saved.expires ≤ now then
      .error .validationError
    else
      match getSnapshot s saved.snapshotId with
      | none => .error .validationError
      | some snapshot =>
        if snapshot.owner ≠ actor.userId ∨ snapshot.query ≠ query ∨ snapshot.expires ≤ now then
          .error .validationError
        else .ok (snapshot, saved.position)

/-! A page. -/

structure PageRequest where
  filter : Filter
  cursor : Option CursorKey
  limit : ℕ
  deriving DecidableEq, Repr

structure Page where
  items : List JournalEvent
  nextCursor : Option CursorKey
  newestEventId : Option Text
  deriving DecidableEq, Repr

/-- What the reading transaction of `query_page` leaves: the page without its cursor, whether more
follows, the cutoff and the snapshot of the cursor. -/
structure Reading where
  items : List JournalEvent
  more : Bool
  cutoffSeq : ℕ
  newestEventId : Option Text
  snapshot : Option AuditSnapshot
  deriving DecidableEq, Repr

/-- The cutoff, the newest event and where to start. -/
def pageStart (actor : Actor) (request : PageRequest) (now : Time) (s : Site) :
    Except AuditError (ℕ × Option Text × Option (AuditSnapshot × Keyset)) :=
  match request.cursor with
  | some cursor => do
    let (snapshot, after) ← snapshotForCursor actor request.filter cursor now s
    return (snapshot.cutoffSeq, snapshot.newestEventId, some (snapshot, after))
  | none =>
    let cutoffSeq := visibleCutoff actor.role s.journal
    .ok (cutoffSeq, newestVisibleEventId actor.role s.journal cutoffSeq, none)

/-- `query_page` up to the reservation of a snapshot. -/
def readPage (u : Library) (actor : Actor) (request : PageRequest) (now : Time) (s : Site) :
    Except AuditError Reading := do
  let _ ← queryBounds actor request.filter
  let (cutoffSeq, newestEventId, start) ← pageStart actor request now s
  let rows := (selectRows u actor request.filter s.journal cutoffSeq (start.map Prod.snd)).take
    (request.limit + 1)
  return {
    items := rows.take request.limit
    more := decide (request.limit < rows.length)
    cutoffSeq := cutoffSeq
    newestEventId := newestEventId
    snapshot := start.map Prod.fst }

end AuditPages
