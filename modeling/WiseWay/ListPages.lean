import WiseWay.Fallible
import WiseWay.Records

/-! # Pages of a list

`Context.page` with its snapshots and cursors, and the audit snapshots that share their quota.
A page of a read request writes in a transaction of its own, a page of a write request in the
one it is given: either way the two tables are read and written at one moment. -/
namespace ListPages

open Records
open Fallible (bind_eq_ok)

section Model

variable {J : Type} [DecidableEq J]

/-- A field of a payload: a list of rows, or any other JSON value. -/
inductive Field (J : Type) where
  | rows (items : List J)
  | value (value : J)
  deriving DecidableEq

abbrev Payload (J : Type) := Table (Field J)

/-- The query without its cursor and its limit; its digest is the signature. -/
def filters (query : Table J) : Table J :=
  (query.erase "cursor".toList).erase "limit".toList

/-- An identifier of a snapshot or of a cursor: a given one, or the parts of a digest. -/
inductive Key (J : Type) where
  | given (text : Text)
  | snapshot (scope owner : Text) (query : Table J) (field : Text) (payload : Payload J)
  | legacySnapshot (cursor : Key J)
  | auditSnapshot (owner : Text) (query : Table J) (cutoffSeq : ℕ) (expires : Time)
  | cursor (scope owner : Text) (query : Table J) (snapshotId : Key J) (offset : ℕ)
      (expires : Time)
  | auditCursor (owner : Text) (query : Table J) (snapshotId : Key J) (occurredAt eventId : Text)
  deriving DecidableEq

inductive SnapshotBody (J : Type) where
  | payload (scope : Text) (payload : Payload J)
  | audit (cutoffSeq : ℕ) (newestEventId : Option Text)
  deriving DecidableEq

structure Snapshot (J : Type) where
  snapshotId : Key J
  owner : Text
  query : Table J
  payloadBytes : ℕ
  expires : Time
  body : SnapshotBody J
  deriving DecidableEq

/-- A cursor of an older version carries its payload. -/
inductive CursorBody (J : Type) where
  | legacy (payload : Payload J) (offset : ℕ)
  | compact (snapshotId : Key J) (offset : ℕ)
  | keyset (snapshotId : Key J) (occurredAt eventId : Text)
  deriving DecidableEq

structure Cursor (J : Type) where
  cursorId : Key J
  scope : Text
  owner : Text
  query : Table J
  expires : Time
  body : CursorBody J
  deriving DecidableEq

/-- The objects of the kinds `page_snapshot` and `cursor`. -/
structure Pages (J : Type) where
  snapshots : List (Snapshot J)
  cursors : List (Cursor J)

inductive PageError where
  | validationError | rateLimited
  /-- A Python exception that is no `ApiError`. -/
  | raised
  deriving DecidableEq, Repr

/-- `_snapshot_bytes` of a payload and of the metadata of an audit snapshot. -/
structure Sizes (J : Type) where
  payload : Payload J → ℕ
  audit : Text → Table J → ℕ → Option Text → Time → ℕ

/-! The tables. -/

/-- Of 1000000 microseconds each. -/
def pageCursorSeconds : Time := 86400 * 1000000

def maxPageSnapshotsPerUser : ℕ := 64

def maxPageSnapshotBytes : ℕ := 8 * 1024 * 1024

def maxPageSnapshotTotalBytesPerUser : ℕ := 32 * 1024 * 1024

def getSnapshot (s : Pages J) (id : Key J) : Option (Snapshot J) :=
  s.snapshots.find? (·.snapshotId = id)

def getCursor (s : Pages J) (id : Key J) : Option (Cursor J) :=
  s.cursors.find? (·.cursorId = id)

def putSnapshot (s : Pages J) (snapshot : Snapshot J) : Pages J :=
  { s with snapshots := s.snapshots.filter (·.snapshotId ≠ snapshot.snapshotId) ++ [snapshot] }

def putCursor (s : Pages J) (cursor : Cursor J) : Pages J :=
  { s with cursors := s.cursors.filter (·.cursorId ≠ cursor.cursorId) ++ [cursor] }

/-- `_delete_expired_pages`; `Maintenance.run_once` deletes the same rows. -/
def deleteExpiredPages (now : Time) (s : Pages J) : Pages J where
  snapshots := s.snapshots.filter (now < ·.expires)
  cursors := s.cursors.filter (now < ·.expires)

/-- The recorded sizes of the snapshots of an owner. -/
def ownSizes (s : Pages J) (owner : Text) : List ℕ :=
  (s.snapshots.filter (·.owner = owner)).map (·.payloadBytes)

/-- `_check_page_quota`. -/
def checkPageQuota (s : Pages J) (owner : Text) (payloadBytes : ℕ) : Except PageError Unit :=
  if maxPageSnapshotBytes < payloadBytes ∨ maxPageSnapshotsPerUser ≤ (ownSizes s owner).length ∨
      maxPageSnapshotTotalBytesPerUser < (ownSizes s owner).sum + payloadBytes then
    .error .rateLimited
  else .ok ()

/-! A page. -/

/-- The result without its `next_cursor`, and that cursor. -/
structure Page (J : Type) where
  fields : Payload J
  nextCursor : Option (Key J)
  deriving DecidableEq

/-- The arguments of `page`; of the actor the identifier. -/
structure PageRequest (J : Type) where
  scope : Text
  owner : Text
  query : Table J
  payload : Payload J
  field : Text
  cursor : Option (Key J)
  limit : ℕ

/-- `payload[field]`, which must be a list. -/
def rowsOf (payload : Payload J) (field : Text) : Except PageError (List J) :=
  match payload[field]? with
  | some (.rows items) => .ok items
  | _ => .error .raised

/-- `{**payload, field: items, "next_cursor": …}`. -/
def result (payload : Payload J) (field : Text) (items : List J) (nextCursor : Option (Key J)) :
    Page J where
  fields := (payload.insert field (.rows items)).erase "next_cursor".toList
  nextCursor := nextCursor

/-- What `page` knows once it has looked up its cursor or its first snapshot. -/
structure Place (J : Type) where
  payload : Payload J
  offset : ℕ
  expires : Time
  snapshotId : Key J
  snapshot : Option (Snapshot J)

/-- A row that a request may use. -/
def admits (scope owner : Text) (query : Table J) (expires : Time) (r : PageRequest J)
    (now : Time) : Bool :=
  scope = r.scope ∧ owner = r.owner ∧ query = filters r.query ∧ now < expires

def resume (r : PageRequest J) (cursor : Key J) (now : Time) (s : Pages J) :
    Except PageError (Place J) :=
  match getCursor s cursor with
  | none => .error .validationError
  | some saved =>
    if admits saved.scope saved.owner saved.query saved.expires r now = false then
      .error .validationError
    else
      match saved.body with
      | .keyset _ _ _ => .error .raised
      | .legacy payload offset =>
        -- A cursor created before compact snapshots were introduced.
        match getSnapshot s (.legacySnapshot cursor) with
        | none => .ok ⟨payload, offset, saved.expires, .legacySnapshot cursor, none⟩
        | some snapshot =>
          match snapshot.body with
          | .audit _ _ => .error .raised
          | .payload _ kept =>
            .ok ⟨kept, offset, saved.expires, .legacySnapshot cursor, some snapshot⟩
      | .compact snapshotId offset =>
        match getSnapshot s snapshotId with
        | none => .error .validationError
        | some snapshot =>
          match snapshot.body with
          | .audit _ _ => .error .raised
          | .payload scope kept =>
            if admits scope snapshot.owner snapshot.query snapshot.expires r now = false then
              .error .validationError
            else .ok ⟨kept, offset, saved.expires, snapshotId, some snapshot⟩

/-- A first page; `s` has no expired rows any more. -/
def start (r : PageRequest J) (now : Time) (s : Pages J) : Place J :=
  let snapshotId := Key.snapshot r.scope r.owner (filters r.query) r.field r.payload
  match getSnapshot s snapshotId with
  | some snapshot => ⟨r.payload, 0, snapshot.expires, snapshotId, some snapshot⟩
  | none => ⟨r.payload, 0, now + pageCursorSeconds, snapshotId, none⟩

/-- The snapshot that the following pages read, stored unless it already is. -/
def keepSnapshot (z : Sizes J) (r : PageRequest J) (place : Place J) (s : Pages J) :
    Except PageError (Snapshot J × Pages J) :=
  match place.snapshot with
  | some snapshot => .ok (snapshot, s)
  | none => do
    let snapshot : Snapshot J := {
      snapshotId := place.snapshotId
      owner := r.owner
      query := filters r.query
      payloadBytes := z.payload place.payload
      expires := place.expires
      body := .payload r.scope place.payload }
    checkPageQuota s r.owner snapshot.payloadBytes
    return (snapshot, putSnapshot s snapshot)

def nextCursor (r : PageRequest J) (place : Place J) (snapshot : Snapshot J) : Cursor J where
  cursorId := .cursor r.scope r.owner (filters r.query) snapshot.snapshotId
    (place.offset + r.limit) place.expires
  scope := r.scope
  owner := r.owner
  query := filters r.query
  expires := place.expires
  body := .compact snapshot.snapshotId (place.offset + r.limit)

def serve (z : Sizes J) (r : PageRequest J) (place : Place J) (s : Pages J) :
    Except PageError (Page J × Pages J) := do
  let rows ← rowsOf place.payload r.field
  let items := (rows.drop place.offset).take r.limit
  if place.offset + r.limit < rows.length then
    let (snapshot, s) ← keepSnapshot z r place s
    let cursor := nextCursor r place snapshot
    return (result place.payload r.field items (some cursor.cursorId), putCursor s cursor)
  else return (result place.payload r.field items none, s)

/-- `Context.page`. An empty cursor is no cursor, but it is not `None` either. -/
def page (z : Sizes J) (r : PageRequest J) (now : Time) (s : Pages J) :
    Except PageError (Page J × Pages J) :=
  match r.cursor with
  | none => do
    let rows ← rowsOf r.payload r.field
    if rows.length ≤ r.limit then
      return (result r.payload r.field (rows.take r.limit) none, s)
    serve z r (start r now (deleteExpiredPages now s)) (deleteExpiredPages now s)
  | some cursor =>
    if cursor = .given [] then
      serve z r (start r now (deleteExpiredPages now s)) (deleteExpiredPages now s)
    else do
      let place ← resume r cursor now s
      serve z r place s

/-! The audit journal. -/

def auditScope : Text := "queryAuditEvents".toList

def isAudit (cutoffSeq : ℕ) : SnapshotBody J → Bool
  | .audit saved _ => saved = cutoffSeq
  | .payload _ _ => false

/-- `reserve_audit_snapshot`. -/
def reserveAuditSnapshot (z : Sizes J) (owner : Text) (query : Table J) (cutoffSeq : ℕ)
    (newestEventId : Option Text) (now : Time) (s : Pages J) :
    Except PageError (Snapshot J × Pages J) := do
  let s := deleteExpiredPages now s
  let expires := now + pageCursorSeconds
  match s.snapshots.find? fun saved => saved.owner = owner ∧ saved.query = query ∧
      isAudit cutoffSeq saved.body ∧ now < saved.expires with
  | some saved => return (saved, s)
  | none =>
    let metadata : Snapshot J := {
      snapshotId := .auditSnapshot owner query cutoffSeq expires
      owner := owner
      query := query
      payloadBytes := z.audit owner query cutoffSeq newestEventId expires
      expires := expires
      body := .audit cutoffSeq newestEventId }
    checkPageQuota s owner metadata.payloadBytes
    return (metadata, putSnapshot s metadata)

/-- `create_audit_cursor`. -/
def createAuditCursor (owner : Text) (query : Table J) (snapshotId : Key J)
    (occurredAt eventId : Text) (now : Time) (s : Pages J) : Except PageError (Pages J) :=
  match getSnapshot s snapshotId with
  | none => .error .validationError
  | some saved =>
    match saved.body with
    | .payload _ _ => .error .validationError
    | .audit _ _ =>
      if saved.owner ≠ owner ∨ saved.query ≠ query ∨ saved.expires ≤ now then
        .error .validationError
      else
        .ok (putCursor s {
          cursorId := .auditCursor owner query snapshotId occurredAt eventId
          scope := auditScope
          owner := owner
          query := query
          expires := saved.expires
          body := .keyset saved.snapshotId occurredAt eventId })

/-! Runs. -/

/-- A transaction that writes pages. What else the store and the files go through shows in the
payloads of the calls. -/
inductive Move (J : Type) where
  | page (r : PageRequest J) (now : Time)
  | reserve (owner : Text) (query : Table J) (cutoffSeq : ℕ) (newestEventId : Option Text)
      (now : Time)
  | keyset (owner : Text) (query : Table J) (snapshotId : Key J) (occurredAt eventId : Text)
      (now : Time)
  | maintenance (now : Time)

def Move.now : Move J → Time
  | .page _ now => now
  | .reserve _ _ _ _ now => now
  | .keyset _ _ _ _ _ now => now
  | .maintenance now => now

/-- A transaction that fails leaves the tables as they were. -/
def committed (s : Pages J) : Except PageError (Pages J) → Pages J
  | .ok t => t
  | .error _ => s

def apply (z : Sizes J) (s : Pages J) : Move J → Pages J
  | .page r now => committed s ((page z r now s).map Prod.snd)
  | .reserve owner query cutoffSeq newest now =>
    committed s ((reserveAuditSnapshot z owner query cutoffSeq newest now s).map Prod.snd)
  | .keyset owner query snapshotId occurredAt eventId now =>
    committed s (createAuditCursor owner query snapshotId occurredAt eventId now s)
  | .maintenance now => deleteExpiredPages now s

def run (z : Sizes J) (moves : List (Move J)) (s : Pages J) : Pages J := moves.foldl (apply z) s

/-- A store without snapshots, which may have the cursors of an older version. -/
structure Start (s : Pages J) : Prop where
  snapshots : s.snapshots = []
  distinct : (s.cursors.map (·.cursorId)).Nodup
  legacy : ∀ c ∈ s.cursors, (∃ text, c.cursorId = .given text ∧ text ≠ []) ∧
    ∃ payload offset, c.body = .legacy payload offset

end Model

end ListPages
