import WiseWay.OrderedDicts
import WiseWay.Records

/-! # The client's transport

The idempotency keys of pending operations, and what the transport does with a request and with
its response. -/
namespace ClientTransport

open OrderedDicts
open Records (Text)

/-! The fingerprint of a body. -/

def fnvOffsetBasis64 : ℕ := 0xcbf29ce484222325

def fnvPrime64 : ℕ := 0x100000001b3

def uint64Mask : ℕ := 0xffffffffffffffff

/-- The numbers that `charCodeAt` gives, surrogates included. -/
def charCodes (text : Text) : List ℕ :=
  text.flatMap fun c =>
    if c.toNat < 0x10000 then [c.toNat]
    else [0xd800 + (c.toNat - 0x10000) / 0x400, 0xdc00 + (c.toNat - 0x10000) % 0x400]

/-- A character inside a string of `JSON.stringify`. -/
def quoteChar (c : Char) : Text :=
  match c.toNat with
  | 8 => "\\b".toList
  | 9 => "\\t".toList
  | 10 => "\\n".toList
  | 12 => "\\f".toList
  | 13 => "\\r".toList
  | 34 => "\\\"".toList
  | 92 => "\\\\".toList
  | n => if n < 32 then "\\u".toList ++ (Nat.toDigits 16 n).leftpad 4 '0' else [c]

/-- The transport hands over the text of the body, so the value is a string. -/
def stableSerialize (body : Text) : Text := "\"".toList ++ body.flatMap quoteChar ++ "\"".toList

def fingerprintBody (body : Text) : Text :=
  let hash := (charCodes (stableSerialize body)).foldl
    (fun hash code => ((hash ^^^ code) * fnvPrime64) &&& uint64Mask) fnvOffsetBasis64
  (Nat.toDigits 16 hash).leftpad 16 '0'

/-! The store of pending keys. -/

structure IdempotencyRecord where
  key : Text
  bodyFingerprint : Text
  deriving DecidableEq

abbrev IdempotencyStore := OrderedDict Text IdempotencyRecord

/-- The cell of an operation and, if there is one, its scope. -/
def scopedKey (operationId scope : Text) : Text :=
  if scope = [] then operationId else operationId ++ Char.ofNat 0 :: scope

/-- The key for a body; `uuid` is what `generateUuid` would draw. -/
def begin (records : IdempotencyStore) (operationId body scope uuid : Text) :
    Text × IdempotencyStore :=
  let mapKey := scopedKey operationId scope
  let bodyFingerprint := fingerprintBody body
  match (records.get mapKey).filter (·.bodyFingerprint = bodyFingerprint) with
  | some existing => (existing.key, records)
  | none => (uuid, records.set mapKey ⟨uuid, bodyFingerprint⟩)

def complete (records : IdempotencyStore) (operationId scope : Text) : IdempotencyStore :=
  records.pop (scopedKey operationId scope)

/-! Responses. -/

/-- The `error` object of a response body: its code and flag where they have the right type. -/
structure ErrorDetails where
  code : Option Text
  retryable : Option Bool
  deriving DecidableEq

structure Session where
  csrfToken : Text
  actor : Text
  expiresAt : Text
  deriving DecidableEq

/-- A response with its parsed body: `error` of a failure, `session` of a success. -/
structure Response where
  status : ℕ
  error : Option ErrorDetails
  session : Option Session
  deriving DecidableEq

structure TransportError where
  status : Option ℕ
  code : Text
  retryable : Bool
  deriving DecidableEq

def Response.ok (response : Response) : Bool := 200 ≤ response.status ∧ response.status ≤ 299

def fallbackCodeByStatus : ℕ → Option Text
  | 400 => some "INVALID_QUERY".toList
  | 401 => some "UNAUTHENTICATED".toList
  | 403 => some "FORBIDDEN".toList
  | 404 => some "NOT_FOUND".toList
  | 409 => some "INVALID_STATE".toList
  | 422 => some "VALIDATION_ERROR".toList
  | 429 => some "RATE_LIMITED".toList
  | 500 => some "INTERNAL_ERROR".toList
  | 503 => some "SERVICE_UNAVAILABLE".toList
  | _ => none

def defaultErrorCode : Text := "INTERNAL_ERROR".toList

def retryableCodes : List Text :=
  ["RATE_LIMITED".toList, "SEARCH_UNAVAILABLE".toList, "SERVICE_UNAVAILABLE".toList]

def extractErrorCode (response : Response) : Option Text := response.error.bind (·.code)

/-- The error of a response that is not a success. -/
def toTransportError (response : Response) : TransportError :=
  let code := ((extractErrorCode response).filter (· ≠ [])).getD
    ((fallbackCodeByStatus response.status).getD defaultErrorCode)
  { status := some response.status
    code := code
    retryable := (response.error.bind (·.retryable)).getD (code ∈ retryableCodes) }

def networkError : TransportError := ⟨none, "NETWORK_ERROR".toList, true⟩

/-- A confirmed end of the session; an unreadable body does not count. -/
def Unauthenticated (response : Response) : Prop :=
  response.status = 401 ∧ extractErrorCode response = some "UNAUTHENTICATED".toList

instance (response : Response) : Decidable (Unauthenticated response) :=
  inferInstanceAs (Decidable (_ ∧ _))

/-- A success or a final failure. -/
def Completes (response : Response) : Prop :=
  response.ok = true ∨ (toTransportError response).retryable = false

instance (response : Response) : Decidable (Completes response) :=
  inferInstanceAs (Decidable (_ ∨ _))

/-! The middleware. -/

structure OperationMeta where
  operationId : Text
  csrf : Bool
  idempotencyKey : Bool
  deriving DecidableEq

def createSortingBatch : OperationMeta := ⟨"createSortingBatch".toList, true, true⟩

/-- What the module state of the transport holds of a session. -/
structure Transport where
  csrfToken : Option Text
  records : IdempotencyStore

structure Headers where
  csrfToken : Option Text
  idempotencyKey : Option Text
  deriving DecidableEq

def clearSession : Transport := ⟨none, OrderedDict.empty⟩

def onRequest (t : Transport) (operation : OperationMeta) (scope body uuid : Text) :
    Transport × Headers :=
  let csrfToken := if operation.csrf then t.csrfToken.filter (· ≠ []) else none
  if operation.idempotencyKey then
    let begun := begin t.records operation.operationId body scope uuid
    ({ t with records := begun.2 }, ⟨csrfToken, some begun.1⟩)
  else (t, ⟨csrfToken, none⟩)

/-- The transport after a response. A confirmed 401 also calls the listeners, which do not touch
the transport. -/
def onResponse (t : Transport) (operation : OperationMeta) (scope : Text) (response : Response) :
    Transport :=
  let t := if Unauthenticated response then clearSession else t
  if operation.idempotencyKey = true ∧ Completes response then
    { t with records := complete t.records operation.operationId scope }
  else t

/-- A failure of the network keeps the pending record. -/
def onError (t : Transport) : Transport := t

/-! The store. -/

variable {records : IdempotencyStore} {operationId body scope uuid : Text}

variable (records operationId body scope uuid) in
theorem begin_cases :
    (∃ existing, records.get (scopedKey operationId scope) = some existing ∧
        existing.bodyFingerprint = fingerprintBody body ∧
        begin records operationId body scope uuid = (existing.key, records)) ∨
      ((∀ existing, records.get (scopedKey operationId scope) = some existing →
          existing.bodyFingerprint ≠ fingerprintBody body) ∧
        begin records operationId body scope uuid =
          (uuid, records.set (scopedKey operationId scope) ⟨uuid, fingerprintBody body⟩)) := by
  rw [begin]
  cases h : (records.get (scopedKey operationId scope)).filter
      (·.bodyFingerprint = fingerprintBody body) with
  | some existing =>
    obtain ⟨hget, hsame⟩ := Option.filter_eq_some_iff.mp h
    exact Or.inl ⟨existing, hget, of_decide_eq_true hsame, rfl⟩
  | none =>
    right
    refine ⟨?_, rfl⟩
    intro existing hget hsame
    rw [hget, Option.filter_some, if_pos (decide_eq_true hsame)] at h
    cases h

theorem get_begin (cell : Text) :
    (begin records operationId body scope uuid).2.get cell =
      if cell = scopedKey operationId scope then
        some ⟨(begin records operationId body scope uuid).1, fingerprintBody body⟩
      else records.get cell := by
  rcases begin_cases records operationId body scope uuid with
    ⟨existing, hget, hsame, hbegin⟩ | ⟨-, hbegin⟩
  · rw [hbegin]
    by_cases hcell : cell = scopedKey operationId scope
    · rw [if_pos hcell, hcell, hget, ← hsame]
    · rw [if_neg hcell]
  · rw [hbegin, get_set]

theorem get_complete (cell : Text) :
    (complete records operationId scope).get cell =
      if cell = scopedKey operationId scope then none else records.get cell :=
  get_pop

end ClientTransport
