import WiseWay.Services

/-! # Store transactions of the quarantine return

Each definition is the body of one write transaction of `quarantine.py`. -/
namespace ReturnTransactions

open Records Services

structure ReturnRequest where
  actor : Text
  quarantineId : Text
  idempotencyKey : Text
  body : ReturnBody
  requestId : Text
  deriving DecidableEq, Repr

def ReturnRequest.key (request : ReturnRequest) : List Text :=
  [request.actor, request.quarantineId, request.idempotencyKey]

/-- `str.isspace` for one character. -/
def isSpace (c : Char) : Bool :=
  (0x09 ≤ c.val ∧ c.val ≤ 0x0D) ∨ (0x1C ≤ c.val ∧ c.val ≤ 0x20) ∨ c.val = 0x85 ∨ c.val = 0xA0 ∨
    c.val = 0x1680 ∨ (0x2000 ≤ c.val ∧ c.val ≤ 0x200A) ∨ c.val = 0x2028 ∨ c.val = 0x2029 ∨
    c.val = 0x202F ∨ c.val = 0x205F ∨ c.val = 0x3000

def blank (text : Text) : Bool := text.all isSpace

/-- The checks of `return_item` before a new operation, and the identity it moves. -/
def admitReturn (layout : Layout) (tree : FileTree) (request : ReturnRequest)
    (card : QuarantineCard) : Except Exn Fingerprint := do
  if card.returned ∨ card.recoveryOperationId ≠ none ∨ card.canReturn = false then
    .error (apiError .invalidState)
  if card.revision ≠ request.body.expectedRevision then
    .error (apiError .quarantineVersionConflict)
  if blank request.body.comment then .error (apiError .validationError)
  if ← existsAt layout tree card.originalLocation then .error (apiError .originalPathOccupied)
  match ← stat tree (← physical layout card.location) with
  | none => .error (apiError .invalidState)
  | some expected =>
    if card.fingerprint ≠ none ∧ card.fingerprint ≠ some expected then
      .error (apiError .invalidState)
    else return expected

def newOperation (operationId : Text) (request : ReturnRequest) (card : QuarantineCard)
    (expected : Fingerprint) : ReturnOperation where
  operationId := operationId
  quarantineId := card.quarantineId
  actor := request.actor
  requestId := request.requestId
  body := request.body
  phase := .intent
  fingerprint := expected
  source := card.location
  target := card.originalLocation
  error := none
  result := none

/-- The operation to go on with, and whether the key had already recorded it. -/
def beginReturn (layout : Layout) (tree : FileTree) (operationId : Text)
    (request : ReturnRequest) (s : Store) : Except Exn ((ReturnOperation × Bool) × Store) :=
  match s.returnKey[request.key]? with
  | some record =>
    if record.body ≠ request.body then .error (apiError .idempotencyKeyReused)
    else do
      let operation ← require s.returns record.operationId
      return ((operation, true), s)
  | none => do
    let card ← require s.quarantine request.quarantineId
    let expected ← admitReturn layout tree request card
    let operation := newOperation operationId request card expected
    let returns ← insertNew s.returns operationId operation
    return ((operation, false), { s with
      returns := returns
      returnKey := s.returnKey.insert request.key ⟨request.body, operationId⟩
      quarantine := s.quarantine.insert card.quarantineId { card with
        canReturn := false, recoveryOperationId := some operationId } })

/-- The original path turned out to be occupied: nothing moved. -/
def rejectReturn (operation : ReturnOperation) (s : Store) : Except Exn Store := do
  let card ← require s.quarantine operation.quarantineId
  return { s with
    quarantine := s.quarantine.insert card.quarantineId { card with
      canReturn := true, recoveryOperationId := none }
    returns := s.returns.insert operation.operationId { operation with
      phase := .rejected, error := some .originalPathOccupied } }

def returnRecoveryEvent (operation : ReturnOperation) (card : QuarantineCard) (now : Time) :
    AuditEvent where
  actor := operation.actor
  action := .recoveryRequired
  requestId := operation.requestId
  occurredAt := now
  result := .issue
  operationId := operation.operationId
  sourceAttemptId := card.sourceAttemptId
  companyId := card.companyId
  itemId := card.itemId
  source := operation.source
  target := operation.target
  reasonCode := some .recoveryRequired
  comment := operation.body.comment

/-- The placement of the file is not established. -/
def lockReturn (operationId : Text) (now : Time) (s : Store) : Except Exn Store := do
  let saved ← require s.returns operationId
  if saved.phase = .recoveryRequired then return s
  let card ← require s.quarantine saved.quarantineId
  return { s with
    returns := s.returns.insert saved.operationId { saved with phase := .recoveryRequired }
    quarantine := s.quarantine.insert card.quarantineId { card with revision := card.revision + 1 }
    audit := s.audit ++ [returnRecoveryEvent saved card now] }

/-- The queue item of a returned file: it waits for readiness again. -/
def returnedItem (card : QuarantineCard) (operation : ReturnOperation) (now : Time)
    (item : QueueItem) : QueueItem :=
  { item with
    itemRevision := item.itemRevision + 1
    status := .waitingReady
    selectable := false
    reasonCode := none
    activeAttemptId := none
    source := card.originalLocation
    filename := Rules.leaf card.originalLocation.relativePath
    fingerprint := operation.fingerprint
    departed := false
    observedAt := now }

def returnedEvent (operation : ReturnOperation) (card : QuarantineCard) (now : Time) :
    AuditEvent where
  actor := operation.actor
  action := .quarantineReturned
  requestId := operation.requestId
  occurredAt := now
  operationId := operation.operationId
  sourceAttemptId := card.sourceAttemptId
  companyId := card.companyId
  itemId := card.itemId
  source := operation.source
  target := operation.target
  comment := operation.body.comment

def returnResult (operation : ReturnOperation) (item : QueueItem) : ReturnResult :=
  ⟨operation.operationId, item.toPublicItem⟩

/-- Everything `_finish` writes for an operation that is not done. -/
def returnedStore (operation : ReturnOperation) (card : QuarantineCard) (item : QueueItem)
    (now : Time) (s : Store) : Store :=
  { s with
    queue := s.queue.insert item.itemId (returnedItem card operation now item)
    quarantine := s.quarantine.insert card.quarantineId { card with
      revision := card.revision + 1, canReturn := false, recoveryOperationId := none
      returned := true }
    returns := s.returns.insert operation.operationId { operation with
      phase := .done
      result := some (returnResult operation (returnedItem card operation now item)) }
    audit := s.audit ++ [returnedEvent operation card now] }

def finishReturn (operationId : Text) (now : Time) (s : Store) :
    Except Exn (ReturnResult × Store) := do
  let saved ← require s.returns operationId
  if saved.phase = .done then
    match saved.result with
    | some result => return (result, s)
    | none => .error .failure
  else
    let card ← require s.quarantine saved.quarantineId
    let item ← require s.queue card.itemId
    return (returnResult saved (returnedItem card saved now item),
      returnedStore saved card item now s)

/-! What each transaction can do. -/

theorem beginReturn_cases {layout : Layout} {tree : FileTree} {operationId : Text}
    {request : ReturnRequest} {s t : Store} {operation : ReturnOperation} {replayed : Bool}
    (h : beginReturn layout tree operationId request s = .ok ((operation, replayed), t)) :
    (∃ record, replayed = true ∧ t = s ∧ s.returnKey[request.key]? = some record ∧
      record.body = request.body ∧ s.returns[record.operationId]? = some operation) ∨
    (∃ card expected, replayed = false ∧ s.returnKey[request.key]? = none ∧
      s.quarantine[request.quarantineId]? = some card ∧
      admitReturn layout tree request card = .ok expected ∧
      s.returns[operationId]? = none ∧ operation = newOperation operationId request card expected ∧
      t = { s with
        returns := s.returns.insert operationId operation
        returnKey := s.returnKey.insert request.key ⟨request.body, operationId⟩
        quarantine := s.quarantine.insert card.quarantineId { card with
          canReturn := false, recoveryOperationId := some operationId } }) := by
  unfold beginReturn at h
  cases hk : s.returnKey[request.key]? with
  | some record =>
    simp only [hk] at h
    by_cases hb : record.body = request.body
    · simp only [hb, ne_eq, not_true_eq_false, if_false] at h
      obtain ⟨found, hfound, ht⟩ := bind_eq_ok.mp h
      cases ht
      exact .inl ⟨record, rfl, rfl, rfl, hb, require_eq_ok.mp hfound⟩
    · simp [hb] at h
  | none =>
    simp only [hk] at h
    obtain ⟨card, hcard, h⟩ := bind_eq_ok.mp h
    obtain ⟨expected, hadmit, h⟩ := bind_eq_ok.mp h
    obtain ⟨returns, hnew, h⟩ := bind_eq_ok.mp h
    cases h
    obtain ⟨hfree, rfl⟩ := insertNew_eq_ok.mp hnew
    exact .inr ⟨card, expected, rfl, rfl, require_eq_ok.mp hcard, hadmit, hfree, rfl, rfl⟩

theorem admitReturn_card {layout : Layout} {tree : FileTree} {request : ReturnRequest}
    {card : QuarantineCard} {expected : Fingerprint}
    (h : admitReturn layout tree request card = .ok expected) :
    card.returned = false ∧ card.recoveryOperationId = none ∧ card.canReturn = true := by
  unfold admitReturn at h
  by_cases hc : card.returned = true ∨ card.recoveryOperationId ≠ none ∨ card.canReturn = false
  · simp [hc, bind, Except.bind] at h
  · simpa [not_or] using hc

theorem rejectReturn_cases {operation : ReturnOperation} {s t : Store}
    (h : rejectReturn operation s = .ok t) :
    ∃ card, s.quarantine[operation.quarantineId]? = some card ∧
      t = { s with
        quarantine := s.quarantine.insert card.quarantineId { card with
          canReturn := true, recoveryOperationId := none }
        returns := s.returns.insert operation.operationId { operation with
          phase := .rejected, error := some .originalPathOccupied } } := by
  obtain ⟨card, hcard, ht⟩ := bind_eq_ok.mp h
  cases ht
  exact ⟨card, require_eq_ok.mp hcard, rfl⟩

theorem lockReturn_cases {operationId : Text} {now : Time} {s t : Store}
    (h : lockReturn operationId now s = .ok t) :
    ∃ saved, s.returns[operationId]? = some saved ∧
      (saved.phase = .recoveryRequired ∧ t = s ∨
       saved.phase ≠ .recoveryRequired ∧ ∃ card, s.quarantine[saved.quarantineId]? = some card ∧
        t = { s with
          returns := s.returns.insert saved.operationId { saved with phase := .recoveryRequired }
          quarantine := s.quarantine.insert card.quarantineId { card with
            revision := card.revision + 1 }
          audit := s.audit ++ [returnRecoveryEvent saved card now] }) := by
  obtain ⟨saved, hsaved, ht⟩ := bind_eq_ok.mp h
  refine ⟨saved, require_eq_ok.mp hsaved, ?_⟩
  by_cases hr : saved.phase = .recoveryRequired
  · simp only [hr, if_true] at ht
    cases ht
    exact .inl ⟨hr, rfl⟩
  · simp only [hr, if_false] at ht
    obtain ⟨card, hcard, ht⟩ := bind_eq_ok.mp ht
    cases ht
    exact .inr ⟨hr, card, require_eq_ok.mp hcard, rfl⟩

theorem finishReturn_cases {operationId : Text} {now : Time} {s t : Store} {result : ReturnResult}
    (h : finishReturn operationId now s = .ok (result, t)) :
    ∃ saved, s.returns[operationId]? = some saved ∧
      (saved.phase = .done ∧ saved.result = some result ∧ t = s ∨
       saved.phase ≠ .done ∧ ∃ card item, s.quarantine[saved.quarantineId]? = some card ∧
        s.queue[card.itemId]? = some item ∧
        result = returnResult saved (returnedItem card saved now item) ∧
        t = returnedStore saved card item now s) := by
  obtain ⟨saved, hsaved, ht⟩ := bind_eq_ok.mp h
  refine ⟨saved, require_eq_ok.mp hsaved, ?_⟩
  by_cases hd : saved.phase = .done
  · simp only [hd, if_true] at ht
    cases hr : saved.result with
    | none => simp [hr] at ht
    | some found =>
      simp only [hr] at ht
      cases ht
      exact .inl ⟨hd, rfl, rfl⟩
  · simp only [hd, if_false] at ht
    obtain ⟨card, hcard, ht⟩ := bind_eq_ok.mp ht
    obtain ⟨item, hitem, ht⟩ := bind_eq_ok.mp ht
    cases ht
    exact .inr ⟨hd, card, item, require_eq_ok.mp hcard, require_eq_ok.mp hitem, rfl, rfl⟩

end ReturnTransactions
