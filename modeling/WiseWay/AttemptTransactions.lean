import WiseWay.Services

/-! # Store transactions of the worker

Each definition is the body of one write transaction of `worker.py`; an error rolls it
back. -/
namespace AttemptTransactions

open Records Services

def startedEvent (attempt : Attempt) (now : Time) (target : Option Location) : AuditEvent where
  actor := attempt.actor
  action := .fileAttemptStarted
  requestId := attempt.requestId
  occurredAt := now
  companyId := attempt.companyId
  batchId := attempt.batchId
  attemptId := attempt.attemptId
  itemId := attempt.item.itemId
  source := attempt.item.source
  target := target

/-- `_start_attempt`: the started time, and the events to append. -/
def startAttempt (attempt : Attempt) (now : Time) (target : Option Location) :
    Attempt × List AuditEvent :=
  match attempt.outcome.startedAt with
  | some _ => (attempt, [])
  | none =>
    ({ attempt with outcome := { attempt.outcome with startedAt := some now } },
      [startedEvent attempt now target])

/-- `_recover`, the transaction that puts an attempt without an intent back to work. -/
def requeue (attemptId : Text) (s : Store) : Except Exn Store := do
  let saved ← require s.attempt attemptId
  let outcome := { saved.outcome with
    state := .pending, reasonCode := none, actualLocation := none, finishedAt := none }
  return { s with attempt :=
    s.attempt.insert attemptId { saved with phase := .queued, outcome := outcome } }

/-- `_recover`, the transaction that retries the stored intent. -/
def rearm (attemptId : Text) (s : Store) : Except Exn Store := do
  let saved ← require s.attempt attemptId
  return { s with attempt := s.attempt.insert attemptId { saved with phase := .intent } }

/-- The attempt as `_intent` writes it. -/
def intendedAttempt (attempt : Attempt) (planned : Intent) (now : Time) :
    Attempt × List AuditEvent :=
  startAttempt { attempt with
    phase := .intent
    intent := some planned
    outcome := { attempt.outcome with state := .processing, reasonCode := none } }
    now (some planned.target)

def intent (attemptId : Text) (planned : Intent) (now : Time) (s : Store) : Except Exn Store := do
  let attempt ← require s.attempt attemptId
  if attempt.phase ≠ .queued then return s
  return { s with
    attempt := s.attempt.insert attemptId (intendedAttempt attempt planned now).1
    audit := s.audit ++ (intendedAttempt attempt planned now).2 }

/-- `_quarantine_or_recover`, the transaction that replaces the intent. -/
def quarantineIntent (attemptId : Text) (target : Location) (s : Store) : Except Exn Store := do
  let saved ← require s.attempt attemptId
  return { s with attempt := s.attempt.insert attemptId { saved with
    intent := some ⟨target, .quarantined, some .technicalError⟩ } }

/-- The queue item after its attempt ended; `current` is the file now at the source. -/
def finishedItem (state : OutcomeState) (reason : Option Reason)
    (current : Option Fingerprint) (now : Time) (item : QueueItem) : QueueItem :=
  match state, reason with
  | .requiresDecision, _ =>
    { item with
      status := .requiresDecision, selectable := true, activeAttemptId := none
      reasonCode := reason }
  | .skipped, some .sourceMissing =>
    { item with
      status := .missing, selectable := false, activeAttemptId := none, reasonCode := reason }
  | .skipped, some .sourceChanged =>
    match current with
    | none =>
      { item with
        status := .missing, selectable := false, activeAttemptId := none
        reasonCode := some .sourceMissing }
    | some observed =>
      { item with
        itemRevision := item.itemRevision + 1, status := .waitingReady, selectable := false
        activeAttemptId := none, reasonCode := some .sourceChanged, fingerprint := observed
        sizeBytes := observed.size, modifiedAt := observed.mtimeNs, observedAt := now }
  | _, _ =>
    -- A completed move leaves the incoming queue but keeps its record.
    { item with
      status := .missing, selectable := false, activeAttemptId := none, reasonCode := reason
      departed := true }

def cardId (attemptId : Text) : Text := "quarantine-".toList ++ attemptId

def putQuarantine (attempt : Attempt) (target : Location) (now : Time)
    (cards : Table QuarantineCard) : Table QuarantineCard :=
  match cards[cardId attempt.attemptId]? with
  | some _ => cards
  | none =>
    cards.insert (cardId attempt.attemptId)
      { quarantineId := cardId attempt.attemptId
        revision := 1
        itemId := attempt.item.itemId
        companyId := attempt.companyId
        filename := attempt.item.filename
        location := target
        originalLocation := attempt.item.source
        reasonCode := .technicalError
        quarantinedAt := now
        sourceAttemptId := attempt.attemptId
        recoveryOperationId := none
        canReturn := true
        fingerprint := some attempt.item.fingerprint
        returned := false }

/-- `enqueue_move`: one upsert for a file that reached a root kept in the search engine. -/
def enqueueMove (eventKey itemId : Text) (loc : Location) (fingerprint : Fingerprint)
    (s : Store) : List OutboxRow :=
  if s.storage[loc.rootId]? ≠ some .opensearch then s.outbox
  else if s.outbox.any (·.eventKey = eventKey) then s.outbox
  else s.outbox ++ [⟨eventKey, loc.rootId, itemId, loc.relativePath, fingerprint.size,
    fingerprint.mtimeNs⟩]

def finishedEvent (attemptId : Text) (attempt : Attempt) (state : OutcomeState)
    (reason : Option Reason) (actual : Option Location) (now : Time) : AuditEvent where
  actor := attempt.actor
  action := .fileAttemptFinished
  requestId := attempt.requestId
  occurredAt := now
  result := if state = .sorted then .success else .issue
  companyId := attempt.companyId
  batchId := attempt.batchId
  attemptId := attemptId
  itemId := attempt.item.itemId
  source := attempt.item.source
  target := actual
  reasonCode := reason

/-- The attempt as `_finish` writes it. -/
def finishedAttempt (attempt : Attempt) (state : OutcomeState) (reason : Option Reason)
    (actual : Option Location) (now : Time) : Attempt :=
  let started := (startAttempt attempt now attempt.intentTarget).1
  { started with
    phase := .done
    outcome := { started.outcome with
      state := state, reasonCode := reason, actualLocation := actual, finishedAt := some now } }

/-- Everything `_finish` writes for an attempt that is not done. -/
def finishedStore (attemptId : Text) (attempt : Attempt) (item : QueueItem)
    (current : Option Fingerprint) (state : OutcomeState) (reason : Option Reason)
    (actual : Option Location) (now : Time) (s : Store) : Store :=
  { s with
    attempt := s.attempt.insert attemptId (finishedAttempt attempt state reason actual now)
    queue := s.queue.insert item.itemId (finishedItem state reason current now item)
    claim := s.claim.erase item.itemId
    quarantine :=
      match state, actual with
      | .quarantined, some target => putQuarantine attempt target now s.quarantine
      | _, _ => s.quarantine
    outbox :=
      match state, actual with
      | .sorted, some target => enqueueMove attemptId item.itemId target attempt.item.fingerprint s
      | _, _ => s.outbox
    audit := s.audit ++ (startAttempt attempt now attempt.intentTarget).2 ++
      [finishedEvent attemptId attempt state reason actual now] }

/-- The file now at the source, observed once more only when the source had changed. -/
def currentSource (layout : Layout) (tree : FileTree) (attempt : Attempt) (state : OutcomeState)
    (reason : Option Reason) : Except Exn (Option Fingerprint) := do
  if state = .skipped ∧ reason = some .sourceChanged then
    stat tree (← physical layout attempt.item.source)
  else return none

def finish (layout : Layout) (tree : FileTree) (attemptId : Text) (state : OutcomeState)
    (reason : Option Reason) (actual : Option Location) (now : Time) (s : Store) :
    Except Exn Store := do
  let attempt ← require s.attempt attemptId
  if attempt.phase = .done then return s
  let item ← require s.queue attempt.item.itemId
  let current ← currentSource layout tree attempt state reason
  return finishedStore attemptId attempt item current state reason actual now s

def recoveryEvent (attemptId : Text) (attempt : Attempt) (now : Time) : AuditEvent where
  actor := attempt.actor
  action := .recoveryRequired
  requestId := attempt.requestId
  occurredAt := now
  result := .issue
  operationId := attemptId
  sourceAttemptId := attemptId
  companyId := attempt.companyId
  batchId := attempt.batchId
  attemptId := attemptId
  itemId := attempt.item.itemId
  source := attempt.item.source
  target := attempt.intentTarget
  reasonCode := some .recoveryRequired

/-- The attempt as `_recovery_required` writes it. -/
def lockedAttempt (attempt : Attempt) (actual : Option Location) (now : Time) : Attempt :=
  let started := (startAttempt attempt now attempt.intentTarget).1
  { started with
    phase := .recoveryRequired
    outcome := { started.outcome with
      state := .recoveryRequired, reasonCode := some .recoveryRequired
      actualLocation := actual, finishedAt := none } }

/-- Everything `_recovery_required` writes when it locks an attempt. -/
def lockedStore (attemptId : Text) (attempt : Attempt) (item : QueueItem)
    (actual : Option Location) (now : Time) (s : Store) : Store :=
  { s with
    attempt := s.attempt.insert attemptId (lockedAttempt attempt actual now)
    queue := s.queue.insert item.itemId { item with
      status := .recoveryRequired, selectable := false, reasonCode := some .recoveryRequired }
    audit := s.audit ++ (startAttempt attempt now attempt.intentTarget).2 ++
      [recoveryEvent attemptId attempt now] }

def recoveryRequired (attemptId : Text) (actual : Option Location) (now : Time) (s : Store) :
    Except Exn (Bool × Store) := do
  let attempt ← require s.attempt attemptId
  if attempt.phase = .done then return (false, s)
  if attempt.phase = .recoveryRequired then return (true, s)
  let item ← require s.queue attempt.item.itemId
  return (true, lockedStore attemptId attempt item actual now s)

def manualTarget (layout : Layout) (attempt : Attempt) : Except Exn Location := do
  let company ← requireCompany layout attempt.companyId
  location layout manualRoot (company.folder ++ '/' :: attempt.item.filename)

def quarantineTarget (layout : Layout) (attempt : Attempt) : Except Exn Location := do
  let company ← requireCompany layout attempt.companyId
  location layout quarantineRoot
    (company.folder ++ '/' :: (attempt.attemptId ++ '_' :: attempt.item.filename))

/-! What each transaction can do, for the proofs that follow. -/

@[simp] theorem startAttempt_attempt (attempt : Attempt) (now : Time) (target : Option Location) :
    (startAttempt attempt now target).1.attemptId = attempt.attemptId ∧
    (startAttempt attempt now target).1.item = attempt.item ∧
    (startAttempt attempt now target).1.phase = attempt.phase ∧
    (startAttempt attempt now target).1.intent = attempt.intent := by
  unfold startAttempt
  split <;> simp

theorem startAttempt_started (attempt : Attempt) (now : Time) (target : Option Location) :
    (startAttempt attempt now target).1.outcome.startedAt ≠ none := by
  unfold startAttempt
  split <;> simp_all

theorem requeue_cases {attemptId : Text} {s t : Store} (h : requeue attemptId s = .ok t) :
    ∃ saved, s.attempt[attemptId]? = some saved ∧
      t = { s with attempt := s.attempt.insert attemptId { saved with
        phase := .queued
        outcome := { saved.outcome with
          state := .pending, reasonCode := none, actualLocation := none
          finishedAt := none } } } := by
  obtain ⟨saved, hsaved, ht⟩ := bind_eq_ok.mp h
  cases ht
  exact ⟨saved, require_eq_ok.mp hsaved, rfl⟩

theorem rearm_cases {attemptId : Text} {s t : Store} (h : rearm attemptId s = .ok t) :
    ∃ saved, s.attempt[attemptId]? = some saved ∧
      t = { s with attempt := s.attempt.insert attemptId { saved with phase := .intent } } := by
  obtain ⟨saved, hsaved, ht⟩ := bind_eq_ok.mp h
  cases ht
  exact ⟨saved, require_eq_ok.mp hsaved, rfl⟩

theorem intent_cases {attemptId : Text} {planned : Intent} {now : Time} {s t : Store}
    (h : intent attemptId planned now s = .ok t) :
    ∃ attempt, s.attempt[attemptId]? = some attempt ∧
      (attempt.phase ≠ .queued ∧ t = s ∨
       attempt.phase = .queued ∧ t = { s with
        attempt := s.attempt.insert attemptId (intendedAttempt attempt planned now).1
        audit := s.audit ++ (intendedAttempt attempt planned now).2 }) := by
  obtain ⟨attempt, hattempt, ht⟩ := bind_eq_ok.mp h
  refine ⟨attempt, require_eq_ok.mp hattempt, ?_⟩
  by_cases hq : attempt.phase = .queued
  · simp only [hq, ne_eq, not_true_eq_false, if_false] at ht
    cases ht
    exact .inr ⟨hq, rfl⟩
  · simp only [hq, ne_eq, not_false_eq_true, if_true] at ht
    cases ht
    exact .inl ⟨hq, rfl⟩

theorem quarantineIntent_cases {attemptId : Text} {target : Location} {s t : Store}
    (h : quarantineIntent attemptId target s = .ok t) :
    ∃ saved, s.attempt[attemptId]? = some saved ∧
      t = { s with attempt := s.attempt.insert attemptId { saved with
        intent := some ⟨target, .quarantined, some .technicalError⟩ } } := by
  obtain ⟨saved, hsaved, ht⟩ := bind_eq_ok.mp h
  cases ht
  exact ⟨saved, require_eq_ok.mp hsaved, rfl⟩

theorem finish_cases {layout : Layout} {tree : FileTree} {attemptId : Text}
    {state : OutcomeState} {reason : Option Reason} {actual : Option Location} {now : Time}
    {s t : Store} (h : finish layout tree attemptId state reason actual now s = .ok t) :
    ∃ attempt, s.attempt[attemptId]? = some attempt ∧
      (attempt.phase = .done ∧ t = s ∨
       attempt.phase ≠ .done ∧ ∃ item current,
        s.queue[attempt.item.itemId]? = some item ∧
        t = finishedStore attemptId attempt item current state reason actual now s) := by
  obtain ⟨attempt, hattempt, ht⟩ := bind_eq_ok.mp h
  refine ⟨attempt, require_eq_ok.mp hattempt, ?_⟩
  by_cases hd : attempt.phase = .done
  · simp only [hd, if_true] at ht
    cases ht
    exact .inl ⟨hd, rfl⟩
  · simp only [hd, if_false] at ht
    obtain ⟨item, hitem, ht⟩ := bind_eq_ok.mp ht
    obtain ⟨current, _, ht⟩ := bind_eq_ok.mp ht
    cases ht
    exact .inr ⟨hd, item, current, require_eq_ok.mp hitem, rfl⟩

theorem recoveryRequired_cases {attemptId : Text} {actual : Option Location} {now : Time}
    {s t : Store} {b : Bool} (h : recoveryRequired attemptId actual now s = .ok (b, t)) :
    ∃ attempt, s.attempt[attemptId]? = some attempt ∧
      ((attempt.phase = .done ∨ attempt.phase = .recoveryRequired) ∧ t = s ∨
       attempt.phase ≠ .done ∧ attempt.phase ≠ .recoveryRequired ∧ ∃ item,
        s.queue[attempt.item.itemId]? = some item ∧
        t = lockedStore attemptId attempt item actual now s) := by
  obtain ⟨attempt, hattempt, ht⟩ := bind_eq_ok.mp h
  refine ⟨attempt, require_eq_ok.mp hattempt, ?_⟩
  by_cases hd : attempt.phase = .done
  · simp only [hd, if_true] at ht
    cases ht
    exact .inl ⟨.inl hd, rfl⟩
  by_cases hr : attempt.phase = .recoveryRequired
  · simp only [hr, if_true] at ht
    cases ht
    exact .inl ⟨.inr hr, rfl⟩
  · simp only [hd, hr, if_false] at ht
    obtain ⟨item, hitem, ht⟩ := bind_eq_ok.mp ht
    cases ht
    exact .inr ⟨hd, hr, item, require_eq_ok.mp hitem, rfl⟩

end AttemptTransactions
