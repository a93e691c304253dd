import WiseWay.Calls

/-! # Durable executor for accepted sorting attempts

The methods of `worker.py` as programs over the calls of the lock holder. -/
namespace Worker

open Records Services AtomicProgram Calls

def finish (attemptId : Text) (state : OutcomeState) (reason : Option Reason)
    (actual : Option Location) : Program Bool := do
  call (.finish attemptId state reason actual)
  return true

def recoveryRequired (attemptId : Text) (actual : Option Location) : Program Bool :=
  call (.recoveryRequired attemptId actual)

def quarantineOrRecover (attemptId : Text) : Program Bool := do
  let attempt ← call (.requireAttempt attemptId)
  let fingerprint := attempt.item.fingerprint
  let observed ← stat (.attempt attemptId) (← physical attempt.item.source)
  if observed ≠ some fingerprint then
    recoveryRequired attemptId none
  else do
    let target ← call (.quarantineTarget attempt)
    if ← occupies target then
      -- No rename was tried and the source has just been seen.
      recoveryRequired attemptId (some attempt.item.source)
    else do
      call (.quarantineIntent attemptId target)
      let renamed ← Prog.attempt do
        let source ← physical attempt.item.source
        renameNoReplace (.attempt attemptId) source (← physical target) fingerprint
      match renamed with
      | .error _ => recoveryRequired attemptId none
      | .ok () => do
        let moved ← stat (.attempt attemptId) (← physical target)
        if moved ≠ some fingerprint then recoveryRequired attemptId none
        else finish attemptId .quarantined (some .technicalError) (some target)

/-- What `_execute_intent` does once the rename of the stored intent has returned. -/
def afterRename (attemptId : Text) (target : Text) (expected : Fingerprint) : Program Bool := do
  if (← stat (.attempt attemptId) target) ≠ some expected then
    recoveryRequired attemptId none
  else do
    let fresh ← call (.requireAttempt attemptId)
    match fresh.intent with
    | none => .throw .failure
    | some planned =>
      finish attemptId planned.state.outcome planned.reason (some planned.target)

def occupiedReason (planned : Intent) : Reason :=
  if planned.state = .manualReview then .manualReviewNameOccupied else .targetOccupied

def executeIntent (attemptId : Text) : Program Bool := do
  let attempt ← call (.requireAttempt attemptId)
  match attempt.phase, attempt.intent with
  | .intent, some planned => do
    let source ← physical attempt.item.source
    let target ← physical planned.target
    let expected := attempt.item.fingerprint
    match ← (renameNoReplace (.attempt attemptId) source target expected).attempt with
    | .error .targetExists =>
      finish attemptId .requiresDecision (some (occupiedReason planned)) (some attempt.item.source)
    | .error .postRenameChanged => recoveryRequired attemptId none
    | .error .sourceChanged => do
      match ← stat (.attempt attemptId) source with
      | none => finish attemptId .skipped (some .sourceMissing) none
      | some _ => finish attemptId .skipped (some .sourceChanged) (some attempt.item.source)
    | .error _ => quarantineOrRecover attemptId
    | .ok () => afterRename attemptId target expected
  | .intent, none => .throw .failure
  | _, _ => return false

def recoverIntent (attempt : Attempt) (planned : Intent) (allowQuarantineRetry : Bool)
    (attemptId : Text) : Program Bool := do
  let fingerprint := attempt.item.fingerprint
  let source ← physical attempt.item.source
  let target ← physical planned.target
  let sourcePresent := (← stat (.attempt attemptId) source) = some fingerprint
  let targetPresent := (← stat (.attempt attemptId) target) = some fingerprint
  let targetOccupied ← call (.exists_ target)
  if ¬sourcePresent ∧ targetPresent then
    finish attemptId planned.state.outcome planned.reason (some planned.target)
  else if sourcePresent ∧ targetOccupied = false ∧
      (planned.state ≠ .quarantined ∨ allowQuarantineRetry) then do
    -- The stored intent is retried as it is, never a newly calculated plan.
    call (.rearm attemptId)
    executeIntent attemptId
  else
    recoveryRequired attemptId (if sourcePresent then some attempt.item.source else none)

/-- `retry` is the `_run` that follows when no intent had been stored. -/
def recover (retry : Program Bool) (allowQuarantineRetry : Bool) (attemptId : Text) :
    Program Bool := do
  match ← call (.getAttempt attemptId) with
  | none => return false
  | some attempt =>
    if attempt.phase ≠ .intent ∧ attempt.phase ≠ .recoveryRequired then return false
    else
      match attempt.intent with
      | some planned => recoverIntent attempt planned allowQuarantineRetry attemptId
      | none =>
        if attempt.phase = .recoveryRequired then do
          let observed ← Prog.attempt do
            stat (.attempt attemptId) (← physical attempt.item.source)
          if observed.toOption = some (some attempt.item.fingerprint) then do
            call (.requeue attemptId)
            retry
          else recoveryRequired attemptId none
        else recoveryRequired attemptId none

def runQueued (attempt : Attempt) (attemptId : Text) : Program Bool := do
  let source ← physical attempt.item.source
  match ← (stat (.attempt attemptId) source).attempt with
  | .error _ => recoveryRequired attemptId none
  | .ok none => finish attemptId .skipped (some .sourceMissing) none
  | .ok (some observed) =>
    if observed ≠ attempt.item.fingerprint then
      finish attemptId .skipped (some .sourceChanged) (some attempt.item.source)
    else
      match attempt.plan.predictedState, attempt.plan.target with
      | .requiresDecision, _ =>
        finish attemptId .requiresDecision attempt.plan.reasonCode (some attempt.item.source)
      | .willMove, some target => do
        call (.intent attemptId ⟨target, .sorted, none⟩)
        executeIntent attemptId
      -- The planner gives every such row a target.
      | .willMove, none => .throw .failure
      | .willManualReview, _ => do
        let target ← call (.manualTarget attempt)
        if ← occupies target then
          finish attemptId .requiresDecision (some .manualReviewNameOccupied)
            (some attempt.item.source)
        else do
          call (.intent attemptId ⟨target, .manualReview, attempt.plan.reasonCode⟩)
          executeIntent attemptId
      | .notReady, _ =>
        finish attemptId .skipped (some .sourceChanged) (some attempt.item.source)

/-- `_run` and `_recover` call each other; `depth` is what the call stack leaves for it. -/
def run : ℕ → Text → Program Bool
  | 0, _ => .throw .failure
  | depth + 1, attemptId => do
    match ← call (.getAttempt attemptId) with
    | none => return false
    | some attempt =>
      match attempt.phase with
      | .done => return false
      | .intent => recover (run depth attemptId) false attemptId
      | .recoveryRequired => recover (run depth attemptId) false attemptId
      | .queued => runQueued attempt attemptId

def recursionLimit : ℕ := 1000

/-- One turn of the loop of `run_once`: a broken adapter must not strand the others. -/
def runTurn (processed : ℕ) (attemptId : Text) : Program ℕ := do
  match ← (run recursionLimit attemptId).attempt with
  | .ok ran => return if ran then processed + 1 else processed
  | .error _ => do
    let _ ← recoveryRequired attemptId none
    return processed + 1

def runOnce : Program ℕ := do
  let attempts ← call .pendingAttempts
  attempts.foldlM runTurn 0

/-- The operator's `recover`. -/
def recoverCommand (attemptId : Text) : Program Bool := do
  let _ ← recover (run recursionLimit attemptId) true attemptId
  match ← call (.getAttempt attemptId) with
  | none => return false
  | some attempt => return attempt.phase = .done

end Worker
