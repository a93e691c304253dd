import WiseWay.AtomicProgram
import WiseWay.AttemptTransactions
import WiseWay.ReturnTransactions

/-! # Calls of the lock holder

One constructor for each store transaction and each filesystem call that `worker.py` and
`quarantine.py` make while they hold `worker.lock`. Any of them may fail, and then
nothing has changed. A ghost log keeps what the filesystem showed and what was moved. -/
namespace Calls

open Records Services AtomicProgram

/-- On whose behalf the filesystem is called. -/
inductive Owner where
  | attempt (id : Text)
  | returnOp (id : Text)
  deriving DecidableEq, Repr

inductive Trace where
  | seen (owner : Owner) (path : Text) (tree : FileTree)
  | checked (owner : Owner)
  | issued (owner : Owner) (source target : Text)
  | moved (owner : Owner) (source target : Text) (entry : Entry)
  | retried (attemptId : Text)
  | began (operationId : Text) (card : QuarantineCard)

/-- The log is a ghost and grows at its head. -/
structure World where
  store : Store
  tree : FileTree
  log : List Trace

inductive Op where
  | pendingAttempts
  | getAttempt (attemptId : Text)
  | requireAttempt (attemptId : Text)
  | physical (loc : Location)
  | manualTarget (attempt : Attempt)
  | quarantineTarget (attempt : Attempt)
  | requeue (attemptId : Text)
  | rearm (attemptId : Text)
  | intent (attemptId : Text) (planned : Intent)
  | quarantineIntent (attemptId : Text) (target : Location)
  | finish (attemptId : Text) (state : OutcomeState) (reason : Option Reason)
      (actual : Option Location)
  | recoveryRequired (attemptId : Text) (actual : Option Location)
  | stat (owner : Owner) (path : Text)
  | exists_ (path : Text)
  | probe
  | openParent (path : Text)
  | verifySource (owner : Owner) (path : Text) (expected : Fingerprint)
  | renameExclusive (owner : Owner) (source target : Text)
  | verifyTarget (path : Text) (expected : Fingerprint)
  | fsync (path : Text)
  | beginReturn (request : ReturnTransactions.ReturnRequest)
  | rejectReturn (operation : ReturnOperation)
  | lockReturn (operationId : Text)
  | finishReturn (operationId : Text)
  | pendingReturns

@[reducible] def Val : Op → Type
  | .pendingAttempts => List Text
  | .getAttempt _ => Option Attempt
  | .requireAttempt _ => Attempt
  | .physical _ => Text
  | .manualTarget _ => Location
  | .quarantineTarget _ => Location
  | .recoveryRequired _ _ => Bool
  | .stat _ _ => Option Fingerprint
  | .exists_ _ => Bool
  | .beginReturn _ => ReturnOperation × Bool
  | .finishReturn _ => ReturnResult
  | .pendingReturns => List ReturnOperation
  | _ => Unit

/-- What the environment adds to a call: whether it fails, the clock and a drawn identifier. -/
structure Choice where
  fault : Bool
  now : Time
  fresh : Text
  deriving DecidableEq, Repr

/-- An issued rename is noted before anything is known of its outcome. -/
def noted (w : World) : Op → World
  | .renameExclusive owner source target =>
    { w with log := .issued owner source target :: w.log }
  | _ => w

def pendingPhase (phase : Phase) : Bool :=
  phase = .queued ∨ phase = .intent ∨ phase = .recoveryRequired

def pendingReturn (phase : ReturnPhase) : Bool := phase = .intent ∨ phase = .recoveryRequired

def commit (w : World) (r : Except Exn Store) : Except Exn (Unit × World) := do
  return ((), { w with store := ← r })

/-- `_open_directory` on the components before the last one. -/
def parentOpens (tree : FileTree) (components : List Text) : Bool :=
  components.dropLast = [] ∨ isDirectory tree (['/'].intercalate components.dropLast)

/-- The two identity checks of `rename_no_replace`. -/
def verifiedSource (tree : FileTree) (path : Text) (expected : Fingerprint) : Except Exn Unit :=
  match tree path with
  | none => .error .sourceChanged
  | some (.file observed) => if observed = expected then .ok () else .error .sourceChanged
  | some _ => .error .failure

/-- `renameat2` with `RENAME_NOREPLACE`. -/
def moveEntry (tree : FileTree) (source target : Text) : Except Exn (Entry × FileTree) :=
  match tree source, tree target with
  | none, _ => .error .sourceChanged
  | some _, some _ => .error .targetExists
  | some entry, none =>
    .ok (entry, Function.update (Function.update tree source none) target (some entry))

def retryLog (attemptId : Text) (w : World) : List Trace :=
  if (w.store.attempt[attemptId]?).map (·.phase) = some .recoveryRequired then
    .retried attemptId :: w.log
  else w.log

def beginLog (operationId : Text) (request : ReturnTransactions.ReturnRequest) (replayed : Bool)
    (w : World) : List Trace :=
  match replayed, w.store.quarantine[request.quarantineId]? with
  | false, some card => .began operationId card :: w.log
  | _, _ => w.log

/-- What a call answers when it does not fail by itself. -/
def answer (layout : Layout) (x : Choice) (w : World) : (o : Op) → Except Exn (Val o × World)
  | .pendingAttempts =>
    .ok (((list w.store.attempt).filter (pendingPhase ·.phase)).map (·.attemptId), w)
  | .getAttempt attemptId => .ok (w.store.attempt[attemptId]?, w)
  | .requireAttempt attemptId => do return (← require w.store.attempt attemptId, w)
  | .physical loc => do return (← Services.physical layout loc, w)
  | .manualTarget attempt => do return (← AttemptTransactions.manualTarget layout attempt, w)
  | .quarantineTarget attempt => do
    return (← AttemptTransactions.quarantineTarget layout attempt, w)
  | .requeue attemptId => do
    let ((), u) ← commit w (AttemptTransactions.requeue attemptId w.store)
    return ((), { u with log := retryLog attemptId w })
  | .rearm attemptId => do
    let ((), u) ← commit w (AttemptTransactions.rearm attemptId w.store)
    return ((), { u with log := retryLog attemptId w })
  | .intent attemptId planned =>
    commit w (AttemptTransactions.intent attemptId planned x.now w.store)
  | .quarantineIntent attemptId target =>
    commit w (AttemptTransactions.quarantineIntent attemptId target w.store)
  | .finish attemptId state reason actual =>
    commit w (AttemptTransactions.finish layout w.tree attemptId state reason actual x.now w.store)
  | .recoveryRequired attemptId actual => do
    let (b, s) ← AttemptTransactions.recoveryRequired attemptId actual x.now w.store
    return (b, { w with store := s })
  | .stat owner path => do
    let observed ← Services.stat w.tree path
    return (observed, { w with log := .seen owner path w.tree :: w.log })
  | .exists_ path => do return (← occupied w.tree path, w)
  | .probe => .ok ((), w)
  | .openParent path => do
    if parentOpens w.tree (← parts path) then return ((), w) else .error .failure
  | .verifySource owner path expected => do
    verifiedSource w.tree path expected
    return ((), { w with log := .checked owner :: w.log })
  | .renameExclusive owner source target => do
    let (entry, tree) ← moveEntry w.tree source target
    return ((), { w with tree := tree, log := .moved owner source target entry :: w.log })
  | .verifyTarget path expected =>
    if w.tree path = some (.file expected) then .ok ((), w) else .error .postRenameChanged
  | .fsync _ => .ok ((), w)
  | .beginReturn request => do
    let ((operation, replayed), s) ←
      ReturnTransactions.beginReturn layout w.tree x.fresh request w.store
    return ((operation, replayed),
      { w with store := s, log := beginLog x.fresh request replayed w })
  | .rejectReturn operation => commit w (ReturnTransactions.rejectReturn operation w.store)
  | .lockReturn operationId =>
    commit w (ReturnTransactions.lockReturn operationId x.now w.store)
  | .finishReturn operationId => do
    let (result, s) ← ReturnTransactions.finishReturn operationId x.now w.store
    return (result, { w with store := s })
  | .pendingReturns => .ok ((list w.store.returns).filter (pendingReturn ·.phase), w)

def settled {α : Type} (w : World) : Except Exn (α × World) → Except Exn α × World
  | .ok (v, u) => (.ok v, u)
  | .error e => (.error e, w)

def exec (layout : Layout) (o : Op) (x : Choice) (w : World) : Except Exn (Val o) × World :=
  if x.fault then (.error .failure, noted w o)
  else settled (noted w o) (answer layout x (noted w o) o)

/-- How a call can fail: by itself, or by what it finds. -/
def fails (layout : Layout) (o : Op) (w : World) (e : Exn) : Prop :=
  e = .failure ∨ ∃ x, answer layout x (noted w o) o = .error e

theorem exec_cases (layout : Layout) (o : Op) (x : Choice) (w : World) :
    (∃ e, fails layout o w e ∧ exec layout o x w = (.error e, noted w o)) ∨
    (∃ v u, answer layout x (noted w o) o = .ok (v, u) ∧ exec layout o x w = (.ok v, u)) := by
  unfold exec
  cases x.fault with
  | true => exact .inl ⟨.failure, .inl rfl, rfl⟩
  | false =>
    cases ha : answer layout x (noted w o) o with
    | error e => exact .inl ⟨e, .inr ⟨x, ha⟩, by simp [settled]⟩
    | ok r => exact .inr ⟨r.1, r.2, rfl, by simp [settled]⟩

/-- Code that runs under `worker.lock`. -/
abbrev Program := Prog Op Val Exn

abbrev call (o : Op) : Program (Val o) := perform o

def physical (loc : Location) : Program Text := call (.physical loc)

def stat (owner : Owner) (path : Text) : Program (Option Fingerprint) :=
  call (.stat owner path)

/-- `_exists` of the worker. -/
def occupies (loc : Location) : Program Bool := do
  call (.exists_ (← physical loc))

/-- `SafeFilesystem.rename_no_replace`. -/
def renameNoReplace (owner : Owner) (source target : Text) (expected : Fingerprint) :
    Program Unit := do
  call .probe
  call (.openParent source)
  call (.openParent target)
  call (.verifySource owner source expected)
  -- The last check before the native call.
  call (.verifySource owner source expected)
  call (.renameExclusive owner source target)
  call (.verifyTarget target expected)
  call (.fsync target)
  call (.fsync target)
  call (.fsync source)

end Calls
