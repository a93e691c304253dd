import WiseWay.Calls

/-! # Explicit quarantine return

The methods of `quarantine.py` as programs: a durable intent and no automatic second
move. -/
namespace Quarantine

open Records Services AtomicProgram Calls

/-- The placement of the file as two reads show it. -/
def placement (operation : ReturnOperation) :
    Program (Option Fingerprint × Option Fingerprint) := do
  let source ← stat (.returnOp operation.operationId) (← physical operation.source)
  let target ← stat (.returnOp operation.operationId) (← physical operation.target)
  return (source, target)

def resolvePending (operation : ReturnOperation) : Program ReturnResult := do
  let observed ← (placement operation).attempt
  -- An unreadable postcondition is an unknown placement.
  if observed.toOption = some (none, some operation.fingerprint) then
    call (.finishReturn operation.operationId)
  else do
    call (.lockReturn operation.operationId)
    .throw (.api .recoveryRequired (some operation.operationId))

/-- Never moves a file: it only decides what the stored operation has come to. -/
def resolve (operation : ReturnOperation) : Program ReturnResult :=
  match operation.phase with
  | .done =>
    match operation.result with
    | some result => .pure result
    | none => .throw .failure
  | .rejected =>
    match operation.error with
    | some code => .throw (apiError code)
    | none => .throw .failure
  | .intent => resolvePending operation
  | .recoveryRequired => resolvePending operation

/-- An occupied original path gives the card back; else the observed placement decides, as a
failed flush may follow a rename that succeeded. -/
def conclude (operation : ReturnOperation) : Except Exn Unit → Program ReturnResult
  | .error .targetExists => do
    call (.rejectReturn operation)
    .throw (apiError .originalPathOccupied)
  | _ => resolve operation

def returnItem (request : ReturnTransactions.ReturnRequest) : Program ReturnResult := do
  let (operation, replayed) ← call (.beginReturn request)
  if replayed then resolve operation
  else do
    let renamed ← Prog.attempt do
      let source ← physical operation.source
      let target ← physical operation.target
      renameNoReplace (.returnOp operation.operationId) source target operation.fingerprint
    conclude operation renamed

/-- One turn of the loop of `reconcile`: an API error leaves the operation as it is. -/
def reconcileTurn (_ : Unit) (operation : ReturnOperation) : Program Unit := do
  match ← (resolve operation).attempt with
  | .ok _ => return ()
  | .error (.api _ _) => return ()
  | .error e => .throw e

def reconcile : Program Unit := do
  let operations ← call .pendingReturns
  operations.foldlM reconcileTurn ()

end Quarantine
