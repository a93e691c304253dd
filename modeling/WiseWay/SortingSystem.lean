import WiseWay.Intake
import WiseWay.Quarantine
import WiseWay.Worker

/-! # The sorting service as a system

The worker and the quarantine service take turns at `worker.lock`. Users, the incoming
scanner and everyone with access to the files act between any two of their calls. -/
namespace SortingSystem

open Records Services AtomicProgram Calls

inductive Cmd where
  | runOnce
  | recover (attemptId : Text)
  | returnItem (request : ReturnTransactions.ReturnRequest)
  | reconcile
  deriving DecidableEq, Repr

inductive Reply where
  | processed (n : ℕ)
  | recovered (done : Bool)
  | returned (result : ReturnResult)
  | reconciled
  deriving DecidableEq, Repr

def body : Cmd → Program Reply
  | .runOnce => do return .processed (← Worker.runOnce)
  | .recover attemptId => do return .recovered (← Worker.recoverCommand attemptId)
  | .returnItem request => do return .returned (← Quarantine.returnItem request)
  | .reconcile => do
    Quarantine.reconcile
    return .reconciled

/-- One transaction of a party without the lock, or any change of the files. -/
inductive Env where
  | files (tree : FileTree)
  | storage (rootId : Text) (mode : IndexStorage)
  | dictionaries (dictionary : Table Dictionary) (version : Table DictionaryVersion)
      (events : List AuditEvent)
  | select (selectionId actor : Text) (now : Time) (request : Intake.SelectionRequest)
  | preview (previewId actor selectionId : Text) (now : Time)
  | accept (drawn : Intake.Draws) (now : Time) (actor requestId : Text)
      (request : Intake.BatchRequest)
  | scan (rootId : Text) (now : Time) (found : List Intake.Found)

def dictionaryEvent (event : AuditEvent) : Bool :=
  event.attemptId = none ∧ event.action ∈ [AuditAction.dictionaryCreated, .draftSaved,
    .dictionaryRestored, .dictionarySimulated, .dictionaryPublished]

/-- What the sorting service is configured with. -/
structure Service where
  layout : Layout
  casefold : Text → Text
  settings : Settings

/-- A transaction that fails leaves the store as it was: it is no step. -/
def stored (w : World) : Except Exn Store → Option World
  | .ok s => some { w with store := s }
  | .error _ => none

def other (v : Service) : Env → World → Option World
  | .files tree, w => some { w with tree := tree }
  | .storage rootId mode, w =>
    some { w with store := { w.store with storage := w.store.storage.insert rootId mode } }
  | .dictionaries dictionary version events, w =>
    if events.all dictionaryEvent then
      some { w with store := { w.store with
        dictionary := dictionary, dictionaryVersion := version
        audit := w.store.audit ++ events } }
    else none
  | .select selectionId actor now request, w =>
    if (w.store.selection[selectionId]?).isSome then none
    else stored w
      (Intake.selection v.layout v.casefold v.settings selectionId actor now request w.store)
  | .preview previewId actor selectionId now, w =>
    if (w.store.preview[previewId]?).isSome then none
    else stored w (Intake.preview v.layout v.casefold v.settings w.tree previewId actor selectionId
      now w.store)
  | .accept drawn now actor requestId request, w =>
    stored w (Intake.accept v.layout v.casefold w.tree drawn now actor requestId request w.store)
  | .scan rootId now found, w =>
    if Intake.foundFresh found w.store then
      (Intake.scan v.casefold v.settings v.layout rootId now found w.store).map
        fun s => { w with store := s }
    else none

def system (v : Service) : System World Cmd Env Choice Op Val Exn Reply where
  body := body
  exec := exec v.layout
  other := other v

/-- Nothing has been sorted yet; the files, the rules and the index modes are arbitrary. -/
structure Start (w : World) : Prop where
  queue : w.store.queue = ∅
  claim : w.store.claim = ∅
  attempt : w.store.attempt = ∅
  batch : w.store.batch = ∅
  selection : w.store.selection = ∅
  preview : w.store.preview = ∅
  quarantine : w.store.quarantine = ∅
  returns : w.store.returns = ∅
  returnKey : w.store.returnKey = ∅
  audit : w.store.audit = []
  outbox : w.store.outbox = []
  log : w.log = []

/-- The limits of a run whose every step is of a kind. -/
def within (v : Service) (P : World → World → Prop) : Limits World Env Choice Op where
  call o x w := P w (exec v.layout o x w).2
  other e w := ∀ t, other v e w = some t → P w t

/-! A service with one company, for concrete runs: its incoming files wait in `in`, its only
target directory is `ar/x`. -/

def smallRoot (label base : String) (company : Option Text) : Root where
  label := label.toList
  displayPrefix := "D:/".toList ++ base.toList
  base := base.toList
  searchable := company.isNone
  incomingCompany := company

def smallCompany : Company where
  folder := ['C']
  targets := [⟨"archive".toList, ['x']⟩]
  folder_nonempty := by decide
  folder_component := by decide

def smallLayout : Layout where
  root id :=
    if id = "in".toList then some (smallRoot "In" "in" (some "co".toList))
    else if id = "archive".toList then some (smallRoot "Archive" "ar" none)
    else if id = manualRoot then some (smallRoot "Manual" "mr" none)
    else if id = quarantineRoot then some (smallRoot "Quarantine" "qr" none)
    else none
  company id := if id = "co".toList then some smallCompany else none

def small : Service where
  layout := smallLayout
  casefold := id
  settings := ⟨1000, 10, 10⟩

/-- One rule: every file goes to `ar/x` and keeps its extension. -/
def smallRule : RuleBody where
  ruleId := ['r']
  matchField := .basename
  mask := ['*']
  priority := 1
  target := ⟨"archive".toList, ['x']⟩
  targetStem := ['s']

def smallVersion : DictionaryVersion where
  versionId := ['v']
  dictionaryId := ['d']
  versionNumber := 1
  name := ['n']
  description := []
  rules := [smallRule]
  publishedAt := 0
  publishedBy := ['u']
  comment := []
  restoredFromVersionId := none

def smallDictionary : Dictionary where
  dictionaryId := ['d']
  companyId := "co".toList
  name := ['n']
  description := []
  draft := ⟨1, [smallRule], some ['v']⟩
  activeVersionId := some ['v']
  versionsCount := 1
  updatedAt := 0
  updatedBy := ['u']

/-- The directories of the small service and the given files. -/
def smallTree (files : List (String × Fingerprint)) : FileTree := fun path =>
  match files.find? (fun f => f.1.toList = path) with
  | some f => some (.file f.2)
  | none =>
    if path ∈ (["in", "ar", "ar/x", "mr", "mr/C", "qr", "qr/C"].map String.toList) then
      some .directory
    else none

def smallWorld (ruled : Bool) (files : List (String × Fingerprint)) : World where
  store := { Store.empty with
    storage := (∅ : Table IndexStorage).insert "archive".toList .opensearch
    dictionary := if ruled then (∅ : Table Dictionary).insert ['d'] smallDictionary else ∅
    dictionaryVersion :=
      if ruled then (∅ : Table DictionaryVersion).insert ['v'] smallVersion else ∅ }
  tree := smallTree files
  log := []

theorem smallWorld_start (ruled : Bool) (files : List (String × Fingerprint)) :
    Start (smallWorld ruled files) := by
  constructor <;> rfl

/-- Draws the attempts `t0`, `t1`, … of the batch `b`. -/
def smallDraws (batch attempt : Text) : Intake.Draws where
  batch := batch
  attempt i := attempt ++ Nat.toDigits 10 i

def acceptEvents (selectionId batch attempt : Text) (now : Time)
    (items : List (Text × ℕ)) : List (Event Cmd Choice Env) :=
  [.other (.select selectionId ['u'] now ⟨"co".toList, .explicit items⟩),
    .other (.accept (smallDraws batch attempt) now ['u'] ['q'] ⟨selectionId, none⟩)]

/-- A command with a number of calls, some of which fail, and its end. -/
def commandEvents (c : Cmd) (fresh : Text) (now : Time) (faults : List Bool) :
    List (Event Cmd Choice Env) :=
  .launch c :: faults.map (fun fault => .call ⟨fault, now, fresh⟩) ++ [.settle]

/-- The first file of a path goes to the quarantine: its rename is refused by a probe. -/
def quarantinedFirst : List (Event Cmd Choice Env) :=
  [.other (.scan "in".toList 0 [⟨"a.t".toList, ⟨1, 7, 3, 0⟩, "queue-1".toList⟩]),
    .other (.scan "in".toList 20 [⟨"a.t".toList, ⟨1, 7, 3, 0⟩, "queue-1".toList⟩])] ++
  acceptEvents ['s'] ['b'] ['t'] 20 [("queue-in-1-7".toList, 1)] ++
  commandEvents .runOnce [] 30 (List.replicate 8 false ++ [true] ++ List.replicate 22 false)

def firstReturn : Cmd :=
  .returnItem ⟨['u'], "quarantine-t0".toList, ['k'], ⟨1, ['c']⟩, ['q']⟩

end SortingSystem
