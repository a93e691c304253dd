import WiseWay.ReturnTransactions

/-! # The dictionary service

The write transactions of `dictionaries.py`: the draft of a dictionary is tested by a
simulation, which is what its publication rests on. -/
namespace DictionaryService

open Records Services
open ReturnTransactions (isSpace blank)

structure Simulation where
  simulationId : Text
  dictionaryId : Text
  draftRevision : ℕ
  baseRuleSet : RuleSet
  createdAt : Time
  total : ℕ
  counts : Rules.PlanCounts
  emptyReadySet : Bool
  rows : List PlanRow
  readyDigest : List PublicItem
  rulesDigest : List Rule
  owner : Text
  expires : Time
  deriving DecidableEq, Repr

/-- `str.strip`. -/
def strip (text : Text) : Text := (text.dropWhile isSpace).rdropWhile isSpace

def dictionaryEvent (actor requestId : Text) (action : AuditAction) (now : Time)
    (dictionary : Dictionary) : AuditEvent where
  actor := actor
  action := action
  requestId := requestId
  occurredAt := now
  companyId := dictionary.companyId
  dictionaryId := dictionary.dictionaryId

section Service

variable (layout : Layout) (casefold : Text → Text) (settings : Settings) (tree : FileTree)

/-- The target directories of a company that exist. Only membership is read here, so they stay
in their stored order. -/
def targets (companyId : Text) : Except Exn (List TargetDirectory) := do
  let company ← requireCompany layout companyId
  company.targets.filterM fun target => do
    let loc ← location layout target.rootId target.relativeDirectory
    let path ← physical layout loc
    let _ ← parts path
    return isDirectory tree path

def revision (dictionary : Dictionary) (expected : ℕ) : Except Exn Unit :=
  if dictionary.draft.draftRevision ≠ expected then .error (apiError .draftVersionConflict)
  else .ok ()

def uniqueName (s : Store) (companyId name : Text) (excluded : Option Text) : Except Exn Unit :=
  if name = [] then .error (apiError .validationError)
  else if (list s.dictionary).any fun d => d.companyId = companyId ∧
      some d.dictionaryId ≠ excluded ∧ casefold (strip d.name) = casefold name then
    .error (apiError .dictionaryNameConflict)
  else .ok ()

def badStem (stem : Text) : Bool :=
  stem = [] ∨ 200 < stem.length ∨ 255 < (stem.map Char.utf8Size).sum ∨ stem = ['.'] ∨
    stem = ['.', '.'] ∨ (stem.any fun c => c = '/' ∨ c = '\\' ∨ c = '\x00') ∨
    stem.any fun c => c.val < 32 ∨ c.val = 127

def validateRule (known : List TargetDirectory) (seen : List Text) (rule : RuleBody) :
    Except Exn (List Text) :=
  if rule.ruleId ∈ seen then .error (apiError .validationError)
  else if rule.target ∉ known then .error (apiError .invalidTarget)
  else if badStem rule.targetStem then .error (apiError .validationError)
  else .ok (rule.ruleId :: seen)

def validateRules (companyId : Text) (rules : List RuleBody) : Except Exn Unit := do
  let known ← targets layout tree companyId
  let _ ← rules.foldlM (validateRule known) []

def create (dictionaryId actor requestId : Text) (now : Time) (companyId name description : Text)
    (s : Store) : Except Exn Store := do
  let _ ← requireCompany layout companyId
  uniqueName casefold s companyId (strip name) none
  let created : Dictionary :=
    { dictionaryId := dictionaryId
      companyId := companyId
      name := strip name
      description := description
      draft := ⟨1, [], none⟩
      activeVersionId := none
      versionsCount := 0
      updatedAt := now
      updatedBy := actor }
  let dictionaries ← insertNew s.dictionary dictionaryId created
  return emit { s with dictionary := dictionaries }
    (dictionaryEvent actor requestId .dictionaryCreated now created)

structure DraftBody where
  expectedDraftRevision : ℕ
  name : Text
  description : Text
  rules : List RuleBody
  deriving DecidableEq, Repr

def redrafted (dictionary : Dictionary) (name description : Text) (rules : List RuleBody)
    (basedOnVersionId : Option Text) (actor : Text) (now : Time) : Dictionary :=
  { dictionary with
    name := name
    description := description
    draft := ⟨dictionary.draft.draftRevision + 1, rules, basedOnVersionId⟩
    updatedAt := now
    updatedBy := actor }

def replaceDraft (actor requestId : Text) (now : Time) (dictionaryId : Text) (body : DraftBody)
    (s : Store) : Except Exn Store := do
  let dictionary ← require s.dictionary dictionaryId
  revision dictionary body.expectedDraftRevision
  uniqueName casefold s dictionary.companyId (strip body.name) (some dictionary.dictionaryId)
  validateRules layout tree dictionary.companyId body.rules
  let dictionary :=
    redrafted dictionary (strip body.name) body.description body.rules none actor now
  return emit { s with dictionary := s.dictionary.insert dictionary.dictionaryId dictionary }
    (dictionaryEvent actor requestId .draftSaved now dictionary)

def restoreDraft (actor requestId : Text) (now : Time) (dictionaryId : Text)
    (expectedDraftRevision : ℕ) (versionId : Text) (s : Store) : Except Exn Store := do
  let dictionary ← require s.dictionary dictionaryId
  revision dictionary expectedDraftRevision
  let version ← require s.dictionaryVersion versionId
  if version.dictionaryId ≠ dictionary.dictionaryId then .error (apiError .notFound)
  uniqueName casefold s dictionary.companyId version.name (some dictionary.dictionaryId)
  let dictionary := redrafted dictionary version.name version.description version.rules
    (some version.versionId) actor now
  return emit { s with dictionary := s.dictionary.insert dictionary.dictionaryId dictionary }
    { dictionaryEvent actor requestId .dictionaryRestored now dictionary with
      versionId := version.versionId }

def simulate (simulationId actor requestId : Text) (now : Time) (dictionaryId : Text)
    (expectedDraftRevision : ℕ) (simulations : Table Simulation) (s : Store) :
    Except Exn (Simulation × Table Simulation × Store) := do
  let dictionary ← require s.dictionary dictionaryId
  revision dictionary expectedDraftRevision
  let items := readyItems s dictionary.companyId
  let rules ← flattenedRules s dictionary.companyId (some dictionary)
  let rows ← plan layout casefold tree items rules dictionary.companyId
  let created : Simulation :=
    { simulationId := simulationId
      dictionaryId := dictionary.dictionaryId
      draftRevision := dictionary.draft.draftRevision
      baseRuleSet := ruleSet s dictionary.companyId
      createdAt := now
      total := rows.length
      counts := Rules.planCounts rows
      emptyReadySet := items = []
      rows := rows
      readyDigest := items
      rulesDigest := rules
      owner := actor
      expires := now + settings.ttl }
  let simulations ← insertNew simulations simulationId created
  return (created, simulations,
    emit s { dictionaryEvent actor requestId .dictionarySimulated now dictionary with
      ruleSet := created.baseRuleSet })

structure PublishBody where
  expectedDraftRevision : ℕ
  simulationId : Text
  acknowledgeNoScenario : Bool
  comment : Text
  deriving DecidableEq, Repr

structure Published where
  dictionary : Dictionary
  publishedVersion : DictionaryVersion
  ruleSet : RuleSet
  deriving DecidableEq, Repr

/-- `_fresh_simulation`: nothing that the simulation has seen may have changed. -/
def freshSimulation (now : Time) (simulation : Simulation) (s : Store) : Except Exn Unit := do
  let dictionary ← require s.dictionary simulation.dictionaryId
  let rules ← flattenedRules s dictionary.companyId (some dictionary)
  if simulation.expires ≤ now ∨ dictionary.draft.draftRevision ≠ simulation.draftRevision ∨
      ruleSet s dictionary.companyId ≠ simulation.baseRuleSet ∨
      rules ≠ simulation.rulesDigest ∨
      readyItems s dictionary.companyId ≠ simulation.readyDigest then
    .error (apiError .staleSimulation)

def newVersion (versionId actor comment : Text) (now : Time) (dictionary : Dictionary) :
    DictionaryVersion where
  versionId := versionId
  dictionaryId := dictionary.dictionaryId
  versionNumber := dictionary.versionsCount + 1
  name := dictionary.name
  description := dictionary.description
  rules := dictionary.draft.rules
  publishedAt := now
  publishedBy := actor
  comment := comment
  restoredFromVersionId := dictionary.draft.basedOnVersionId

/-- The dictionary whose active version is the new one. -/
def activated (version : DictionaryVersion) (actor : Text) (now : Time) (dictionary : Dictionary) :
    Dictionary :=
  { dictionary with
    activeVersionId := some version.versionId
    versionsCount := version.versionNumber
    updatedAt := now
    updatedBy := actor }

def publish (versionId actor requestId : Text) (now : Time) (dictionaryId : Text)
    (body : PublishBody) (simulations : Table Simulation) (s : Store) :
    Except Exn (Published × Store) := do
  let dictionary ← require s.dictionary dictionaryId
  revision dictionary body.expectedDraftRevision
  let simulation ← require simulations body.simulationId
  if simulation.dictionaryId ≠ dictionary.dictionaryId then .error (apiError .staleSimulation)
  freshSimulation now simulation s
  if simulation.counts.ruleConflicts ≠ 0 then .error (apiError .ruleConflict)
  if simulation.counts.noScenario ≠ 0 ∧ body.acknowledgeNoScenario = false then
    .error (apiError .noScenarioAckRequired)
  validateRules layout tree dictionary.companyId dictionary.draft.rules
  if blank body.comment then .error (apiError .validationError)
  let version := newVersion versionId actor body.comment now dictionary
  let versions ← insertNew s.dictionaryVersion versionId version
  let dictionary := activated version actor now dictionary
  let s := { s with
    dictionaryVersion := versions
    dictionary := s.dictionary.insert dictionary.dictionaryId dictionary }
  let current := ruleSet s dictionary.companyId
  return (⟨dictionary, version, current⟩,
    emit s { dictionaryEvent actor requestId .dictionaryPublished now dictionary with
      versionId := version.versionId, ruleSet := current, comment := body.comment })

end Service

end DictionaryService
