import WiseWay.Records

/-! # Matching and planning rules

`rules.py`: the masks, the winning rule of a file and the plan of a list of files. The
planner reads the target tree only through the adapters it is given. -/
namespace Rules

open Records

variable (casefold : Text → Text)

/-- `str.rfind` for one character. -/
def rfind (c : Char) (s : Text) : Option ℕ :=
  match s.reverse.findIdx? (· = c) with
  | none => none
  | some i => some (s.length - 1 - i)

def extension (filename : Text) : Text :=
  match rfind '.' filename with
  | none => []
  | some lastDot =>
    if lastDot = 0 ∨ lastDot = filename.length - 1 then [] else filename.drop lastDot

def join (directory filename : Text) : Text :=
  if directory = [] then filename else directory.rdropWhile (· = '/') ++ '/' :: filename

/-- `rsplit("/", 1)[-1]`. -/
def leaf (path : Text) : Text := path.rtakeWhile (· ≠ '/')

def normaliseMatchPath (value : Text) : Text := value.map fun c => if c = '/' then '\\' else c

/-- State of the greedy matcher: the positions in mask and value, the position of the last
star and the position of the value from which it is retried. -/
structure GlobCursor where
  maskIndex : ℕ
  valueIndex : ℕ
  lastStar : Option ℕ
  retryValue : ℕ
  deriving DecidableEq, Repr

/-- One turn of the `while` loop, or the value the function returns. -/
def globTurn (mask value : Text) (c : GlobCursor) : GlobCursor ⊕ Bool :=
  if c.valueIndex < value.length then
    if c.maskIndex < mask.length ∧
        (mask[c.maskIndex]? = some '?' ∨ mask[c.maskIndex]? = value[c.valueIndex]?) then
      .inl { c with maskIndex := c.maskIndex + 1, valueIndex := c.valueIndex + 1 }
    else if c.maskIndex < mask.length ∧ mask[c.maskIndex]? = some '*' then
      .inl { maskIndex := c.maskIndex + 1, valueIndex := c.valueIndex
             lastStar := some c.maskIndex, retryValue := c.valueIndex }
    else
      match c.lastStar with
      | some star =>
        .inl { maskIndex := star + 1, valueIndex := c.retryValue + 1
               lastStar := some star, retryValue := c.retryValue + 1 }
      | none => .inr false
  else .inr ((mask.drop c.maskIndex).all (· = '*'))

def globLoop (mask value : Text) : ℕ → GlobCursor → Option Bool
  | 0, _ => none
  | n + 1, c =>
    match globTurn mask value c with
    | .inl next => globLoop mask value n next
    | .inr result => some result

/-- Every retry consumes one more character of the value, and between two retries both
positions only advance, which bounds the number of turns. -/
def matchGlob (mask value : Text) : Bool :=
  (globLoop mask value ((value.length + 1) * (mask.length + value.length + 2))
    ⟨0, 0, none, 0⟩).getD false

/-- `"**" in mask`. -/
def hasDoubleStar : Text → Bool
  | '*' :: '*' :: _ => true
  | _ :: rest => hasDoubleStar rest
  | [] => false

def matchRule (rule : Rule) (relativePath : Text) : Bool :=
  if hasDoubleStar rule.mask then false
  else
    match rule.matchField with
    | .basename =>
      let value := leaf (relativePath.map fun c => if c = '\\' then '/' else c)
      matchGlob (casefold rule.mask) (casefold value)
    | .relativePath =>
      matchGlob (casefold (normaliseMatchPath rule.mask))
        (casefold (normaliseMatchPath relativePath))

def reference (rule : Rule) : RuleReference := ⟨rule.dictionaryId, rule.versionId, rule.ruleId⟩

def targetTuple (target : TargetDirectory) (targetStem filename : Text) : Text × Text :=
  (target.rootId, join target.relativeDirectory (targetStem ++ extension filename))

/-- The adapters that bind the rules to a store and a file tree. -/
structure Adapters where
  exists_ : Location → Except Exn Bool
  location : Text → Text → Except Exn Location
  sourceInfo : Location → Except Exn (Option FileMetadata)

/-- A row on its way through the passes, with its `_source_metadata`. -/
abbrev WorkRow := PlanRow × FileMetadata

def minimumPriority (rules : List Rule) : Option Int := (rules.map (·.toRuleBody.priority)).min?

def winners (rules : List Rule) : List Rule :=
  rules.filter fun rule => minimumPriority rules = some rule.priority

def ruleBefore (a b : Rule) : Bool :=
  a.dictionaryId < b.dictionaryId ∨ (a.dictionaryId = b.dictionaryId ∧ a.ruleId < b.ruleId)

/-- `min` by `(dictionary_id, rule_id)`, the first of equal ones. -/
def leastRule : List Rule → Option Rule
  | [] => none
  | rule :: rest =>
    match leastRule rest with
    | none => some rule
    | some best =>
      if ruleBefore best rule then some best else some rule

def withState (row : PlanRow) (state : PredictedState) (reason : Reason) : PlanRow :=
  { row with predictedState := state, reasonCode := some reason }

def baseRow (item : PublicItem) : PlanRow where
  itemId := item.itemId
  itemRevision := item.itemRevision
  source := item.source
  filename := item.filename
  companyId := item.companyId
  predictedState := .notReady
  reasonCode := some .notReady
  target := none
  matchedRules := []
  selectedRule := none
  collision := none

def planOne (adapters : Adapters) (rules : List Rule) (item : PublicItem) :
    Except Exn PlanRow := do
  let base := baseRow item
  if (item.status ≠ .ready ∧ item.status ≠ .requiresDecision) ∨ item.selectable = false then
    return base
  let matching := rules.filter fun rule => matchRule casefold rule item.source.relativePath
  if matching = [] then
    return withState base .willManualReview .noScenario
  let won := winners matching
  let base := { base with matchedRules := won.map reference }
  let tuples := (won.map fun rule =>
    targetTuple rule.target rule.targetStem item.filename).dedup
  match tuples, leastRule won with
  | [(rootId, relativePath)], some selected =>
    let target ← adapters.location rootId relativePath
    return { base with
      predictedState := .willMove
      reasonCode := none
      target := some target
      selectedRule := some (reference selected) }
  | _, _ => return withState base .willManualReview .ruleConflict

def block (adapters : Adapters) (row : WorkRow) (reason : Reason) (kind : CollisionKind)
    (target : Location) (conflicting : List Text) : Except Exn WorkRow := do
  let existing ← if kind = .duplicatePlanTarget then .ok none else adapters.sourceInfo target
  return ({ row.1 with
    predictedState := .requiresDecision
    reasonCode := some reason
    collision := some ⟨kind, row.2, existing, conflicting⟩ }, row.2)

def applyManualReviewCollisions (adapters : Adapters) (manualTarget : TargetDirectory)
    (rows : List WorkRow) : Except Exn (List WorkRow) :=
  rows.mapM fun row => do
    if row.1.predictedState ≠ .willManualReview then return row
    let target ← adapters.location manualTarget.rootId
      (join manualTarget.relativeDirectory row.1.filename)
    if ← adapters.exists_ target then
      block adapters row .manualReviewNameOccupied .manualReviewName target []
    else return row

def targetKey (target : Location) : Text × Text := (target.rootId, target.relativePath)

/-- The other rows of the pass that plan the target of row `i`. -/
def sharers (rows : List WorkRow) (i : ℕ) (key : Text × Text) : List Text :=
  (rows.zipIdx.filter fun other => other.2 ≠ i ∧ other.1.1.predictedState = .willMove ∧
    other.1.1.target.map targetKey = some key).map (·.1.1.itemId)

def applyTargetCollisions (adapters : Adapters) (rows : List WorkRow) :
    Except Exn (List WorkRow) :=
  rows.zipIdx.mapM fun (row, i) => do
    match row.1.predictedState, row.1.target with
    | .willMove, some target =>
      let others := sharers rows i (targetKey target)
      if others ≠ [] then
        block adapters row .targetOccupied .duplicatePlanTarget target others
      else if ← adapters.exists_ target then
        block adapters row .targetOccupied .existingTarget target []
      else return row
    | _, _ => return row

def sourceMetadata (item : PublicItem) : FileMetadata :=
  ⟨item.filename, item.source, item.sizeBytes, item.modifiedAt⟩

def planRows (adapters : Adapters) (items : List PublicItem) (rules : List Rule)
    (manualTarget : TargetDirectory) : Except Exn (List PlanRow) := do
  let rows ← items.mapM fun item => do
    let row ← planOne casefold adapters rules item
    return (row, sourceMetadata item)
  let rows ← applyManualReviewCollisions adapters manualTarget rows
  let rows ← applyTargetCollisions adapters rows
  return rows.map Prod.fst

structure PlanCounts where
  willMove : ℕ
  willManualReview : ℕ
  requiresDecision : ℕ
  notReady : ℕ
  ruleConflicts : ℕ
  noScenario : ℕ
  deriving DecidableEq, Repr

def manualCandidate (row : PlanRow) : Bool :=
  row.selectedRule = none ∧ row.predictedState ≠ .notReady

def planCounts (rows : List PlanRow) : PlanCounts where
  willMove := rows.countP (·.predictedState = .willMove)
  willManualReview := rows.countP (·.predictedState = .willManualReview)
  requiresDecision := rows.countP (·.predictedState = .requiresDecision)
  notReady := rows.countP (·.predictedState = .notReady)
  ruleConflicts := rows.countP fun row => manualCandidate row ∧ 2 ≤ row.matchedRules.length
  noScenario := rows.countP fun row => manualCandidate row ∧ row.matchedRules = []

end Rules
