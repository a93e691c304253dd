import WiseWay.Fallible
import WiseWay.Rules

/-! # Store, file tree and shared context

`storage.py` and the parts of `services.py` and `filesystem.py` that the services read.
A digest is taken to be injective and stands for the value it digests. -/
namespace Services

open Records

inductive IndexStorage where
  | json | sqlite | opensearch
  deriving DecidableEq, Repr

structure Store where
  storage : Table IndexStorage
  queue : Table QueueItem
  claim : Table Claim
  attempt : Table Attempt
  batch : Table Batch
  selection : Table Selection
  preview : Table Preview
  quarantine : Table QuarantineCard
  returns : Table ReturnOperation
  /-- Keyed by user, card and `Idempotency-Key`. -/
  returnKey : Std.ExtTreeMap (List Text) ReturnKey
  dictionary : Table Dictionary
  dictionaryVersion : Table DictionaryVersion
  audit : List AuditEvent
  outbox : List OutboxRow

def Store.empty : Store := ⟨∅, ∅, ∅, ∅, ∅, ∅, ∅, ∅, ∅, ∅, ∅, ∅, [], []⟩

export Fallible (bind_eq_ok)

def require {V : Type} (t : Table V) (key : Text) : Except Exn V :=
  match t[key]? with
  | some v => .ok v
  | none => .error (apiError .notFound)

theorem require_eq_ok {V : Type} {t : Table V} {key : Text} {v : V} :
    require t key = .ok v ↔ t[key]? = some v := by
  unfold require
  cases t[key]? <;> simp

/-- `tx.insert`: the primary key refuses a second row. -/
def insertNew {V : Type} (t : Table V) (key : Text) (v : V) : Except Exn (Table V) :=
  match t[key]? with
  | some _ => .error .failure
  | none => .ok (t.insert key v)

theorem insertNew_eq_ok {V : Type} {t u : Table V} {key : Text} {v : V} :
    insertNew t key v = .ok u ↔ t[key]? = none ∧ u = t.insert key v := by
  unfold insertNew
  cases t[key]? <;> simp [eq_comm]

def emit (s : Store) (event : AuditEvent) : Store := { s with audit := s.audit ++ [event] }

/-- What a directory entry is, links not followed. -/
inductive Entry where
  | file (identity : Fingerprint)
  | directory
  | special
  deriving DecidableEq, Repr

/-- Paths below the sandbox and what they name. -/
abbrev FileTree := Text → Option Entry

/-- The identity of a regular file, and nothing for any other entry. -/
def fileAt (tree : FileTree) (path : Text) : Option Fingerprint :=
  match tree path with
  | some (.file identity) => some identity
  | _ => none

theorem fileAt_eq_some {tree : FileTree} {path : Text} {identity : Fingerprint} :
    fileAt tree path = some identity ↔ tree path = some (.file identity) := by
  unfold fileAt
  split <;> simp_all

def badComponent (part : Text) : Bool := part = [] ∨ part = ['.'] ∨ part = ['.', '.']

/-- `SafeFilesystem._parts`. -/
def parts (relative : Text) : Except Exn (List Text) :=
  if '\\' ∈ relative ∨ '\x00' ∈ relative then .error .failure
  else if relative = [] ∨ relative.head? = some '/' ∨ relative.getLast? = some '/' then
    .error .failure
  else if (relative.splitOn '/').any badComponent then .error .failure
  else .ok (relative.splitOn '/')

def stat (tree : FileTree) (path : Text) : Except Exn (Option Fingerprint) := do
  let _ ← parts path
  return fileAt tree path

def occupied (tree : FileTree) (path : Text) : Except Exn Bool := do
  let _ ← parts path
  return (tree path).isSome

def isDirectory (tree : FileTree) (path : Text) : Bool := tree path = some .directory

section Context

variable (layout : Layout)

def location (rootId relative : Text) : Except Exn Location :=
  match layout.root rootId with
  | none => .error (apiError .invalidTarget)
  | some root =>
    if relative = [] ∨ '\\' ∈ relative ∨ relative.head? = some '/' ∨
        (relative.splitOn '/').any badComponent then
      .error (apiError .pathOutsideRoot)
    else .ok ⟨rootId, relative, root.displayPrefix.rdropWhile (· = '/') ++ '/' :: relative⟩

def physical (loc : Location) : Except Exn Text := do
  let checked ← location layout loc.rootId loc.relativePath
  match layout.root checked.rootId with
  | none => .error (apiError .notFound)
  | some root =>
    return if root.base = [] then checked.relativePath
      else root.base ++ '/' :: checked.relativePath

def existsAt (tree : FileTree) (loc : Location) : Except Exn Bool := do
  occupied tree (← physical layout loc)

def sourceInfo (tree : FileTree) (loc : Location) : Except Exn (Option FileMetadata) := do
  let observed ← stat tree (← physical layout loc)
  return observed.map fun m => ⟨Rules.leaf loc.relativePath, loc, m.size, m.mtimeNs⟩

def adapters (tree : FileTree) : Rules.Adapters where
  exists_ := existsAt layout tree
  location := location layout
  sourceInfo := sourceInfo layout tree

def manualRoot : Text := "manual-root".toList

def quarantineRoot : Text := "quarantine-root".toList

def requireCompany (companyId : Text) : Except Exn Company :=
  match layout.company companyId with
  | some company => .ok company
  | none => .error (apiError .notFound)

def plan (casefold : Text → Text) (tree : FileTree) (items : List PublicItem)
    (rules : List Rule) (companyId : Text) : Except Exn (List PlanRow) := do
  let company ← requireCompany layout companyId
  Rules.planRows casefold (adapters layout tree) items rules ⟨manualRoot, company.folder⟩

end Context

def readyItems (s : Store) (companyId : Text) : List PublicItem :=
  ((list s.queue).filter fun q =>
    q.companyId = companyId ∧ q.status = .ready ∧ q.selectable).map (·.toPublicItem)

/-- Dictionaries of a company that have an active version, in the order of their ids. -/
def ruleSet (s : Store) (companyId : Text) : RuleSet where
  companyId := companyId
  members := (list s.dictionary).filterMap fun d =>
    if d.companyId = companyId then d.activeVersionId.map fun v => (d.dictionaryId, v) else none

def tagRules (dictionaryId : Text) (versionId : Option Text) (rules : List RuleBody) :
    List Rule :=
  rules.map fun rule => { rule with dictionaryId := dictionaryId, versionId := versionId }

/-- The active rules of a company, with the draft of `candidate` in place of its version. -/
def flattenedRules (s : Store) (companyId : Text) (candidate : Option Dictionary) :
    Except Exn (List Rule) := do
  let parts ← (list s.dictionary).mapM fun d => do
    if d.companyId ≠ companyId then return []
    if candidate.map (·.dictionaryId) = some d.dictionaryId then
      return tagRules d.dictionaryId none ((candidate.map (·.draft.rules)).getD [])
    match d.activeVersionId with
    | none => return []
    | some versionId =>
      let version ← require s.dictionaryVersion versionId
      return tagRules d.dictionaryId (some version.versionId) version.rules
  return parts.flatten

end Services
