import WiseWay.AttemptTransactions
import WiseWay.PublishedArchives

/-! # The search outbox and its delivery

`search_outbox.py`: a move is committed with the business state and delivered afterwards. `drain`
saves one batch of a root with the generation that it goes to, imports its manifest as a delta and
then acknowledges it, in transactions of their own. It has the importer to itself for as long as
it works on a root; moves are enqueued at any time. -/
namespace OutboxDrain

open Records ArchiveImport ImportVersions PublishedArchives

structure Queued where
  seq : ℕ
  row : OutboxRow
  deriving DecidableEq, Repr

/-- A row of `search_outbox_batch`. -/
structure OutboxBatch where
  base : Text
  first : ℕ
  last : ℕ
  records : List OutboxRow
  deriving DecidableEq, Repr

inductive Progress where
  | saved | importing | imported
  deriving DecidableEq, Repr

structure Drain where
  rootId : Text
  batch : OutboxBatch
  progress : Progress
  deriving DecidableEq, Repr

/-- `rows` are in the order of their numbers and `sequence` is the counter of `AUTOINCREMENT`.
`log` is a ghost: every row that has been in the outbox. -/
structure State where
  importer : World
  storage : Table Services.IndexStorage
  rows : List Queued
  sequence : ℕ
  batches : Table OutboxBatch
  draining : Option Drain
  log : List Queued

/-- The importer, the line of a record in a manifest, and the length of a record as it is
stored. -/
structure Outbox where
  importer : ArchiveImport.Service
  line : OutboxRow → Bytes
  bodyBytes : OutboxRow → ℕ

def maxRows : ℕ := 25000

def maxPayload : ℕ := 4 * 1024 * 1024

/-- `enqueue_move`, for a row that is made of its arguments. -/
def enqueue (row : OutboxRow) (s : State) : State :=
  if s.storage[row.rootId]? ≠ some .opensearch then s
  else if s.rows.any (·.row.eventKey = row.eventKey) then s
  else
    let queued : Queued := ⟨s.sequence + 1, row⟩
    { s with rows := s.rows ++ [queued], sequence := s.sequence + 1, log := s.log ++ [queued] }

section Drain

variable (o : Outbox)

/-- The rows after the first one, until the payload would be too large. -/
def withinPayload : ℕ → List Queued → List Queued
  | _, [] => []
  | used, q :: rest =>
    if maxPayload < used + o.bodyBytes q.row then []
    else q :: withinPayload (used + o.bodyBytes q.row) rest

def collect (rootId : Text) (rows : List Queued) : List Queued :=
  match (rows.filter (·.row.rootId = rootId)).take maxRows with
  | [] => []
  | q :: rest => q :: withinPayload o (o.bodyBytes q.row) rest

/-- `_manifest`. -/
def manifest (records : List OutboxRow) : Bytes := records.flatMap o.line

def newBatch (base : Text) (first : Queued) (rest : List Queued) : OutboxBatch where
  base := base
  first := first.seq
  last := ((first :: rest).getLast (List.cons_ne_nil _ _)).seq
  records := (first :: rest).map (·.row)

/-- The transaction that `drain` starts a root with: a saved batch is taken up again. -/
def save (rootId : Text) (s : State) : Option State :=
  match s.draining, s.importer.attempt with
  | none, none =>
    if ∃ q ∈ s.rows, q.row.rootId = rootId then
      (s.importer.index[rootId]?).bind fun current =>
        if current.storage = none then none
        else match s.batches[rootId]? with
        | some batch => some { s with draining := some ⟨rootId, batch, .saved⟩ }
        | none =>
          match collect o rootId s.rows with
          | [] => none
          | first :: rest =>
            let batch := newBatch current.generation first rest
            some { s with
              batches := s.batches.insert rootId batch
              draining := some ⟨rootId, batch, .saved⟩ }
    else none
  | _, _ => none

/-- What the importer may do while `drain` has its lock: nothing but the import of the batch.
Other processes change roots, and the engine loses points in time. -/
def Permitted (draining : Option Drain) (e : ArchiveImport.Event) : Prop :=
  match draining, e with
  | none, _ => True
  | some d, .run _ _ rootId source mode base => d.progress = .saved ∧ rootId = d.rootId ∧
      source = manifest o d.batch.records ∧ mode = .delta ∧ base = some d.batch.base
  | some _, .abort _ => False
  | some _, .restore _ _ _ => False
  | some _, .losePit _ => True
  | some _, .configure _ _ => True
  | some _, .stop => True
  | some d, _ => d.progress = .importing

instance : (draining : Option Drain) → (e : ArchiveImport.Event) →
    Decidable (Permitted o draining e)
  | none, _ => instDecidableTrue
  | some d, .run _ _ rootId source mode base =>
    inferInstanceAs (Decidable (d.progress = .saved ∧ rootId = d.rootId ∧
      source = manifest o d.batch.records ∧ mode = .delta ∧ base = some d.batch.base))
  | some _, .abort _ => instDecidableFalse
  | some _, .restore _ _ _ => instDecidableFalse
  | some _, .losePit _ => instDecidableTrue
  | some _, .configure _ _ => instDecidableTrue
  | some _, .stop => instDecidableTrue
  | some d, .fill => inferInstanceAs (Decidable (d.progress = .importing))
  | some d, .bulk _ _ => inferInstanceAs (Decidable (d.progress = .importing))
  | some d, .checkpoint => inferInstanceAs (Decidable (d.progress = .importing))
  | some d, .publish _ => inferInstanceAs (Decidable (d.progress = .importing))
  | some d, .commit => inferInstanceAs (Decidable (d.progress = .importing))
  | some d, .finish => inferInstanceAs (Decidable (d.progress = .importing))

/-- How far `drain` is after a step of its import; an import that fails ends it. -/
def advance (e : ArchiveImport.Event) (t : World) (d : Drain) : Option Drain :=
  match e with
  | .run _ _ _ _ _ _ =>
    some { d with progress := if t.attempt = none then .imported else .importing }
  | .finish => some { d with progress := .imported }
  | .losePit _ => some d
  | .configure _ _ => some d
  | _ => if t.attempt = none then none else some d

/-- A root whose import has been claimed is kept in OpenSearch. -/
def storageAfter (e : ArchiveImport.Event) (storage : Table Services.IndexStorage) :
    Table Services.IndexStorage :=
  match e with
  | .run _ _ rootId _ _ _ => storage.insert rootId .opensearch
  | _ => storage

/-- `abort` deletes the batch of the root if there was an import to abort. -/
def forget (rootId : Text) (s : State) : Table OutboxBatch :=
  if ∃ job ∈ s.importer.jobs, job.rootId = rootId ∧ job.state = .building then
    s.batches.erase rootId
  else s.batches

def batchesAfter (e : ArchiveImport.Event) (s : State) : Table OutboxBatch :=
  match e with
  | .abort rootId => forget rootId s
  | _ => s.batches

def work (e : ArchiveImport.Event) (s : State) : Option State :=
  if Permitted o s.draining e then
    (ArchiveImport.step o.importer s.importer e).map fun t =>
      { s with
        importer := t
        storage := storageAfter e s.storage
        batches := batchesAfter e s
        draining := s.draining.bind (advance e t) }
  else none

/-- The last transaction of a root. -/
def acknowledge (s : State) : Option State :=
  match s.draining with
  | some ⟨rootId, batch, .imported⟩ => some { s with
      rows := s.rows.filter fun q =>
        ¬(q.row.rootId = rootId ∧ batch.first ≤ q.seq ∧ q.seq ≤ batch.last)
      batches := s.batches.erase rootId
      draining := none }
  | _ => none

inductive Event where
  | enqueue (row : OutboxRow)
  | save (rootId : Text)
  | work (e : ArchiveImport.Event)
  | acknowledge
  /-- A crash in `abort` between the transaction of the store and that of the journal. -/
  | forget (rootId : Text)
  /-- The archive indexer takes a root that is not in OpenSearch. -/
  | store (rootId : Text)

def step (s : State) : Event → Option State
  | .enqueue row => some (enqueue row s)
  | .save rootId => save o rootId s
  | .work e => work o e s
  | .acknowledge => acknowledge s
  | .forget rootId =>
    match s.draining, s.importer.attempt with
    | none, none => some { s with batches := forget rootId s }
    | _, _ => none
  | .store rootId =>
    if s.storage[rootId]? = some .opensearch then none
    else some { s with storage := s.storage.insert rootId .sqlite }

end Drain

def published (s : State) : Event → List Job
  | .work e => publication s.importer e
  | _ => []

/-- No generation is drawn that a delta or a batch has as its base. -/
def Unused (s : State) (generation : Text) : Prop :=
  (∀ job ∈ s.importer.jobs, job.base ≠ some generation) ∧
    ∀ batch ∈ list s.batches, batch.base ≠ generation

instance (s : State) (generation : Text) : Decidable (Unused s generation) := by
  unfold Unused
  infer_instance

/-- `uid` draws new names. -/
def Drawn (s : State) : Event → Prop
  | .work e => Fresh s.importer e ∧ match e with
    | .run _ generation _ _ _ _ => Unused s generation
    | .restore _ _ generation => Unused s generation
    | _ => True
  | _ => True

instance (s : State) : (e : Event) → Decidable (Drawn s e)
  | .work (.run build generation rootId source mode base) => inferInstanceAs (Decidable
      (Fresh s.importer (.run build generation rootId source mode base) ∧ Unused s generation))
  | .work (.restore rootId pitId generation) => inferInstanceAs (Decidable
      (Fresh s.importer (.restore rootId pitId generation) ∧ Unused s generation))
  | .work .fill => inferInstanceAs (Decidable (Fresh s.importer .fill ∧ True))
  | .work (.bulk applied answered) =>
    inferInstanceAs (Decidable (Fresh s.importer (.bulk applied answered) ∧ True))
  | .work .checkpoint => inferInstanceAs (Decidable (Fresh s.importer .checkpoint ∧ True))
  | .work (.publish pitId) => inferInstanceAs (Decidable (Fresh s.importer (.publish pitId) ∧ True))
  | .work .commit => inferInstanceAs (Decidable (Fresh s.importer .commit ∧ True))
  | .work .finish => inferInstanceAs (Decidable (Fresh s.importer .finish ∧ True))
  | .work .stop => inferInstanceAs (Decidable (Fresh s.importer .stop ∧ True))
  | .work (.abort rootId) => inferInstanceAs (Decidable (Fresh s.importer (.abort rootId) ∧ True))
  | .work (.losePit pitId) =>
    inferInstanceAs (Decidable (Fresh s.importer (.losePit pitId) ∧ True))
  | .work (.configure rootId root) =>
    inferInstanceAs (Decidable (Fresh s.importer (.configure rootId root) ∧ True))
  | .enqueue _ => instDecidableTrue
  | .save _ => instDecidableTrue
  | .acknowledge => instDecidableTrue
  | .forget _ => instDecidableTrue
  | .store _ => instDecidableTrue

inductive Delivery (o : Outbox) : State → List Job → Prop where
  | start (root : Table ArchiveImport.Root) (index : Table IndexRow)
      (storage : Table Services.IndexStorage) :
      (∀ (k : Text) row, index[k]? = some row → row.storage = none) →
      Delivery o ⟨⟨[], 0, root, index, ∅, ∅, none, []⟩, storage, [], 0, ∅, none, []⟩ []
  | step {s t : State} {history : List Job} {e : Event} : Delivery o s history → Drawn s e →
      step o s e = some t → Delivery o t (history ++ published s e)

variable {o : Outbox} {s t : State} {history : List Job}

theorem work_some {e : ArchiveImport.Event} (h : work o e s = some t) :
    Permitted o s.draining e ∧ ∃ u, ArchiveImport.step o.importer s.importer e = some u ∧
      t = { s with
        importer := u
        storage := storageAfter e s.storage
        batches := batchesAfter e s
        draining := s.draining.bind (advance e u) } := by
  unfold work at h
  split at h
  · rename_i hpermitted
    obtain ⟨u, hu, rfl⟩ := Option.map_eq_some_iff.mp h
    exact ⟨hpermitted, u, hu, rfl⟩
  · cases h

/-- What a drain starts with. -/
inductive Saves (o : Outbox) (rootId : Text) (s t : State) : Prop where
  | again (batch : OutboxBatch) : s.batches[rootId]? = some batch →
      t = { s with draining := some ⟨rootId, batch, .saved⟩ } → Saves o rootId s t
  | anew (current : IndexRow) (first : Queued) (rest : List Queued) :
      s.importer.index[rootId]? = some current → current.storage ≠ none →
      s.batches[rootId]? = none → collect o rootId s.rows = first :: rest →
      t = { s with
        batches := s.batches.insert rootId (newBatch current.generation first rest)
        draining := some ⟨rootId, newBatch current.generation first rest, .saved⟩ } →
      Saves o rootId s t

theorem save_some {rootId : Text} (h : save o rootId s = some t) :
    s.draining = none ∧ s.importer.attempt = none ∧ Saves o rootId s t := by
  unfold save at h
  split at h
  · rename_i hdraining hattempt
    refine ⟨hdraining, hattempt, ?_⟩
    split at h
    · obtain ⟨current, hcurrent, h⟩ := Option.bind_eq_some_iff.mp h
      split at h
      · cases h
      rename_i hstorage
      split at h
      · rename_i batch hbatch
        exact .again batch hbatch (Option.some.inj h).symm
      · rename_i hnone
        split at h
        · cases h
        · rename_i first rest hcollect
          exact .anew current first rest hcurrent hstorage hnone hcollect (Option.some.inj h).symm
    · cases h
  · cases h

theorem acknowledge_some (h : acknowledge s = some t) :
    ∃ rootId batch, s.draining = some ⟨rootId, batch, .imported⟩ ∧
      t = { s with
        rows := s.rows.filter fun q =>
          ¬(q.row.rootId = rootId ∧ batch.first ≤ q.seq ∧ q.seq ≤ batch.last)
        batches := s.batches.erase rootId
        draining := none } := by
  unfold acknowledge at h
  split at h
  · rename_i rootId batch hdraining
    exact ⟨rootId, batch, hdraining, (Option.some.inj h).symm⟩
  · cases h

theorem forget_some {rootId : Text} (h : step o s (.forget rootId) = some t) :
    s.draining = none ∧ s.importer.attempt = none ∧ t = { s with batches := forget rootId s } := by
  simp only [step] at h
  split at h
  · rename_i hdraining hattempt
    exact ⟨hdraining, hattempt, (Option.some.inj h).symm⟩
  · cases h

theorem store_some {rootId : Text} (h : step o s (.store rootId) = some t) :
    t = { s with storage := s.storage.insert rootId .sqlite } := by
  simp only [step] at h
  split at h
  · cases h
  · exact (Option.some.inj h).symm

theorem published_other {e : Event} (h : ∀ event, e ≠ .work event) : published s e = [] := by
  unfold published
  split
  · rename_i event
    exact absurd rfl (h event)
  · rfl

theorem Delivery.imports (h : Delivery o s history) : History o.importer s.importer history := by
  induction h with
  | start root index storage hindex => exact .start root index hindex
  | @step s t history e _ hdrawn hstep ih =>
    cases e with
    | work e =>
      obtain ⟨_, u, hu, rfl⟩ := work_some hstep
      exact ih.step hdrawn.1 hu
    | enqueue row =>
      cases hstep
      rw [published_other (by simp), List.append_nil]
      unfold enqueue
      split
      · exact ih
      split
      · exact ih
      · exact ih
    | save rootId =>
      obtain ⟨_, _, hsaves⟩ := save_some hstep
      rw [published_other (by simp), List.append_nil]
      cases hsaves with
      | again batch _ ht => exact ht ▸ ih
      | anew current first rest _ _ _ _ ht => exact ht ▸ ih
    | acknowledge =>
      obtain ⟨_, _, _, rfl⟩ := acknowledge_some hstep
      rw [published_other (by simp), List.append_nil]
      exact ih
    | forget rootId =>
      obtain ⟨_, _, rfl⟩ := forget_some hstep
      rw [published_other (by simp), List.append_nil]
      exact ih
    | store rootId =>
      obtain rfl := store_some hstep
      rw [published_other (by simp), List.append_nil]
      exact ih

end OutboxDrain
