import WiseWay.PublishedArchives

/-! # Published snapshots are exact

Whatever stops, fails or is repeated: the point in time of an index row holds the manifests that
are in force and nothing else. -/
namespace ExactSnapshots

open Records ArchiveImport ImportVersions LastWriters ArchiveManifests PublishedArchives

variable {v : Service} {w t : World} {history : List Job} {job : Job}

/-- The documents of an index, none if the engine does not know it. -/
def docsOf (engine : Table EngineIndex) (name : Text) : Table Stored :=
  match engine[name]? with
  | some index => index.docs
  | none => ∅

/-- The engine has what is published and what has been checkpointed, and nothing that is not in
the manifest of a job of the index. -/
structure Delivered (v : Service) (jobs : List Job) (docs : Text → Table Stored)
    (history : List Job) : Prop where
  written : ∀ name, From (storeOf (docs name)) fun write =>
    ∃ a ∈ jobs, a.indexName = name ∧ ∃ k r, Reads v a k r ∧ writeOf r = write
  checkpoint : ∀ a ∈ jobs, Reached v (docs a.indexName) a a.records
  whole : ∀ p ∈ history, Whole v (docs p.indexName) p

def Pinned (v : Service) (index : Table IndexRow) (pits : Table (Table Stored))
    (history : List Job) : Prop :=
  ∀ (rootId : Text) row snapshot docs, index[rootId]? = some row → row.storage = some snapshot →
    pits[snapshot.pitId]? = some docs → Exactly v docs (inForce rootId history)

/-- The record that was read ahead is the next one. -/
def Ahead (v : Service) (job : Job) (cursor : Cursor) : Prop :=
  ∀ r, cursor.pending = some r → Reads v job cursor.count r

def Working (v : Service) (w : World) (history : List Job) (job : Job) :
    ArchiveImport.Phase → Prop
  | .reading cursor =>
    Reached v (docsOf w.engine job.indexName) job cursor.count ∧ Ahead v job cursor
  | .sending batch _ cursor =>
    (∀ k < cursor.count, ∃ r, Reads v job k r ∧
      (Seen (storeOf (docsOf w.engine job.indexName)) (writeOf r) ∨ r ∈ batch)) ∧
      (∀ r ∈ batch, ∃ k, Reads v job k r) ∧ Ahead v job cursor
  | .delivered _ cursor =>
    Reached v (docsOf w.engine job.indexName) job cursor.count ∧ Ahead v job cursor
  | .exhausted => Whole v (docsOf w.engine job.indexName) job
  | .pinned pitId => Whole v (docsOf w.engine job.indexName) job ∧
    ∀ docs, w.pits[pitId]? = some docs →
      Exactly v docs (inForce job.rootId (history ++ [claimed job]))
  | .committed => ∃ row snapshot, w.index[job.rootId]? = some row ∧
    row.storage = some snapshot ∧ snapshot.importGeneration = job.generation

structure Underway (v : Service) (w : World) (history : List Job) (job : Job)
    (phase : ArchiveImport.Phase) : Prop where
  row : ∃ a ∈ w.jobs, claimed a = claimed job ∧ a.state = .building
  index : phase ≠ .committed → ∃ index, w.engine[job.indexName]? = some index
  unpublished : phase ≠ .committed → claimed job ∉ history
  working : Working v w history job phase

structure Exact (v : Service) (w : World) (history : List Job) : Prop where
  journal : Journal w.jobs history
  rows : Rows w.jobs w.index history
  delivered : Delivered v w.jobs (docsOf w.engine) history
  pinned : Pinned v w.index w.pits history
  attempt : ∀ a, w.attempt = some a → Underway v w history a.job a.phase

/-! The engine only grows. -/

def Grows (docs docs' : Table Stored) : Prop :=
  ∀ write, Seen (storeOf docs) write → Seen (storeOf docs') write

theorem Reached.mono {docs docs' : Table Stored} {n : ℕ} (h : Reached v docs job n)
    (hgrows : Grows docs docs') : Reached v docs' job n := by
  intro k hk
  obtain ⟨r, hr, hseen⟩ := h k hk
  exact ⟨r, hr, hgrows _ hseen⟩

theorem Whole.mono {docs docs' : Table Stored} (h : Whole v docs job)
    (hgrows : Grows docs docs') : Whole v docs' job := by
  obtain ⟨n, hended, hreached⟩ := h
  exact ⟨n, hended, Reached.mono hreached hgrows⟩

theorem grows_puts (docs : Table Stored) (batch : List Revision) :
    Grows docs (batch.foldl put docs) := by
  intro write hseen
  rw [storeOf_puts]
  exact seen_writes (.inl hseen)

theorem docsOf_insert (engine : Table EngineIndex) (name other : Text) (index : EngineIndex) :
    docsOf (engine.insert name index) other =
      if name = other then index.docs else docsOf engine other := by
  unfold docsOf
  rw [get_put]
  by_cases hname : name = other
  · rw [if_pos hname, if_pos hname]
  · rw [if_neg hname, if_neg hname]

theorem ensure_docsOf {name config : Text} (h : ensure name config w = some t) :
    docsOf t.engine = docsOf w.engine ∧ ∃ index, t.engine[name]? = some index := by
  unfold ensure at h
  split at h
  · rename_i index hindex
    split at h
    · cases h
      exact ⟨rfl, index, hindex⟩
    · cases h
  · rename_i hnone
    cases h
    refine ⟨?_, ⟨config, ∅⟩, by simp⟩
    funext other
    rw [docsOf_insert]
    split
    · rename_i hname
      subst hname
      rw [docsOf, hnone]
    · rfl

theorem Reads.same {a b : Job} (h : claimed a = claimed b) {k : ℕ} {r : Revision}
    (hr : Reads v a k r) : Reads v b k r := by
  have hsame : Reads v (claimed a) k r := ⟨hr.document, hr.version, hr.range⟩
  rw [h] at hsame
  exact ⟨hsame.document, hsame.version, hsame.range⟩

theorem Reached.same {a b : Job} (h : claimed a = claimed b) {docs : Table Stored} {n : ℕ}
    (hr : Reached v docs a n) : Reached v docs b n := by
  intro k hk
  obtain ⟨r, hread, hseen⟩ := hr k hk
  exact ⟨r, Reads.same h hread, hseen⟩

theorem Whole.same {a b : Job} (h : claimed a = claimed b) {docs : Table Stored}
    (hw : Whole v docs a) : Whole v docs b := by
  obtain ⟨n, hended, hreached⟩ := hw
  refine ⟨n, ?_, Reached.same h hreached⟩
  rw [Ended, ← (claimed_same h).source]
  exact hended

/-! One batch. -/

theorem readRecord_reads {cursor : Cursor} {r : Revision}
    (hplace : cursor.position = endAfter job.sourceHash cursor.count)
    (h : readRecord v job cursor = .ok (some r)) : Reads v job cursor.count r := by
  simp only [readRecord, hplace] at h
  split at h
  · cases h
  rename_i hpresent
  split at h
  · cases h
  split at h
  · cases h
  rename_i hrange
  rw [not_or, not_le, not_le] at hrange
  split at h
  · cases h
  · rename_i doc hdoc
    cases h
    refine ⟨?_, rfl, hrange.1⟩
    rw [documentAt, if_neg hpresent]
    exact hdoc

theorem nextRecord_reads {cursor : Cursor} {r : Revision}
    (hplaced : Placed job.id job.sourceHash cursor) (hahead : Ahead v job cursor)
    (h : nextRecord v job cursor = .ok (some r)) : Reads v job cursor.count r := by
  unfold Placed at hplaced
  unfold nextRecord at h
  cases hpending : cursor.pending with
  | none =>
    simp only [hpending] at hplaced h
    exact readRecord_reads hplaced h
  | some ahead =>
    simp only [hpending] at h
    cases h
    exact hahead r hpending

theorem readRecord_none {cursor : Cursor}
    (hplace : cursor.position = endAfter job.sourceHash cursor.count)
    (h : readRecord v job cursor = .ok none) : Ended job cursor.count := by
  simp only [readRecord, hplace] at h
  split at h
  · rename_i hempty
    exact hempty
  split at h
  · cases h
  split at h
  · cases h
  split at h
  · cases h
  · cases h

theorem nextRecord_none {cursor : Cursor} (hplaced : Placed job.id job.sourceHash cursor)
    (h : nextRecord v job cursor = .ok none) : Ended job cursor.count := by
  unfold Placed at hplaced
  unfold nextRecord at h
  cases hpending : cursor.pending with
  | none =>
    simp only [hpending] at hplaced h
    exact readRecord_none hplaced h
  | some ahead =>
    simp only [hpending] at h
    cases h

/-- What the inner loop adds: the records from the first of the batch up to the cursor. -/
structure Filled (v : Service) (job : Job) (first : ℕ) (cursor : Cursor)
    (builder : BulkBatchBuilder) : Prop where
  start : first ≤ cursor.count
  all : ∀ k, first ≤ k → k < cursor.count → ∃ r ∈ builder.records, Reads v job k r
  only : ∀ r ∈ builder.records, ∃ k, Reads v job k r
  ahead : Ahead v job cursor

theorem Filled.add {first : ℕ} {cursor : Cursor} {builder added : BulkBatchBuilder} {r : Revision}
    (h : Filled v job first cursor builder) (hr : Reads v job cursor.count r)
    (hadded : builder.add v r = .ok (some added)) :
    Filled v job first ⟨r.offset, cursor.count + 1, none⟩ added := by
  have hrecords := add_records hadded
  refine ⟨Nat.le_succ_of_le h.start, ?_, ?_, ?_⟩
  · intro k hfirst hk
    rcases Nat.lt_succ_iff_lt_or_eq.mp hk with hlt | rfl
    · obtain ⟨s, hs, hread⟩ := h.all k hfirst hlt
      exact ⟨s, hrecords ▸ List.mem_append_left _ hs, hread⟩
    · exact ⟨r, hrecords ▸ List.mem_append_right _ (List.mem_singleton_self _), hr⟩
  · intro s hs
    rw [hrecords] at hs
    rcases List.mem_append.mp hs with hs | hs
    · exact h.only s hs
    · rw [List.mem_singleton.mp hs]
      exact ⟨cursor.count, hr⟩
  · intro s hs
    cases hs

theorem fillBatch_filled {n first : ℕ} {cursor next : Cursor} {builder filled : BulkBatchBuilder}
    {batchOffset last : Option ℕ} (hplaced : Placed job.id job.sourceHash cursor)
    (hfilled : Filled v job first cursor builder)
    (h : fillBatch v job n cursor builder batchOffset = .ok (next, filled, last)) :
    Filled v job first next filled ∧ (builder.records ≠ [] → filled.records ≠ []) := by
  induction n generalizing cursor builder batchOffset with
  | zero =>
    cases h
    exact ⟨hfilled, id⟩
  | succ n ih =>
    rw [fillBatch] at h
    split at h
    · cases h
    · cases h
      exact ⟨hfilled, id⟩
    · rename_i r hnext
      have hread := nextRecord_reads hplaced hfilled.ahead hnext
      split at h
      · cases h
      · cases h
        refine ⟨⟨hfilled.start, hfilled.all, hfilled.only, ?_⟩, id⟩
        intro s hs
        cases hs
        exact hread
      · rename_i added hadded
        have hbehind : Placed job.id job.sourceHash ⟨r.offset, cursor.count + 1, none⟩ :=
          (nextRecord_numbered hplaced hnext).offset
        have hrest := ih hbehind (hfilled.add hread hadded) h
        refine ⟨hrest.1, fun _ => hrest.2 ?_⟩
        rw [add_records hadded]
        simp

/-- A round that takes no record has come to the end of the manifest. -/
theorem fillBatch_ended {n : ℕ} {cursor next : Cursor} {filled : BulkBatchBuilder}
    {last : Option ℕ} (hplaced : Placed job.id job.sourceHash cursor) (hn : 0 < n)
    (hahead : Ahead v job cursor)
    (h : fillBatch v job n cursor ⟨[], 0⟩ none = .ok (next, filled, last))
    (hempty : filled.records = []) : Ended job cursor.count := by
  obtain ⟨n, rfl⟩ := Nat.exists_eq_succ_of_ne_zero (Nat.ne_of_gt hn)
  rw [fillBatch] at h
  split at h
  · cases h
  · rename_i hnone
    exact nextRecord_none hplaced hnone
  · rename_i r hnext
    have hread := nextRecord_reads hplaced hahead hnext
    split at h
    · cases h
    · rename_i hadd
      unfold BulkBatchBuilder.add at hadd
      simp only [ne_eq, not_true_eq_false, false_and, if_false] at hadd
      split at hadd
      · cases hadd
      split at hadd
      · cases hadd
      · cases hadd
    · rename_i added hadded
      have hstart : Filled v job cursor.count cursor ⟨[], 0⟩ :=
        ⟨le_rfl, fun k hk hlt => absurd hlt (Nat.not_lt.mpr hk), by simp, hahead⟩
      have hbehind : Placed job.id job.sourceHash ⟨r.offset, cursor.count + 1, none⟩ :=
        (nextRecord_numbered hplaced hnext).offset
      have hrest := fillBatch_filled hbehind (hstart.add hread hadded) h
      refine absurd hempty (hrest.2 ?_)
      rw [add_records hadded]
      simp

end ExactSnapshots
