import Mathlib.Data.List.Nodup
import WiseWay.ArchiveImport
import WiseWay.Scripts

/-! # External revisions

The version of a record is made of its job and of its number in the manifest. The number is
counted again after every checkpoint, from the place and the count that were saved together. -/
namespace ImportVersions

open Records ArchiveImport

variable {v : Service} {w t : World} {id k : ℕ} {source : Bytes} {r : Revision}

/-- The place behind the first records of a manifest. -/
def endAfter (source : Bytes) : ℕ → ℕ
  | 0 => 0
  | k + 1 => endAfter source k + (readLine (source.drop (endAfter source k))).length

/-- The revision of the record after the first `k` ones, for a job that may send it. -/
structure Numbered (id : ℕ) (source : Bytes) (r : Revision) (k : ℕ) : Prop where
  version : r.version = id * versionRange + k + 1
  offset : r.offset = endAfter source (k + 1)
  present : readLine (source.drop (endAfter source k)) ≠ []
  record_range : k + 1 < versionRange
  job_range : id < 2 ^ 63 / versionRange - 1

/-- The handle stands behind the records that are counted, or behind the one read ahead. -/
def Placed (id : ℕ) (source : Bytes) (cursor : Cursor) : Prop :=
  match cursor.pending with
  | none => cursor.position = endAfter source cursor.count
  | some r => Numbered id source r cursor.count

def identity (job : Job) : ℕ × Bytes := (job.id, job.sourceHash)

def InPhase (id : ℕ) (source : Bytes) : ArchiveImport.Phase → Prop
  | .reading cursor => Placed id source cursor
  | .sending batch offset cursor => (∀ r ∈ batch, ∃ k, Numbered id source r k) ∧
      offset = endAfter source cursor.count ∧ Placed id source cursor
  | .delivered offset cursor => offset = endAfter source cursor.count ∧ Placed id source cursor
  | _ => True

structure Consistent (w : World) : Prop where
  ascending : (w.jobs.map Job.id).Pairwise (· < ·)
  sequence : ∀ job ∈ w.jobs, job.id ≤ w.sequence
  checkpoint : ∀ job ∈ w.jobs, job.byteOffset = endAfter job.sourceHash job.records
  attempt : ∀ a, w.attempt = some a → identity a.job ∈ w.jobs.map identity ∧
    InPhase a.job.id a.job.sourceHash a.phase
  sent : ∀ s ∈ w.sent, ∃ source, (s.jobId, source) ∈ w.jobs.map identity ∧
    ∃ k, Numbered s.jobId source s.revision k

/-! A manifest and its records. -/

theorem endAfter_mono {a b : ℕ} (h : a ≤ b) : endAfter source a ≤ endAfter source b := by
  induction h with
  | refl => exact le_rfl
  | step _ ih => exact le_trans ih (Nat.le_add_right ..)

theorem readLine_empty {rest : Bytes} (h : readLine rest = []) : rest = [] := by
  rw [readLine, List.take_eq_nil_iff] at h
  rcases h with h | h
  · have hpos : 0 < min ((rest.takeWhile (· ≠ 10)).length + 1) (maxLine + 1) :=
      Nat.lt_min.mpr ⟨Nat.succ_pos _, Nat.succ_pos _⟩
    omega
  · exact h

theorem present_before {a b : ℕ} (hab : a ≤ b)
    (h : readLine (source.drop (endAfter source b)) ≠ []) :
    readLine (source.drop (endAfter source a)) ≠ [] := by
  intro hempty
  apply h
  have hend : source.length ≤ endAfter source a := List.drop_eq_nil_iff.mp (readLine_empty hempty)
  rw [List.drop_eq_nil_iff.mpr (le_trans hend (endAfter_mono hab))]
  rfl

theorem endAfter_lt {a b : ℕ} (hab : a < b)
    (h : readLine (source.drop (endAfter source (b - 1))) ≠ []) :
    endAfter source a < endAfter source b := by
  have hpresent := present_before (show a ≤ b - 1 by omega) h
  have hnext : endAfter source a < endAfter source (a + 1) := by
    rw [endAfter]
    exact Nat.lt_add_of_pos_right (List.length_pos_of_ne_nil hpresent)
  exact lt_of_lt_of_le hnext (endAfter_mono hab)

theorem Numbered.lt_iff {r' : Revision} {k' : ℕ} (h : Numbered id source r k)
    (h' : Numbered id source r' k') : r.offset < r'.offset ↔ k < k' := by
  rw [h.offset, h'.offset]
  constructor
  · intro hlt
    by_contra hle
    have := @endAfter_mono source (k' + 1) (k + 1) (by omega)
    omega
  · intro hlt
    exact endAfter_lt (by omega) h'.present

theorem Numbered.bound (h : Numbered id source r k) : 0 < r.version ∧ r.version < 2 ^ 63 := by
  have hversion := h.version
  have hrecord := h.record_range
  have hjob := h.job_range
  simp only [versionRange] at *
  omega

/-! One batch. -/

theorem readRecord_numbered {job : Job} {cursor : Cursor}
    (hplace : cursor.position = endAfter job.sourceHash cursor.count)
    (h : readRecord v job cursor = .ok (some r)) :
    Numbered job.id job.sourceHash r cursor.count := by
  simp only [readRecord, hplace] at h
  split at h
  · cases h
  rename_i hpresent
  split at h
  · cases h
  split at h
  · cases h
  rename_i hrange
  rw [not_or, not_le, not_le] at hrange
  split at h
  · cases h
  · cases h
    exact ⟨rfl, rfl, hpresent, hrange.1, hrange.2⟩

theorem nextRecord_numbered {job : Job} {cursor : Cursor}
    (hplaced : Placed job.id job.sourceHash cursor)
    (h : nextRecord v job cursor = .ok (some r)) :
    Numbered job.id job.sourceHash r cursor.count := by
  unfold Placed at hplaced
  unfold nextRecord at h
  cases hpending : cursor.pending with
  | none =>
    simp only [hpending] at hplaced h
    exact readRecord_numbered hplaced h
  | some ahead =>
    simp only [hpending] at hplaced h
    cases h
    exact hplaced

theorem add_records {builder added : BulkBatchBuilder} (h : builder.add v r = .ok (some added)) :
    added.records = builder.records ++ [r] := by
  unfold BulkBatchBuilder.add at h
  split at h
  · cases h
  split at h
  · cases h
  split at h
  · cases h
  · cases h
    rfl

/-- What the inner loop preserves: the handle is in its place, and the batch has numbered
records up to its end. -/
theorem fillBatch_placed {job : Job} {n : ℕ} {cursor next : Cursor}
    {builder filled : BulkBatchBuilder} {batchOffset last : Option ℕ}
    (hplaced : Placed job.id job.sourceHash cursor)
    (hbatch : ∀ r ∈ builder.records, ∃ k, Numbered job.id job.sourceHash r k)
    (hoffset : ∀ o, batchOffset = some o → o = endAfter job.sourceHash cursor.count)
    (h : fillBatch v job n cursor builder batchOffset = .ok (next, filled, last)) :
    Placed job.id job.sourceHash next ∧
      (∀ r ∈ filled.records, ∃ k, Numbered job.id job.sourceHash r k) ∧
      ∀ o, last = some o → o = endAfter job.sourceHash next.count := by
  induction n generalizing cursor builder batchOffset with
  | zero =>
    cases h
    exact ⟨hplaced, hbatch, hoffset⟩
  | succ n ih =>
    rw [fillBatch] at h
    split at h
    · cases h
    · cases h
      exact ⟨hplaced, hbatch, hoffset⟩
    · rename_i r hnext
      have hnumbered := nextRecord_numbered hplaced hnext
      split at h
      · cases h
      · cases h
        exact ⟨hnumbered, hbatch, hoffset⟩
      · rename_i added hadded
        refine ih ?_ ?_ ?_ h
        · exact hnumbered.offset
        · rw [add_records hadded]
          intro other hother
          rcases List.mem_append.mp hother with hother | hother
          · exact hbatch other hother
          · rw [List.mem_singleton.mp hother]
            exact ⟨cursor.count, hnumbered⟩
        · intro o ho
          cases ho
          exact hnumbered.offset

/-! The system. -/

theorem identity_mono {jobs more : List Job} {a : ℕ × Bytes} (h : a ∈ jobs.map identity) :
    a ∈ (jobs ++ more).map identity := by
  rw [List.map_append]
  exact List.mem_append_left _ h

theorem Consistent.source_eq (h : Consistent w) {source' : Bytes}
    (ha : (id, source) ∈ w.jobs.map identity) (hb : (id, source') ∈ w.jobs.map identity) :
    source = source' := by
  obtain ⟨a, hain, haeq⟩ := List.mem_map.mp ha
  obtain ⟨b, hbin, hbeq⟩ := List.mem_map.mp hb
  rw [identity, Prod.mk.injEq] at haeq hbeq
  have hnodup : (w.jobs.map Job.id).Nodup := h.ascending.imp fun hlt => ne_of_lt hlt
  obtain rfl := List.inj_on_of_nodup_map hnodup hain hbin (haeq.1.trans hbeq.1.symm)
  exact haeq.2.symm.trans hbeq.2

/-- Rows that are rewritten under their ids and manifests, each with its checkpoint. -/
theorem Consistent.rewrite (h : Consistent w) {change : Job → Job}
    (ht : t.jobs = w.jobs.map change) (hid : ∀ job, identity (change job) = identity job)
    (hcheckpoint : ∀ job ∈ w.jobs,
      (change job).byteOffset = endAfter job.sourceHash (change job).records)
    (hattempt : ∀ a, t.attempt = some a →
      identity a.job ∈ w.jobs.map identity ∧ InPhase a.job.id a.job.sourceHash a.phase)
    (hsequence : t.sequence = w.sequence) (hsent : t.sent = w.sent) : Consistent t := by
  have hids : t.jobs.map identity = w.jobs.map identity := by
    rw [ht, List.map_map]
    exact List.map_congr_left fun job _ => hid job
  have hkeys : t.jobs.map Job.id = w.jobs.map Job.id := by
    rw [ht, List.map_map]
    exact List.map_congr_left fun job _ => congrArg Prod.fst (hid job)
  constructor
  · rw [hkeys]
    exact h.ascending
  · intro job hjob
    rw [ht] at hjob
    obtain ⟨old, hold, rfl⟩ := List.mem_map.mp hjob
    rw [hsequence, show (change old).id = old.id from congrArg Prod.fst (hid old)]
    exact h.sequence old hold
  · intro job hjob
    rw [ht] at hjob
    obtain ⟨old, hold, rfl⟩ := List.mem_map.mp hjob
    rw [hcheckpoint old hold, show (change old).sourceHash = old.sourceHash from
      congrArg Prod.snd (hid old)]
  · intro a ha
    rw [hids]
    exact hattempt a ha
  · intro s hs
    rw [hids]
    exact h.sent s (hsent ▸ hs)

theorem Consistent.keep (h : Consistent w) (hjobs : t.jobs = w.jobs)
    (hsequence : t.sequence = w.sequence) (hattempt : ∀ a, t.attempt = some a →
      identity a.job ∈ w.jobs.map identity ∧ InPhase a.job.id a.job.sourceHash a.phase)
    (hsent : ∀ s ∈ t.sent, ∃ source, (s.jobId, source) ∈ w.jobs.map identity ∧
      ∃ k, Numbered s.jobId source s.revision k) : Consistent t := by
  constructor
  · rw [hjobs]
    exact h.ascending
  · rw [hjobs, hsequence]
    exact h.sequence
  · rw [hjobs]
    exact h.checkpoint
  · rw [hjobs]
    exact hattempt
  · rw [hjobs]
    exact hsent

theorem ensure_some {name config : Text} (h : ensure name config w = some t) :
    ∃ engine, t = { w with engine := engine } := by
  unfold ensure at h
  split at h
  · split at h
    · cases h
      exact ⟨_, rfl⟩
    · cases h
  · cases h
    exact ⟨_, rfl⟩

theorem claim_some {build generation rootId : Text} {mode : Mode} {base : Option Text} {job : Job}
    (h : claim build generation rootId source mode base w = some (t, job)) :
    (t = w ∧ job ∈ w.jobs) ∨
      t = { w with jobs := w.jobs ++ [job], sequence := w.sequence + 1 } ∧
        job.id = w.sequence + 1 ∧ job.byteOffset = 0 ∧ job.records = 0 := by
  unfold claim at h
  obtain ⟨root, _, h⟩ := Option.bind_eq_some_iff.mp h
  split at h
  · cases h
  split at h
  · rename_i existing hfind
    split at h
    · cases h
      exact .inl ⟨rfl, List.mem_reverse.mp (List.mem_of_find?_eq_some hfind)⟩
    · cases h
  · split at h
    · cases h
    · obtain ⟨name, _, h⟩ := Option.map_eq_some_iff.mp h
      cases h
      exact .inr ⟨rfl, rfl, rfl, rfl⟩

theorem Consistent.claim (h : Consistent w) (hnone : w.attempt = none)
    {build generation rootId : Text} {mode : Mode} {base : Option Text} {job : Job}
    (hclaim : claim build generation rootId source mode base w = some (t, job)) :
    Consistent t ∧ job ∈ t.jobs ∧ t.attempt = none := by
  rcases claim_some hclaim with ⟨rfl, hjob⟩ | ⟨rfl, hid, hoffset, hrecords⟩
  · exact ⟨h, hjob, hnone⟩
  · refine ⟨⟨?_, ?_, ?_, ?_, ?_⟩, by simp, hnone⟩
    · rw [List.map_append, List.pairwise_append]
      refine ⟨h.ascending, List.pairwise_singleton .., ?_⟩
      intro a ha b hb
      obtain ⟨old, hold, rfl⟩ := List.mem_map.mp ha
      rw [List.map_singleton, List.mem_singleton] at hb
      have := h.sequence old hold
      omega
    · intro other hother
      rcases List.mem_append.mp hother with hother | hother
      · exact le_trans (h.sequence other hother) (Nat.le_succ _)
      · rw [List.mem_singleton.mp hother]
        exact le_of_eq hid
    · intro other hother
      rcases List.mem_append.mp hother with hother | hother
      · exact h.checkpoint other hother
      · rw [List.mem_singleton.mp hother, hoffset, hrecords]
        rfl
    · intro a ha
      rw [show w.attempt = none from hnone] at ha
      cases ha
    · intro s hs
      obtain ⟨source, hsource, hnumbered⟩ := h.sent s hs
      exact ⟨source, identity_mono hsource, hnumbered⟩

theorem Consistent.begin (h : Consistent w) (hnone : w.attempt = none)
    {build generation rootId : Text} {mode : Mode} {base : Option Text}
    (hbegin : begin build generation rootId source mode base w = some t) : Consistent t := by
  obtain ⟨⟨claimed, job⟩, hclaim, hrest⟩ := Option.bind_eq_some_iff.mp hbegin
  obtain ⟨hclaimed, hjob, hidle⟩ := h.claim hnone hclaim
  have hin : identity job ∈ claimed.jobs.map identity := List.mem_map_of_mem hjob
  dsimp only at hrest
  split at hrest
  · cases hrest
    exact hclaimed
  split at hrest
  · cases hrest
    refine hclaimed.keep rfl rfl ?_ hclaimed.sent
    rintro a ⟨⟩
    exact ⟨hin, trivial⟩
  · obtain ⟨ensured, hensured, rfl⟩ := Option.map_eq_some_iff.mp hrest
    obtain ⟨engine, rfl⟩ := ensure_some hensured
    refine hclaimed.keep rfl rfl ?_ hclaimed.sent
    rintro a ⟨⟩
    exact ⟨hin, hclaimed.checkpoint job hjob⟩

theorem Consistent.phase (h : Consistent w) {job : Job} {before after : ArchiveImport.Phase}
    (hattempt : w.attempt = some ⟨job, before⟩)
    (hnow : t.attempt = w.attempt.map fun a => { a with phase := after })
    (hafter : InPhase job.id job.sourceHash after) (hjobs : t.jobs = w.jobs)
    (hsequence : t.sequence = w.sequence) (hsent : t.sent = w.sent) : Consistent t := by
  refine h.keep hjobs hsequence ?_ (hsent ▸ h.sent)
  intro a ha
  rw [hnow, hattempt] at ha
  cases ha
  exact ⟨(h.attempt _ hattempt).1, hafter⟩

theorem Consistent.idle (h : Consistent w) (hjobs : t.jobs = w.jobs)
    (hsequence : t.sequence = w.sequence) (hsent : t.sent = w.sent) (hnone : t.attempt = none) :
    Consistent t := by
  refine h.keep hjobs hsequence ?_ (hsent ▸ h.sent)
  intro a ha
  rw [hnone] at ha
  cases ha

theorem updateJob_identity {id : ℕ} {change : Job → Job} (hchange : ∀ job, identity (change job) =
    identity job) (job : Job) :
    identity (if job.id = id then change job else job) = identity job := by
  split
  · exact hchange job
  · rfl

theorem consistent_step {e : Event} (h : Consistent w) (hstep : step v w e = some t) :
    Consistent t := by
  cases e with
  | run build generation rootId source mode base =>
    simp only [step] at hstep
    split at hstep
    · rename_i hnone
      exact h.begin hnone hstep
    · cases hstep
  | fill =>
    simp only [step] at hstep
    split at hstep
    · rename_i job cursor hattempt
      split at hstep
      · cases hstep
        exact h.idle rfl rfl rfl rfl
      · rename_i next builder batchOffset hfill
        obtain ⟨hplaced, hbatch, hoffset⟩ := fillBatch_placed (h.attempt _ hattempt).2
          (by simp) (by simp) hfill
        split at hstep
        · split at hstep
          · cases hstep
            exact h.phase hattempt rfl trivial rfl rfl rfl
          · cases hstep
            exact h.idle rfl rfl rfl rfl
        · cases hstep
          exact h.phase hattempt rfl ⟨hbatch, hoffset _ rfl, hplaced⟩ rfl rfl rfl
        · cases hstep
    · cases hstep
  | bulk applied answered =>
    simp only [step] at hstep
    split at hstep
    · rename_i job batch offset cursor hattempt
      obtain ⟨hin, hbatch, hoffset, hplaced⟩ := h.attempt _ hattempt
      have hframe : (apply job.indexName (batch.take applied) w).jobs = w.jobs ∧
          (apply job.indexName (batch.take applied) w).sequence = w.sequence ∧
          (apply job.indexName (batch.take applied) w).attempt = w.attempt := by
        unfold apply
        split
        · exact ⟨rfl, rfl, rfl⟩
        · exact ⟨rfl, rfl, rfl⟩
      have hsent : ∀ s ∈ w.sent ++ batch.map fun r => (⟨job.id, r⟩ : Sent),
          ∃ source, (s.jobId, source) ∈ w.jobs.map identity ∧
            ∃ k, Numbered s.jobId source s.revision k := by
        intro s hs
        rcases List.mem_append.mp hs with hs | hs
        · exact h.sent s hs
        · obtain ⟨r, hr, rfl⟩ := List.mem_map.mp hs
          exact ⟨job.sourceHash, hin, hbatch r hr⟩
      split at hstep
      · split at hstep
        · cases hstep
          refine h.keep hframe.1 hframe.2.1 ?_ hsent
          intro a ha
          simp only [setPhase, hframe.2.2, hattempt, Option.map_some, Option.some.injEq] at ha
          subst ha
          exact ⟨hin, hoffset, hplaced⟩
        · cases hstep
      · cases hstep
        refine h.keep hframe.1 hframe.2.1 ?_ hsent
        intro a ha
        cases ha
    · cases hstep
  | checkpoint =>
    simp only [step] at hstep
    split at hstep
    · rename_i job offset cursor hattempt
      obtain ⟨hin, hoffset, hplaced⟩ := h.attempt _ hattempt
      cases hstep
      refine h.rewrite rfl (updateJob_identity fun _ => rfl) ?_ ?_ rfl rfl
      · intro row hrow
        split
        · rename_i hid
          have hsource : (job.id, row.sourceHash) ∈ w.jobs.map identity :=
            hid ▸ List.mem_map_of_mem hrow
          rw [h.source_eq hsource hin]
          exact hoffset
        · exact h.checkpoint row hrow
      · intro a ha
        have hnow : w.attempt.map (fun a => { a with phase := .reading cursor }) = some a := ha
        rw [hattempt] at hnow
        cases hnow
        exact ⟨hin, hplaced⟩
    · cases hstep
  | publish pitId =>
    simp only [step] at hstep
    split at hstep
    · rename_i job hattempt _
      obtain ⟨index, _, rfl⟩ := Option.map_eq_some_iff.mp hstep
      exact h.phase hattempt rfl trivial rfl rfl rfl
    · cases hstep
  | commit =>
    simp only [step] at hstep
    split at hstep
    · rename_i job pitId hattempt
      obtain ⟨u, hu, rfl⟩ := Option.map_eq_some_iff.mp hstep
      obtain ⟨root, _, hu⟩ := Option.bind_eq_some_iff.mp hu
      split at hu
      · cases hu
        exact h.phase hattempt rfl trivial rfl rfl rfl
      · cases hu
    · cases hstep
  | finish =>
    simp only [step] at hstep
    split at hstep
    · cases hstep
      refine h.rewrite rfl (updateJob_identity fun _ => rfl) ?_ ?_ rfl rfl
      · intro row hrow
        split
        · exact h.checkpoint row hrow
        · exact h.checkpoint row hrow
      · intro a ha
        cases ha
    · cases hstep
  | stop =>
    cases hstep
    exact h.idle rfl rfl rfl rfl
  | abort rootId =>
    simp only [step] at hstep
    split at hstep
    · rename_i hnone
      cases hstep
      refine h.rewrite rfl ?_ ?_ ?_ rfl rfl
      · intro job
        split
        · rfl
        · rfl
      · intro row hrow
        split
        · exact h.checkpoint row hrow
        · exact h.checkpoint row hrow
      · intro a ha
        rw [show w.attempt = some a from ha] at hnone
        cases hnone
    · cases hstep
  | restore rootId pitId generation =>
    simp only [step] at hstep
    split at hstep
    · rename_i hnone _
      obtain ⟨row, _, hstep⟩ := Option.bind_eq_some_iff.mp hstep
      obtain ⟨snapshot, _, hstep⟩ := Option.bind_eq_some_iff.mp hstep
      split at hstep
      · obtain ⟨index, _, rfl⟩ := Option.map_eq_some_iff.mp hstep
        exact h.idle rfl rfl rfl hnone
      · cases hstep
    · cases hstep
  | losePit pitId =>
    cases hstep
    exact h.keep rfl rfl h.attempt h.sent
  | configure rootId root =>
    cases hstep
    exact h.keep rfl rfl h.attempt h.sent

theorem run_consistent (h : Run v w) : Consistent w := by
  induction h with
  | start root index _ =>
    constructor
    · exact List.Pairwise.nil
    · intro job hjob
      cases hjob
    · intro job hjob
      cases hjob
    · intro a ha
      cases ha
    · intro s hs
      cases hs
  | step _ hstep ih => exact consistent_step ih hstep

/-- Revisions of 63 bits that follow the jobs and the records of each manifest, whatever the
batches, the stops and the resumptions. A record outside the range is not read. -/
theorem external_revisions (h : Run v w) :
    (∀ s ∈ w.sent, 0 < s.revision.version ∧ s.revision.version < 2 ^ 63) ∧
    (∀ s ∈ w.sent, ∀ s' ∈ w.sent, s.jobId = s'.jobId → s.revision.offset = s'.revision.offset →
      s.revision.version = s'.revision.version) ∧
    (∀ s ∈ w.sent, ∀ s' ∈ w.sent, s.jobId < s'.jobId ∨ s.jobId = s'.jobId ∧
      s.revision.offset < s'.revision.offset → s.revision.version < s'.revision.version) ∧
    (w.jobs.map Job.id).Pairwise (· < ·) ∧
    ∀ job cursor, readLine (job.sourceHash.drop cursor.position) ≠ [] →
      versionRange ≤ cursor.count + 1 ∨ 2 ^ 63 / versionRange - 1 ≤ job.id →
      ∃ e, readRecord v job cursor = .error e := by
  have hc := run_consistent h
  refine ⟨?_, ?_, ?_, hc.ascending, ?_⟩
  · intro s hs
    obtain ⟨source, _, k, hnumbered⟩ := hc.sent s hs
    exact hnumbered.bound
  · intro s hs s' hs' hjob hoffset
    obtain ⟨source, hin, k, hnumbered⟩ := hc.sent s hs
    obtain ⟨source', hin', k', hnumbered'⟩ := hc.sent s' hs'
    rw [← hjob] at hin' hnumbered'
    obtain rfl := hc.source_eq hin hin'
    have hk : k = k' := by
      rcases Nat.lt_trichotomy k k' with hlt | heq | hlt
      · have := (hnumbered.lt_iff hnumbered').mpr hlt
        omega
      · exact heq
      · have := (hnumbered'.lt_iff hnumbered).mpr hlt
        omega
    rw [hnumbered.version, hnumbered'.version, hk]
  · intro s hs s' hs' hlater
    obtain ⟨source, hin, k, hnumbered⟩ := hc.sent s hs
    obtain ⟨source', hin', k', hnumbered'⟩ := hc.sent s' hs'
    rw [hnumbered.version, hnumbered'.version]
    rcases hlater with hjob | ⟨hjob, hoffset⟩
    · have hrange := hnumbered.record_range
      have := Nat.mul_le_mul_right versionRange hjob
      rw [Nat.succ_mul] at this
      omega
    · rw [← hjob] at hin' hnumbered' ⊢
      obtain rfl := hc.source_eq hin hin'
      have := (hnumbered.lt_iff hnumbered').mp hoffset
      omega
  · intro job cursor hline hrange
    unfold readRecord
    dsimp only
    rw [if_neg hline]
    split
    · exact ⟨_, rfl⟩
    · exact ⟨_, rfl⟩

def play (v : Service) (es : List Event) (w : World) : Option World :=
  Scripts.play (fun _ _ => True) (step v) es w

theorem play_run {es : List Event} (h : Run v w) (hplay : play v es w = some t) : Run v t :=
  Scripts.play_keeps (Run v) (fun _ h _ hu => h.step hu) h hplay

def narrow : Service where
  batchSize := 2
  bulkTargetBytes := 10
  record := fun _ _ line => some ⟨line.map fun b => Char.ofNat b.toNat, none⟩
  encodedSize := fun _ _ => 6

/-- The first bulk request fails, and the next run sends its record again. -/
def resumed : List Event :=
  [.configure ['r'] ⟨true, ['c']⟩, .run ['b'] ['g'] ['r'] [97, 10, 98, 10] .full none, .fill,
    .bulk 0 false, .run ['x'] ['y'] ['r'] [97, 10, 98, 10] .full none, .fill, .bulk 1 true,
    .checkpoint, .fill, .bulk 1 true]

theorem external_revisions_resumed :
    ∃ w, play narrow resumed ⟨[], 0, ∅, ∅, ∅, ∅, none, []⟩ = some w ∧
      w.sent.map (·.revision.version) = [1000000001, 1000000001, 1000000002] ∧
      ∀ s ∈ w.sent, 0 < s.revision.version ∧ s.revision.version < 2 ^ 63 := by
  have hrun : (play narrow resumed ⟨[], 0, ∅, ∅, ∅, ∅, none, []⟩).any (fun w =>
      w.sent.map (·.revision.version) = [1000000001, 1000000001, 1000000002]) = true := by
    decide +kernel
  obtain ⟨w, hw, hversions⟩ := (Option.any_eq_true _ _).mp hrun
  exact ⟨w, hw, of_decide_eq_true hversions,
    (external_revisions (play_run (.start ∅ ∅ (by simp)) hw)).1⟩

end ImportVersions
