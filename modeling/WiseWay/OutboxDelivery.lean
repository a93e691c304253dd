import Mathlib.Data.List.Pairwise
import WiseWay.DeltaBases
import WiseWay.OutboxDrain
import WiseWay.Scripts

/-! # Moves are delivered in order

Rows leave the outbox after the delta that contains them has been published, and the rows of a
root in the order in which they were enqueued, whatever stops, fails or comes in between. -/
namespace OutboxDelivery

open Records ArchiveImport ImportVersions ArchiveManifests PublishedArchives ExactSnapshots
  PublishedExactly DeltaBases OutboxDrain

variable {o : Outbox} {s t : OutboxDrain.State} {history : List Job} {rootId : Text}

def ofRoot (rootId : Text) (rows : List Queued) : List Queued :=
  rows.filter (·.row.rootId = rootId)

theorem ofRoot_append (rows more : List Queued) :
    ofRoot rootId (rows ++ more) = ofRoot rootId rows ++ ofRoot rootId more :=
  List.filter_append ..

/-! The rows of a batch. -/

theorem prefix_withinPayload (used : ℕ) (rows : List Queued) :
    withinPayload o used rows <+: rows := by
  induction rows generalizing used with
  | nil => exact List.prefix_rfl
  | cons q rest ih =>
    rw [withinPayload]
    split
    · exact List.nil_prefix
    · exact (List.prefix_cons_inj q).mpr (ih _)

theorem collect_prefix (rows : List Queued) : collect o rootId rows <+: ofRoot rootId rows := by
  unfold collect
  split
  · exact List.nil_prefix
  · rename_i q rest htake
    refine List.IsPrefix.trans ?_ (List.take_prefix maxRows _)
    rw [ofRoot, htake]
    exact (List.prefix_cons_inj q).mpr (prefix_withinPayload _ _)

/-- The batch is made of the first rows of its root. -/
def Front (rootId : Text) (rows : List Queued) (batch : OutboxBatch) : Prop :=
  ∃ first more rest, ofRoot rootId rows = (first :: more) ++ rest ∧
    batch = newBatch batch.base first more

theorem Front.append {rows : List Queued} {batch : OutboxBatch} (h : Front rootId rows batch)
    (later : List Queued) : Front rootId (rows ++ later) batch := by
  obtain ⟨first, more, rest, hrows, hbatch⟩ := h
  refine ⟨first, more, rest ++ ofRoot rootId later, ?_, hbatch⟩
  rw [ofRoot_append, hrows, List.append_assoc]

theorem Front.congr {rows rows' : List Queued} {batch : OutboxBatch} (h : Front rootId rows batch)
    (hrows : ofRoot rootId rows' = ofRoot rootId rows) : Front rootId rows' batch := by
  obtain ⟨first, more, rest, hfront, hbatch⟩ := h
  exact ⟨first, more, rest, hrows.trans hfront, hbatch⟩

def Ascending (rows : List Queued) : Prop := rows.Pairwise fun a b => a.seq < b.seq

theorem seq_le_last {first q : Queued} {more : List Queued} (h : Ascending (first :: more))
    (hq : q ∈ first :: more) : q.seq ≤ ((first :: more).getLast (List.cons_ne_nil _ _)).seq := by
  have hle : (first :: more).Pairwise fun a b => a.seq ≤ b.seq := h.imp Nat.le_of_lt
  exact hle.rel_getLast_of_rel_getLast_getLast hq le_rfl

/-- The rows that an acknowledgement deletes are those of the batch. -/
theorem ofRoot_acknowledged {rows more rest : List Queued} {first : Queued}
    (hascending : Ascending rows) (hrows : ofRoot rootId rows = (first :: more) ++ rest) :
    ofRoot rootId (rows.filter fun q => ¬(q.row.rootId = rootId ∧ first.seq ≤ q.seq ∧
      q.seq ≤ ((first :: more).getLast (List.cons_ne_nil _ _)).seq)) = rest := by
  have hsorted : Ascending ((first :: more) ++ rest) := by
    rw [← hrows]
    exact hascending.sublist List.filter_sublist
  obtain ⟨hbatch, _, hacross⟩ := List.pairwise_append.mp hsorted
  have hroot : ∀ q ∈ (first :: more) ++ rest, q.row.rootId = rootId := by
    intro q hq
    rw [← hrows] at hq
    exact of_decide_eq_true (List.mem_filter.mp hq).2
  rw [ofRoot, List.filter_comm, ← ofRoot, hrows, List.filter_append]
  have hgone : (first :: more).filter (fun q => decide ¬(q.row.rootId = rootId ∧
      first.seq ≤ q.seq ∧ q.seq ≤ ((first :: more).getLast (List.cons_ne_nil _ _)).seq)) = [] := by
    rw [List.filter_eq_nil_iff]
    intro q hq
    have hfirst : first.seq ≤ q.seq := by
      rcases List.mem_cons.mp hq with rfl | hmore
      · exact le_rfl
      · exact Nat.le_of_lt ((List.pairwise_cons.mp hbatch).1 q hmore)
    simp [hroot q (List.mem_append_left _ hq), hfirst, seq_le_last hbatch hq]
  have hkept : rest.filter (fun q => decide ¬(q.row.rootId = rootId ∧
      first.seq ≤ q.seq ∧
      q.seq ≤ ((first :: more).getLast (List.cons_ne_nil _ _)).seq)) = rest := by
    rw [List.filter_eq_self]
    intro q hq
    have hlast := hacross _ (List.getLast_mem (List.cons_ne_nil first more)) q hq
    apply decide_eq_true
    rintro ⟨_, _, hle⟩
    omega
  rw [hgone, hkept, List.nil_append]

theorem ofRoot_other {rows : List Queued} {other : Text} (hne : rootId ≠ other) (first last : ℕ) :
    ofRoot rootId (rows.filter fun q => ¬(q.row.rootId = other ∧ first ≤ q.seq ∧ q.seq ≤ last)) =
      ofRoot rootId rows := by
  rw [ofRoot, List.filter_filter, ofRoot]
  apply List.filter_congr
  intro q _
  by_cases hroot : q.row.rootId = rootId
  · simp [hroot, hne]
  · simp [hroot]

/-! What is known of a run. -/

structure Imports (o : Outbox) (rootId : Text) (batch : OutboxBatch) (p : Job) : Prop where
  rootId : p.rootId = rootId
  source : p.sourceHash = manifest o batch.records
  mode : p.mode = .delta
  base : p.base = some batch.base

/-- Rows are numbered in the order in which they come. -/
structure Ledger (log rows : List Queued) (sequence : ℕ) : Prop where
  ascending : Ascending log
  counted : ∀ q ∈ log, q.seq ≤ sequence
  kept : rows.Sublist log

def Reached (o : Outbox) (w : World) (history : List Job) (d : Drain) : Prop :=
  match d.progress with
  | .saved => w.attempt = none
  | .importing => ∃ a, w.attempt = some a ∧ Imports o d.rootId d.batch (claimed a.job)
  | .imported => w.attempt = none ∧ ∃ p ∈ history, Imports o d.rootId d.batch p

def deltas (rootId : Text) (history : List Job) : List Job :=
  history.filter fun p => p.rootId = rootId ∧ p.mode = .delta

/-- The rows that have left the outbox are those of batches that have been published one after
the other, and a saved batch is published after all of them. -/
def Settled (o : Outbox) (rootId : Text) (s : OutboxDrain.State) (history : List Job) : Prop :=
  ∃ (earlier later : List Job) (delivered : List (List Queued)), history = earlier ++ later ∧
    ofRoot rootId s.log = delivered.flatten ++ ofRoot rootId s.rows ∧
    (delivered.map fun rows => manifest o (rows.map (·.row))).Sublist
      ((deltas rootId earlier).map (·.sourceHash)) ∧
    ∀ batch, s.batches[rootId]? = some batch → ∀ p ∈ earlier, ¬Imports o rootId batch p

structure Delivering (o : Outbox) (s : OutboxDrain.State) (history : List Job) : Prop where
  ledger : Ledger s.log s.rows s.sequence
  bases : Bases s.importer history
  front : ∀ (rootId : Text) batch, s.batches[rootId]? = some batch → Front rootId s.rows batch
  draining : ∀ d, s.draining = some d → s.batches[d.rootId]? = some d.batch ∧
    Reached o s.importer history d
  settled : ∀ rootId, Settled o rootId s history

theorem Settled.frame {more : List Job} (h : Settled o rootId s history) (later : List Queued)
    (hlog : ofRoot rootId t.log = ofRoot rootId s.log ++ later)
    (hrows : ofRoot rootId t.rows = ofRoot rootId s.rows ++ later)
    (hbatch : ∀ batch, t.batches[rootId]? = some batch → s.batches[rootId]? = some batch) :
    Settled o rootId t (history ++ more) := by
  obtain ⟨earlier, rest, delivered, hhistory, hall, hpublished, hsaved⟩ := h
  refine ⟨earlier, rest ++ more, delivered, ?_, ?_, hpublished, ?_⟩
  · rw [hhistory, List.append_assoc]
  · rw [hlog, hrows, hall, List.append_assoc]
  · intro batch hbatch'
    exact hsaved batch (hbatch batch hbatch')

theorem Settled.kept {more : List Job} (h : Settled o rootId s history) (hlog : t.log = s.log)
    (hrows : ofRoot rootId t.rows = ofRoot rootId s.rows)
    (hbatch : ∀ batch, t.batches[rootId]? = some batch → s.batches[rootId]? = some batch) :
    Settled o rootId t (history ++ more) := by
  refine Settled.frame h [] ?_ ?_ hbatch
  · rw [hlog, List.append_nil]
  · rw [hrows, List.append_nil]

theorem Settled.saved (h : Settled o rootId s history)
    (hlog : t.log = s.log) (hrows : t.rows = s.rows)
    (hnew : ∀ batch, t.batches[rootId]? = some batch → ∀ p ∈ history, ¬Imports o rootId batch p) :
    Settled o rootId t history := by
  obtain ⟨earlier, rest, delivered, hhistory, hall, hpublished, _⟩ := h
  refine ⟨history, [], delivered, (List.append_nil _).symm, ?_, ?_, hnew⟩
  · rw [hlog, hrows, hall]
  · refine hpublished.trans ?_
    rw [hhistory, deltas, deltas, List.filter_append, List.map_append]
    exact List.sublist_append_left ..

theorem Settled.acknowledged {first : Queued} {more rest : List Queued} {batch : OutboxBatch}
    (h : Settled o rootId s history) (hsaved : s.batches[rootId]? = some batch)
    (hrows : ofRoot rootId s.rows = (first :: more) ++ rest)
    (hbatch : batch = newBatch batch.base first more)
    {p : Job} (hp : p ∈ history) (himports : Imports o rootId batch p)
    (hlog : t.log = s.log) (hleft : ofRoot rootId t.rows = rest)
    (hnone : t.batches[rootId]? = none) : Settled o rootId t history := by
  obtain ⟨earlier, later, delivered, hhistory, hall, hpublished, hnew⟩ := h
  have hlater : p ∈ later := by
    rw [hhistory] at hp
    rcases List.mem_append.mp hp with hp | hp
    · exact absurd himports (hnew batch hsaved p hp)
    · exact hp
  refine ⟨history, [], delivered ++ [first :: more], (List.append_nil _).symm, ?_, ?_, ?_⟩
  · rw [hlog, hleft, hall, hrows, List.flatten_append, List.flatten_singleton, List.append_assoc]
  · rw [hhistory, deltas, List.filter_append, List.map_append, List.map_append]
    refine List.Sublist.append hpublished ?_
    have hdelta : p ∈ later.filter fun p => p.rootId = rootId ∧ p.mode = .delta :=
      List.mem_filter.mpr ⟨hlater, decide_eq_true ⟨himports.rootId, himports.mode⟩⟩
    have hmanifest : manifest o ((first :: more).map (·.row)) = p.sourceHash := by
      rw [himports.source, hbatch]
      rfl
    rw [List.map_singleton, hmanifest, List.singleton_sublist]
    exact List.mem_map_of_mem hdelta
  · intro batch' hbatch'
    rw [hnone] at hbatch'
    cases hbatch'

/-! One step. -/

theorem delivering_enqueue (h : Delivering o s history) (row : OutboxRow) :
    Delivering o (enqueue row s) history := by
  unfold enqueue
  split
  · exact h
  split
  · exact h
  · refine ⟨⟨?_, ?_, ?_⟩, h.bases, ?_, h.draining, ?_⟩
    · refine List.pairwise_append.mpr ⟨h.ledger.ascending, List.pairwise_singleton .., ?_⟩
      intro a ha b hb
      have := h.ledger.counted a ha
      rw [List.mem_singleton.mp hb]
      exact Nat.lt_succ_of_le this
    · intro q hq
      rcases List.mem_append.mp hq with hq | hq
      · exact Nat.le_succ_of_le (h.ledger.counted q hq)
      · rw [List.mem_singleton.mp hq]
    · exact h.ledger.kept.append (List.Sublist.refl _)
    · intro rootId batch hbatch
      exact (h.front rootId batch hbatch).append _
    · intro rootId
      rw [← List.append_nil history]
      refine Settled.frame (h.settled rootId) (ofRoot rootId [⟨s.sequence + 1, row⟩]) ?_ ?_
        fun _ hbatch => hbatch
      · exact ofRoot_append ..
      · exact ofRoot_append ..

theorem delivering_save (h : Delivering o s history) (hsave : save o rootId s = some t) :
    Delivering o t history := by
  obtain ⟨_, hattempt, hsaves⟩ := save_some hsave
  cases hsaves with
  | again batch hbatch ht =>
    subst ht
    refine ⟨h.ledger, h.bases, h.front, ?_, h.settled⟩
    rintro d ⟨⟩
    exact ⟨hbatch, hattempt⟩
  | anew current first rest hcurrent hstorage hnone hcollect ht =>
    subst ht
    refine ⟨h.ledger, h.bases, ?_, ?_, ?_⟩
    · intro other batch hbatch
      rw [get_put] at hbatch
      split at hbatch
      · rename_i hroot
        subst hroot
        cases hbatch
        have hprefix : collect o rootId s.rows <+: ofRoot rootId s.rows := collect_prefix s.rows
        obtain ⟨more, hmore⟩ := hprefix
        refine ⟨first, rest, more, ?_, rfl⟩
        rw [← hmore, hcollect]
      · exact h.front other batch hbatch
    · rintro d ⟨⟩
      refine ⟨?_, hattempt⟩
      rw [get_put, if_pos rfl]
    · intro other
      by_cases hroot : rootId = other
      · subst hroot
        refine Settled.saved (h.settled rootId) rfl rfl ?_
        intro batch hbatch p hp himports
        rw [get_put, if_pos rfl] at hbatch
        cases hbatch
        refine h.bases.left p hp himports.mode current ?_ himports.base
        rw [himports.rootId]
        exact hcurrent
      · rw [← List.append_nil history]
        refine Settled.kept (h.settled other) rfl rfl fun batch hbatch => ?_
        rw [get_put, if_neg hroot] at hbatch
        exact hbatch

theorem get_erase_some {batches : Table OutboxBatch} {erased k : Text} {batch : OutboxBatch}
    (h : (batches.erase erased)[k]? = some batch) : erased ≠ k ∧ batches[k]? = some batch := by
  rw [Std.ExtTreeMap.getElem?_erase] at h
  split at h
  · cases h
  · rename_i hne
    exact ⟨fun heq => hne (by simp [heq]), h⟩

theorem delivering_acknowledge (h : Delivering o s history) (hstep : acknowledge s = some t) :
    Delivering o t history := by
  obtain ⟨rootId, batch, hdraining, rfl⟩ := acknowledge_some hstep
  obtain ⟨hsaved, _, p, hp, himports⟩ := h.draining _ hdraining
  obtain ⟨first, more, rest, hrows, hbatch⟩ := h.front rootId batch hsaved
  have hascending : Ascending s.rows := h.ledger.ascending.sublist h.ledger.kept
  have hfirst : batch.first = first.seq := by rw [hbatch]; rfl
  have hlast : batch.last = ((first :: more).getLast (List.cons_ne_nil _ _)).seq := by
    rw [hbatch]
    rfl
  refine ⟨⟨h.ledger.ascending, h.ledger.counted, List.filter_sublist.trans h.ledger.kept⟩,
    h.bases, ?_, ?_, ?_⟩
  · intro other batch' hbatch'
    obtain ⟨hne, hheld⟩ := get_erase_some hbatch'
    exact (h.front other batch' hheld).congr (ofRoot_other hne.symm _ _)
  · rintro d ⟨⟩
  · intro other
    by_cases hroot : rootId = other
    · subst hroot
      refine Settled.acknowledged (h.settled rootId) hsaved hrows hbatch hp himports rfl ?_ ?_
      · rw [hfirst, hlast]
        exact ofRoot_acknowledged hascending hrows
      · simp
    · rw [← List.append_nil history]
      refine Settled.kept (h.settled other) rfl ?_ fun batch' hbatch' =>
        (get_erase_some hbatch').2
      exact ofRoot_other (Ne.symm hroot) _ _

theorem delivering_forget (h : Delivering o s history) (hdraining : s.draining = none)
    {batches : Table OutboxBatch} (hbatches : ∀ (k : Text) batch, batches[k]? = some batch →
      s.batches[k]? = some batch) :
    Delivering o { s with batches := batches } history := by
  refine ⟨h.ledger, h.bases, ?_, ?_, ?_⟩
  · intro rootId batch hbatch
    exact h.front rootId batch (hbatches rootId batch hbatch)
  · intro d hd
    rw [show s.draining = some d from hd] at hdraining
    cases hdraining
  · intro rootId
    rw [← List.append_nil history]
    exact Settled.kept (h.settled rootId) rfl rfl (hbatches rootId)

theorem forget_held {rootId k : Text} {batch : OutboxBatch}
    (h : (forget rootId s)[k]? = some batch) : s.batches[k]? = some batch := by
  unfold forget at h
  split at h
  · exact (get_erase_some h).2
  · exact h

theorem batchesAfter_held {e : ArchiveImport.Event} {k : Text} {batch : OutboxBatch}
    (h : (batchesAfter e s)[k]? = some batch) : s.batches[k]? = some batch := by
  unfold batchesAfter at h
  split at h
  · exact forget_held h
  · exact h

/-- The import of a batch is claimed for it, and a result from before is that of a published
import. -/
theorem claimed_imports {w u : World} {v : ArchiveImport.Service} {d : Drain}
    {build generation root : Text} {source : Bytes} {mode : Mode} {base : Option Text}
    (hexact : Exact v w history) (hnone : w.attempt = none)
    (hpermitted : Permitted o (some d) (.run build generation root source mode base))
    (hbegin : begin build generation root source mode base w = some u) :
    (u.attempt = none ∧ ∃ p ∈ history, Imports o d.rootId d.batch p) ∨
      ∃ a, u.attempt = some a ∧ Imports o d.rootId d.batch (claimed a.job) := by
  obtain ⟨_, hroot, hsource, hmode, hbase⟩ := hpermitted
  obtain ⟨t, job, hclaim, _, _, hphase⟩ := begin_cases hbegin
  have himports : Imports o d.rootId d.batch (claimed job) := by
    rcases claim_cases hclaim with ⟨_, hexisting⟩ | ⟨_, hstores⟩
    · obtain ⟨_, hr, hs, hm, hb, _⟩ := existingJob_some hexisting
      exact ⟨hr.trans hroot, hs.trans hsource, hm.trans hmode, hb.trans hbase⟩
    · exact ⟨hstores.ofRoot.trans hroot, hstores.ofSource.trans hsource,
        hstores.ofMode.trans hmode, (claim_base hclaim).trans hbase⟩
  rcases hphase with ⟨hpublished, hattempt⟩ | ⟨_, phase, hattempt⟩
  · refine .inl ?_
    rcases claim_cases hclaim with ⟨rfl, hexisting⟩ | ⟨_, hstores⟩
    · have hjob := (existingJob_some hexisting).1
      exact ⟨hattempt.trans hnone, claimed job, hexact.journal.published job hjob hpublished,
        himports⟩
    · rw [hstores.building] at hpublished
      cases hpublished
  · exact .inr ⟨_, hattempt, himports⟩

theorem finished_published {w u : World} {v : ArchiveImport.Service}
    (hexact : Exact v w history) (hc : Consistent w)
    (hstep : ArchiveImport.step v w .finish = some u) :
    u.attempt = none ∧ ∃ a, w.attempt = some a ∧ claimed a.job ∈ history := by
  simp only [ArchiveImport.step] at hstep
  split at hstep
  · rename_i job hattempt
    cases hstep
    have hunder := hexact.attempt _ hattempt
    obtain ⟨row, snapshot, hrow, hsnapshot, hgeneration⟩ := hunder.working
    obtain ⟨b, hb, hsame, _⟩ := hunder.row
    refine ⟨rfl, _, hattempt, ?_⟩
    rw [← hsame]
    exact (mem_inForce (Exact.named hexact hc hrow hsnapshot hb
      (hgeneration.trans (claimed_same hsame).generation.symm)).1).1
  · cases hstep

theorem reached_on {w u : World} {v : ArchiveImport.Service} {e : ArchiveImport.Event}
    {d d' : Drain} (hother : ∀ build generation root source mode base,
      e ≠ .run build generation root source mode base) (hprogress : d.progress = .importing)
    (hreached : Reached o w history d) (hstep : ArchiveImport.step v w e = some u)
    (hnext : (if u.attempt = none then none else some d) = some d') (more : List Job) :
    d' = d ∧ Reached o u (history ++ more) d := by
  split at hnext
  · cases hnext
  · rename_i hsome
    refine ⟨(Option.some.inj hnext).symm, ?_⟩
    unfold Reached at hreached ⊢
    rw [hprogress] at hreached ⊢
    obtain ⟨a, ha, himports⟩ := hreached
    obtain ⟨b, hb⟩ := Option.ne_none_iff_exists'.mp hsome
    obtain ⟨a', ha', hjob⟩ := attempt_job hother hstep hb
    obtain rfl := Option.some.inj (ha.symm.trans ha')
    refine ⟨b, hb, ?_⟩
    rw [← hjob]
    exact himports

theorem reached_kept {w u : World} {d : Drain} (h : Reached o w history d)
    (hattempt : u.attempt = w.attempt) (more : List Job) : Reached o u (history ++ more) d := by
  unfold Reached at h ⊢
  rw [hattempt]
  cases hprogress : d.progress with
  | saved =>
    rw [hprogress] at h
    exact h
  | importing =>
    rw [hprogress] at h
    exact h
  | imported =>
    rw [hprogress] at h
    obtain ⟨hnone, p, hp, himports⟩ := h
    exact ⟨hnone, p, List.mem_append_left _ hp, himports⟩

theorem reached_work {w u : World} {v : ArchiveImport.Service} {e : ArchiveImport.Event}
    {d d' : Drain} (hexact : Exact v w history) (hc : Consistent w)
    (hpermitted : Permitted o (some d) e) (hreached : Reached o w history d)
    (hstep : ArchiveImport.step v w e = some u) (hnext : advance e u d = some d') :
    d'.rootId = d.rootId ∧ d'.batch = d.batch ∧
      Reached o u (history ++ publication w e) d' := by
  cases e with
  | run build generation root source mode base =>
    have hsaved : d.progress = .saved := hpermitted.1
    cases hnext
    refine ⟨rfl, rfl, ?_⟩
    unfold Reached at hreached
    rw [hsaved] at hreached
    simp only [ArchiveImport.step, hreached] at hstep
    rw [publication_other (by simp), List.append_nil]
    rcases claimed_imports hexact hreached hpermitted hstep with ⟨hnone, hp⟩ | ⟨a, ha, himports⟩
    · rw [if_pos hnone]
      exact ⟨hnone, hp⟩
    · rw [if_neg (by simp [ha])]
      exact ⟨a, ha, himports⟩
  | finish =>
    cases hnext
    refine ⟨rfl, rfl, ?_⟩
    have hprogress := hpermitted
    obtain ⟨hnone, a, ha, hin⟩ := finished_published hexact hc hstep
    unfold Reached at hreached
    rw [hprogress] at hreached
    obtain ⟨b, hb, himports⟩ := hreached
    obtain rfl := Option.some.inj (hb.symm.trans ha)
    exact ⟨hnone, _, List.mem_append_left _ hin, himports⟩
  | losePit pitId =>
    cases hnext
    cases hstep
    exact ⟨rfl, rfl, reached_kept hreached rfl _⟩
  | configure root config =>
    cases hnext
    cases hstep
    exact ⟨rfl, rfl, reached_kept hreached rfl _⟩
  | stop =>
    cases hstep
    cases hnext
  | abort root => cases hpermitted
  | restore root pitId generation => cases hpermitted
  | _ =>
    obtain ⟨rfl, hon⟩ := reached_on (by simp) (hpermitted) hreached hstep hnext _
    exact ⟨rfl, rfl, hon⟩

theorem delivering_work {e : ArchiveImport.Event} (hbatch : 0 < o.importer.batchSize)
    (hrun : History o.importer s.importer history) (hdrawn : Drawn s (.work e))
    (h : Delivering o s history) (hstep : work o e s = some t) :
    Delivering o t (history ++ publication s.importer e) := by
  obtain ⟨hpermitted, u, hu, rfl⟩ := work_some hstep
  have hexact := history_exact hbatch hrun
  have hc := run_consistent hrun.run
  have hnew : NewBase s.importer e := by
    cases e with
    | run build generation rootId source mode base => exact hdrawn.2.1
    | restore rootId pitId generation => exact hdrawn.2.1
    | _ => trivial
  refine ⟨h.ledger, bases_step hexact hc h.bases hdrawn.1 hnew hu, ?_, ?_, ?_⟩
  · intro rootId batch hheld
    exact h.front rootId batch (batchesAfter_held hheld)
  · intro d' hd'
    obtain ⟨d, hd, hnext⟩ := Option.bind_eq_some_iff.mp hd'
    obtain ⟨hsaved, hreached⟩ := h.draining d hd
    rw [hd] at hpermitted
    obtain ⟨hroot, hsame, hreached'⟩ := reached_work hexact hc hpermitted hreached hu hnext
    refine ⟨?_, hreached'⟩
    rw [hroot, hsame]
    cases e with
    | abort root => cases hpermitted
    | _ => exact hsaved
  · intro rootId
    exact Settled.kept (h.settled rootId) rfl rfl fun _ hheld => batchesAfter_held hheld

theorem delivering_start (root : Table ArchiveImport.Root) (index : Table IndexRow)
    (storage : Table Services.IndexStorage) :
    Delivering o ⟨⟨[], 0, root, index, ∅, ∅, none, []⟩, storage, [], 0, ∅, none, []⟩ [] := by
  refine ⟨⟨List.Pairwise.nil, by simp, List.Sublist.refl _⟩, ⟨by simp, by simp⟩, by simp, by simp,
    ?_⟩
  intro rootId
  exact ⟨[], [], [], rfl, rfl, List.Sublist.refl _, by simp⟩

theorem delivery_delivering (hbatch : 0 < o.importer.batchSize) (h : Delivery o s history) :
    Delivering o s history := by
  induction h with
  | start root index storage _ => exact delivering_start root index storage
  | @step s t history e hrun hdrawn hstep ih =>
    cases e with
    | work e => exact delivering_work hbatch hrun.imports hdrawn ih hstep
    | enqueue row =>
      cases hstep
      rw [published_other (by simp), List.append_nil]
      exact delivering_enqueue ih row
    | save rootId =>
      rw [published_other (by simp), List.append_nil]
      exact delivering_save ih hstep
    | acknowledge =>
      rw [published_other (by simp), List.append_nil]
      exact delivering_acknowledge ih hstep
    | forget rootId =>
      obtain ⟨hdraining, _, rfl⟩ := forget_some hstep
      rw [published_other (by simp), List.append_nil]
      exact delivering_forget ih hdraining fun _ _ hheld => forget_held hheld
    | store rootId =>
      obtain rfl := store_some hstep
      rw [published_other (by simp), List.append_nil]
      exact ⟨ih.ledger, ih.bases, ih.front, ih.draining, ih.settled⟩

/-- The rows of a root that have left the outbox were published, one batch after the other, in
the order in which they were enqueued. -/
theorem delivered_in_order (hbatch : 0 < o.importer.batchSize) (h : Delivery o s history)
    (rootId : Text) :
    ∃ delivered : List (List Queued),
      ofRoot rootId s.log = delivered.flatten ++ ofRoot rootId s.rows ∧
      (delivered.map fun rows => manifest o (rows.map (·.row))).Sublist
        ((deltas rootId history).map (·.sourceHash)) := by
  obtain ⟨earlier, later, delivered, hhistory, hall, hpublished, _⟩ :=
    (delivery_delivering hbatch h).settled rootId
  refine ⟨delivered, hall, hpublished.trans ?_⟩
  rw [hhistory, deltas, deltas, List.filter_append, List.map_append]
  exact List.sublist_append_left ..

/-! A run. -/

/-- The steps, if there is one for each of the events and the names drawn are new. -/
def play (o : Outbox) (es : List OutboxDrain.Event) (s : OutboxDrain.State) (history : List Job) :
    Option (OutboxDrain.State × List Job) :=
  Scripts.playLogged Drawn (OutboxDrain.step o) published es s history

theorem play_run {es : List OutboxDrain.Event} {later : List Job} (h : Delivery o s history)
    (hplay : play o es s history = some (t, later)) : Delivery o t later :=
  Scripts.playLogged_keeps (Delivery o) (fun h hdrawn hu => h.step hdrawn hu) h hplay

/-- The record of a move has the first letters of its item and of its path. -/
def plainOutbox : Outbox where
  importer := plain
  line := fun row => (row.itemId.take 1 ++ row.relativePath.take 1).map
    (fun c => UInt8.ofNat c.toNat) ++ [10]
  bodyBytes := fun _ => 10

def emptyOutbox : OutboxDrain.State := ⟨empty, ∅, [], 0, ∅, none, []⟩

theorem emptyOutbox_delivery : Delivery plainOutbox emptyOutbox [] := .start ∅ ∅ ∅ (by simp)

def fullImport : List OutboxDrain.Event :=
  [.configure ['r'] ⟨true, ['c']⟩, .run ['i'] ['1'] ['r'] [97, 120, 10] .full none, .fill,
    .bulk 1 true, .checkpoint, .fill, .publish ['p'], .commit, .finish].map .work

def moved (key item path : Char) : OutboxDrain.Event :=
  .enqueue ⟨[key], ['r'], [item], [path], 1, 0⟩

/-- A batch of two moves. The first attempt to deliver it crashes after the publication, and a
third move comes in between. -/
def crashedDelivery : List OutboxDrain.Event :=
  fullImport ++ [moved 'k' 'b' 'y', moved 'l' 'c' 'z', .save ['r'],
    .work (.run ['j'] ['2'] ['r'] [98, 121, 10, 99, 122, 10] .delta (some ['1'])), .work .fill,
    .work (.bulk 2 true), .work .checkpoint, .work .fill, .work (.publish ['q']), .work .commit,
    .work .stop, moved 'm' 'd' 'w', .save ['r'],
    .work (.run ['h'] ['3'] ['r'] [98, 121, 10, 99, 122, 10] .delta (some ['1'])), .work .finish,
    .acknowledge]

/-- The first two moves have been delivered by one import, and the third one is still there. -/
theorem delivered_after_crash :
    ∃ s history, Delivery plainOutbox s history ∧ s.log.length = 3 ∧ s.rows.length = 1 ∧
      (deltas ['r'] history).length = 1 ∧ ∃ delivered : List (List Queued),
        ofRoot ['r'] s.log = delivered.flatten ++ ofRoot ['r'] s.rows ∧
        (delivered.map fun rows => manifest plainOutbox (rows.map (·.row))).Sublist
          ((deltas ['r'] history).map (·.sourceHash)) := by
  have hrun : (play plainOutbox crashedDelivery emptyOutbox []).any (fun s =>
      s.1.log.length = 3 ∧ s.1.rows.length = 1 ∧ (deltas ['r'] s.2).length = 1) = true := by
    decide +kernel
  obtain ⟨⟨s, history⟩, hplay, hend⟩ := (Option.any_eq_true _ _).mp hrun
  obtain ⟨hlog, hrows, hdeltas⟩ := of_decide_eq_true hend
  have hdelivery := play_run emptyOutbox_delivery hplay
  exact ⟨s, history, hdelivery, hlog, hrows, hdeltas,
    delivered_in_order (by decide) hdelivery ['r']⟩

end OutboxDelivery
