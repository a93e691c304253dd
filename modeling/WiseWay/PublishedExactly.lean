import WiseWay.ExactSnapshots
import WiseWay.Scripts

/-! # Runs of the importer

Every step keeps what is known of the journal, the rows, the engine and the points in time. -/
namespace PublishedExactly

open Records ArchiveImport ImportVersions LastWriters ArchiveManifests PublishedArchives
  ExactSnapshots

variable {v : Service} {w t : World} {history : List Job} {job : Job}

theorem Exact.idle (h : Exact v w history) (hjobs : t.jobs = w.jobs) (hindex : t.index = w.index)
    (hengine : t.engine = w.engine) (hpits : t.pits = w.pits) (hnone : t.attempt = none) :
    Exact v t history := by
  constructor
  · rw [hjobs]
    exact h.journal
  · rw [hjobs, hindex]
    exact h.rows
  · rw [hjobs, hengine]
    exact h.delivered
  · rw [hindex, hpits]
    exact h.pinned
  · intro a ha
    rw [hnone] at ha
    cases ha

theorem Exact.phase (h : Exact v w history) {before after : ArchiveImport.Phase}
    (hattempt : w.attempt = some ⟨job, before⟩) (hbefore : before ≠ .committed)
    (hworking : Working v w history job after) :
    Exact v (setPhase after w) history := by
  refine ⟨h.journal, h.rows, h.delivered, h.pinned, ?_⟩
  intro a ha
  have hunder := h.attempt _ hattempt
  rw [setPhase, hattempt] at ha
  cases ha
  exact ⟨hunder.row, fun _ => hunder.index hbefore, fun _ => hunder.unpublished hbefore, hworking⟩

/-! Claiming. -/

theorem Delivered.append {jobs : List Job} {docs : Text → Table Stored}
    (h : Delivered v jobs docs history) (hunread : job.records = 0) :
    Delivered v (jobs ++ [job]) docs history := by
  refine ⟨?_, ?_, h.whole⟩
  · intro name key version doc hkey
    obtain ⟨a, ha, hwrite⟩ := h.written name key version doc hkey
    exact ⟨a, List.mem_append_left _ ha, hwrite⟩
  · intro a ha
    rcases List.mem_append.mp ha with ha | ha
    · exact h.checkpoint a ha
    · rw [List.mem_singleton.mp ha, hunread]
      intro k hk
      omega

theorem Stores.index_published (h : Exact v w history) {build generation rootId : Text}
    {source : Bytes} {mode : Mode} {base : Option Text}
    (hfresh : ∀ a ∈ w.jobs, a.indexName ≠ build ∧ a.generation ≠ generation)
    (hstores : Stores w build generation rootId source mode base job) {a : Job} (ha : a ∈ w.jobs)
    (hname : a.indexName = job.indexName) :
    a.rootId = job.rootId ∧ job.mode = .delta ∧ a.state = .published := by
  cases hmode : mode with
  | full => exact absurd (hname.trans (hstores.built hmode)) (hfresh a ha).1
  | delta =>
    obtain ⟨row, snapshot, hdelta⟩ := hstores.based hmode
    have hindex : a.indexName = snapshot.indexName := hname.trans hdelta.named.symm
    have hroot := h.rows.root_eq h.journal hdelta.found hdelta.stored ha hindex
    refine ⟨hroot.trans hstores.ofRoot.symm, hstores.ofMode.trans hmode, ?_⟩
    cases hstate : a.state with
    | building => exact absurd hstate (hstores.idle a ha hroot)
    | published => rfl
    | aborted => exact absurd ⟨hindex, hstate⟩ (hdelta.clean a ha)

theorem Exact.claim (h : Exact v w history) (hc : Consistent w) (hnone : w.attempt = none)
    {build generation rootId : Text} {source : Bytes} {mode : Mode} {base : Option Text}
    (hfresh : Fresh w (.run build generation rootId source mode base))
    (hclaim : claim build generation rootId source mode base w = some (t, job)) :
    Exact v t history ∧ job ∈ t.jobs ∧ job.rootId = rootId ∧ job.state ≠ .aborted ∧
      t.index = w.index ∧ t.attempt = none := by
  rcases claim_cases hclaim with ⟨rfl, hexisting⟩ | ⟨rfl, hstores⟩
  · obtain ⟨hjob, hroot, _, _, _, hstate⟩ := existingJob_some hexisting
    exact ⟨h, hjob, hroot, hstate, rfl, hnone⟩
  · have hid : ∀ a ∈ w.jobs, a.id < job.id := by
      intro a ha
      have := hc.sequence a ha
      rw [hstores.numbered]
      omega
    have hnew : claimed job ∉ history := by
      intro hin
      obtain ⟨a, ha, hsame⟩ := List.mem_map.mp (h.journal.journaled _ hin)
      have := hid a ha
      rw [(claimed_same hsame).id] at this
      omega
    refine ⟨⟨?_, ?_, ?_, h.pinned, ?_⟩, by simp, hstores.ofRoot, ?_, rfl, hnone⟩
    · apply h.journal.append
      · intro a ha
        exact Nat.le_of_lt (hid a ha)
      · intro a ha hroot
        exact hstores.idle a ha (hroot.trans hstores.ofRoot)
      · intro a ha
        rw [hstores.drawn]
        exact (hfresh.1 a ha).2
      · exact hstores.building
      · intro a ha hname
        exact Stores.index_published h hfresh.1 hstores ha hname
    · apply h.rows.append hstores.building hnew
      · intro hmode
        obtain ⟨row, snapshot, hdelta⟩ := hstores.based (hstores.ofMode.symm.trans hmode)
        exact ⟨row, snapshot, hstores.ofRoot ▸ hdelta.found, hdelta.stored, hdelta.named⟩
      · intro other row hrow
        rw [hstores.drawn]
        exact hfresh.2 row (mem_list.mpr ⟨other, hrow⟩)
    · exact Delivered.append h.delivered hstores.unread
    · intro a ha
      rw [show w.attempt = none from hnone] at ha
      cases ha
    · rw [hstores.building]
      exact JobState.noConfusion

/-- Where the handle of a claimed job starts, the engine has all records before it. -/
theorem Exact.begin (h : Exact v w history) (hc : Consistent w) (hnone : w.attempt = none)
    {build generation rootId : Text} {source : Bytes} {mode : Mode} {base : Option Text}
    (hfresh : Fresh w (.run build generation rootId source mode base))
    (hbegin : begin build generation rootId source mode base w = some t) :
    Exact v t history := by
  obtain ⟨⟨u, job⟩, hclaim, hrest⟩ := Option.bind_eq_some_iff.mp hbegin
  obtain ⟨hu, hjob, hroot, hlive, hindex, _⟩ := Exact.claim h hc hnone hfresh hclaim
  dsimp only at hrest
  split at hrest
  · cases hrest
    exact hu
  rename_i hstate
  have hbuilding : job.state = .building := by
    cases hjobstate : job.state with
    | building => rfl
    | published => exact absurd hjobstate hstate
    | aborted => exact absurd hjobstate hlive
  split at hrest
  · rename_i hcommitted
    cases hrest
    refine ⟨hu.journal, hu.rows, hu.delivered, hu.pinned, ?_⟩
    rintro a ⟨⟩
    refine ⟨⟨job, hjob, rfl, hbuilding⟩, fun hne => absurd rfl hne, fun hne => absurd rfl hne, ?_⟩
    obtain ⟨snapshot, hsnapshot, hgeneration⟩ := Option.map_eq_some_iff.mp hcommitted
    obtain ⟨row, hrow, hstorage⟩ := Option.bind_eq_some_iff.mp hsnapshot
    refine ⟨row, snapshot, ?_, hstorage, hgeneration⟩
    rw [hroot, hindex]
    exact hrow
  · rename_i hopen
    obtain ⟨ensured, hensured, rfl⟩ := Option.map_eq_some_iff.mp hrest
    obtain ⟨hdocs, hengine⟩ := ensure_docsOf hensured
    obtain ⟨engine, rfl⟩ := ensure_some hensured
    refine ⟨hu.journal, hu.rows, ?_, hu.pinned, ?_⟩
    · rw [hdocs]
      exact hu.delivered
    · rintro a ⟨⟩
      refine ⟨⟨job, hjob, rfl, hbuilding⟩, fun _ => hengine, fun _ => ?_, ?_⟩
      · intro hin
        obtain ⟨row, snapshot, hrow, hsnapshot, _, hgeneration⟩ :=
          hu.rows.committed job hjob hbuilding hin
        rw [hroot, hindex] at hrow
        apply hopen
        rw [hrow, Option.bind_some, hsnapshot, Option.map_some, hgeneration]
      · refine ⟨?_, fun r hr => by cases hr⟩
        rw [hdocs]
        exact hu.delivered.checkpoint job hjob

/-! Sending. -/

theorem Exact.fill (h : Exact v w history) (hc : Consistent w) (hbatch : 0 < v.batchSize)
    (hstep : step v w .fill = some t) : Exact v t history := by
  simp only [step] at hstep
  split at hstep
  · rename_i job cursor hattempt
    have hplaced := (hc.attempt _ hattempt).2
    have hunder := h.attempt _ hattempt
    obtain ⟨hreached, hahead⟩ := hunder.working
    split at hstep
    · cases hstep
      exact Exact.idle h rfl rfl rfl rfl rfl
    · rename_i next builder batchOffset hfill
      split at hstep
      · rename_i hempty
        split at hstep
        · cases hstep
          refine Exact.phase h hattempt (by simp) ⟨cursor.count, ?_, hreached⟩
          exact fillBatch_ended hplaced hbatch hahead hfill hempty
        · cases hstep
          exact Exact.idle h rfl rfl rfl rfl rfl
      · cases hstep
        have hstart : Filled v job cursor.count cursor ⟨[], 0⟩ :=
          ⟨le_rfl, fun k hk hlt => absurd hlt (Nat.not_lt.mpr hk), by simp, hahead⟩
        have hfilled := (fillBatch_filled hplaced hstart hfill).1
        refine Exact.phase h hattempt (by simp) ⟨?_, hfilled.only, hfilled.ahead⟩
        intro k hk
        rcases Nat.lt_or_ge k cursor.count with hlt | hge
        · obtain ⟨r, hr, hseen⟩ := hreached k hlt
          exact ⟨r, hr, .inl hseen⟩
        · obtain ⟨r, hr, hread⟩ := hfilled.all k hge hk
          exact ⟨r, hread, .inr hr⟩
      · cases hstep
  · cases hstep

/-- The engine takes revisions of a job of this index. -/
theorem Delivered.apply {jobs : List Job} {engine : Table EngineIndex} {index : EngineIndex}
    {batch : List Revision} (h : Delivered v jobs (docsOf engine) history)
    (hindex : engine[job.indexName]? = some index)
    (hrow : ∃ a ∈ jobs, claimed a = claimed job ∧ a.state = .building)
    (hreads : ∀ r ∈ batch, ∃ k, Reads v job k r) :
    Delivered v jobs
      (docsOf (engine.insert job.indexName { index with docs := batch.foldl put index.docs }))
      history := by
  have hdocs : docsOf engine job.indexName = index.docs := by rw [docsOf, hindex]
  have hgrows : ∀ name, Grows (docsOf engine name) (docsOf (engine.insert job.indexName
      { index with docs := batch.foldl put index.docs }) name) := by
    intro name
    rw [docsOf_insert]
    split
    · rename_i hname
      rw [← hname, hdocs]
      exact grows_puts _ _
    · exact fun _ hseen => hseen
  constructor
  · intro name
    rw [docsOf_insert]
    split
    · rename_i hname
      subst hname
      rw [storeOf_puts]
      apply From.writes
      · rw [← hdocs]
        exact h.written job.indexName
      · intro write hwrite
        obtain ⟨r, hr, rfl⟩ := List.mem_map.mp hwrite
        obtain ⟨k, hread⟩ := hreads r hr
        obtain ⟨a, ha, hsame, _⟩ := hrow
        exact ⟨a, ha, (claimed_same hsame).name, k, r, Reads.same hsame.symm hread, rfl⟩
    · exact h.written name
  · intro a ha
    exact Reached.mono (h.checkpoint a ha) (hgrows _)
  · intro p hp
    exact Whole.mono (h.whole p hp) (hgrows _)

theorem Exact.bulk (h : Exact v w history) {applied : ℕ} {answered : Bool}
    (hstep : step v w (.bulk applied answered) = some t) : Exact v t history := by
  simp only [step] at hstep
  split at hstep
  · rename_i job batch offset cursor hattempt
    have hunder := h.attempt _ hattempt
    obtain ⟨hall, honly, hahead⟩ := hunder.working
    obtain ⟨index, hindex⟩ := hunder.index (by simp)
    simp only [ArchiveImport.apply, hindex] at hstep
    have hdelivered := Delivered.apply h.delivered hindex hunder.row
      fun r hr => honly r (List.take_subset applied batch hr)
    split at hstep
    · split at hstep
      · rename_i hlength
        cases hstep
        refine ⟨h.journal, h.rows, hdelivered, h.pinned, ?_⟩
        intro a ha
        simp only [setPhase, hattempt, Option.map_some, Option.some.injEq] at ha
        subst ha
        refine ⟨hunder.row, fun _ => ⟨_, (get_put ..).trans (if_pos rfl)⟩,
          fun _ => hunder.unpublished (by simp), ?_, hahead⟩
        intro k hk
        obtain ⟨r, hread, hseen⟩ := hall k hk
        refine ⟨r, hread, ?_⟩
        simp only [setPhase, docsOf_insert, if_true, List.take_of_length_le hlength]
        rw [storeOf_puts]
        rcases hseen with hseen | hr
        · rw [docsOf, hindex] at hseen
          exact seen_writes (.inl hseen)
        · exact seen_writes (.inr (List.mem_map_of_mem hr))
      · cases hstep
    · cases hstep
      refine ⟨h.journal, h.rows, hdelivered, h.pinned, ?_⟩
      intro a ha
      cases ha
  · cases hstep

/-! The journal. -/

theorem row_unique (hc : Consistent w) {a b : Job} (ha : a ∈ w.jobs) (hb : b ∈ w.jobs)
    (h : a.id = b.id) : a = b := by
  have hnodup : (w.jobs.map Job.id).Nodup := hc.ascending.imp fun hlt => ne_of_lt hlt
  exact List.inj_on_of_nodup_map hnodup ha hb h

theorem Delivered.rewrite {jobs : List Job} {docs : Text → Table Stored} {change : Job → Job}
    (h : Delivered v jobs docs history) (hclaimed : ∀ a, claimed (change a) = claimed a)
    (hcheckpoint : ∀ a ∈ jobs, Reached v (docs a.indexName) a (change a).records) :
    Delivered v (jobs.map change) docs history := by
  refine ⟨?_, ?_, h.whole⟩
  · intro name key version doc hkey
    obtain ⟨a, ha, hname, k, r, hread, hwrite⟩ := h.written name key version doc hkey
    exact ⟨change a, List.mem_map_of_mem ha, (claimed_same (hclaimed a)).name.trans hname, k, r,
      Reads.same (hclaimed a).symm hread, hwrite⟩
  · simp only [List.forall_mem_map]
    intro a ha
    rw [(claimed_same (hclaimed a)).name]
    exact Reached.same (hclaimed a).symm (hcheckpoint a ha)

theorem Exact.checkpoint (h : Exact v w history) (hc : Consistent w)
    (hstep : step v w .checkpoint = some t) : Exact v t history := by
  simp only [step] at hstep
  split at hstep
  · rename_i job offset cursor hattempt
    have hunder := h.attempt _ hattempt
    obtain ⟨hreached, hahead⟩ := hunder.working
    obtain ⟨b, hb, hsame, hbuilding⟩ := hunder.row
    cases hstep
    let change : Job → Job := fun row =>
      if row.id = job.id then { row with byteOffset := offset, records := cursor.count } else row
    have hclaimed : ∀ a, claimed (change a) = claimed a := by
      intro a
      unfold change
      split <;> rfl
    have hstate : ∀ a, (change a).state = a.state := by
      intro a
      unfold change
      split <;> rfl
    refine ⟨?_, ?_, ?_, h.pinned, ?_⟩
    · apply h.journal.rewrite hclaimed
      · intro a _ hbuilt
        exact (hstate a).symm.trans hbuilt
      · intro a _ hpublished
        exact (hstate a).trans hpublished
      · intro a ha hpublished
        exact h.journal.published a ha ((hstate a).symm.trans hpublished)
    · apply h.rows.rewrite hclaimed
      · intro a _ hbuilt
        exact (hstate a).symm.trans hbuilt
      · intro a _ hpublished
        exact .inl ((hstate a).symm.trans hpublished)
      · intro rootId row snapshot hrow hsnapshot a ha
        exact h.rows.root_eq h.journal hrow hsnapshot ha
    · apply Delivered.rewrite h.delivered hclaimed
      intro a ha
      unfold change
      split
      · rename_i hid
        obtain rfl := row_unique hc ha hb (hid.trans (claimed_same hsame).id.symm)
        rw [(claimed_same hsame).name]
        exact Reached.same hsame.symm hreached
      · exact h.delivered.checkpoint a ha
    · intro a ha
      have hnow : w.attempt.map (fun a => { a with phase := .reading cursor }) = some a := ha
      rw [hattempt] at hnow
      cases hnow
      exact ⟨⟨change b, List.mem_map_of_mem hb, (hclaimed b).trans hsame,
          (hstate b).trans hbuilding⟩, fun _ => hunder.index (by simp),
        fun _ => hunder.unpublished (by simp), hreached, hahead⟩
  · cases hstep

theorem Exact.named (h : Exact v w history) (hc : Consistent w) {rootId : Text} {row : IndexRow}
    {snapshot : Snapshot} (hrow : w.index[rootId]? = some row)
    (hsnapshot : row.storage = some snapshot) {a : Job} (ha : a ∈ w.jobs)
    (hgeneration : snapshot.importGeneration = a.generation) :
    claimed a ∈ inForce rootId history ∧ a.indexName = snapshot.indexName := by
  have hshows := h.rows.shows rootId row snapshot hrow hsnapshot
  obtain ⟨p, hp, hlast⟩ := hshows.mem_last
  obtain ⟨b, hb, rfl⟩ := List.mem_map.mp (h.journal.journaled p (mem_inForce hp).1)
  obtain rfl := row_unique hc hb ha
    (h.journal.generation b hb a ha (hlast.trans hgeneration))
  exact ⟨hp, hshows.name (claimed b) hp⟩

theorem Exact.finish (h : Exact v w history) (hc : Consistent w)
    (hstep : step v w .finish = some t) : Exact v t history := by
  simp only [step] at hstep
  split at hstep
  · rename_i job hattempt
    have hunder := h.attempt _ hattempt
    obtain ⟨row, snapshot, hrow, hsnapshot, hgeneration⟩ := hunder.working
    obtain ⟨b, hb, hsame, hbuilding⟩ := hunder.row
    have hforced : claimed b ∈ inForce b.rootId history := by
      rw [(claimed_same hsame).rootId]
      exact (Exact.named h hc hrow hsnapshot hb
        (hgeneration.trans (claimed_same hsame).generation.symm)).1
    cases hstep
    let change : Job → Job := fun row =>
      if row.id = job.id then { row with state := .published } else row
    have hclaimed : ∀ a, claimed (change a) = claimed a := by
      intro a
      unfold change
      split <;> rfl
    have hcases : ∀ a ∈ w.jobs, a = b ∧ (change a).state = .published ∨ change a = a := by
      intro a ha
      unfold change
      split
      · rename_i hid
        exact .inl ⟨row_unique hc ha hb (hid.trans (claimed_same hsame).id.symm), rfl⟩
      · exact .inr rfl
    have hbuilt : ∀ a ∈ w.jobs, (change a).state = .building → a.state = .building := by
      intro a ha hstate
      rcases hcases a ha with ⟨_, hpublished⟩ | hkept
      · rw [hpublished] at hstate
        cases hstate
      · rw [hkept] at hstate
        exact hstate
    refine ⟨?_, ?_, ?_, h.pinned, ?_⟩
    · apply h.journal.rewrite hclaimed hbuilt
      · intro a ha hstate
        rcases hcases a ha with ⟨_, hpublished⟩ | hkept
        · exact hpublished
        · rw [hkept]
          exact hstate
      · intro a ha hstate
        rcases hcases a ha with ⟨rfl, _⟩ | hkept
        · exact (mem_inForce hforced).1
        · rw [hkept] at hstate
          exact h.journal.published a ha hstate
    · apply h.rows.rewrite hclaimed hbuilt
      · intro a ha hstate
        rcases hcases a ha with ⟨rfl, _⟩ | hkept
        · refine .inr ⟨row, snapshot, ?_, hsnapshot, hforced⟩
          rw [(claimed_same hsame).rootId]
          exact hrow
        · rw [hkept] at hstate
          exact .inl hstate
      · intro rootId row snapshot hrow hsnapshot a ha
        exact h.rows.root_eq h.journal hrow hsnapshot ha
    · apply Delivered.rewrite h.delivered hclaimed
      intro a ha
      have hrecords : (change a).records = a.records := by
        unfold change
        split <;> rfl
      rw [hrecords]
      exact h.delivered.checkpoint a ha
    · intro a ha
      cases ha
  · cases hstep

theorem Exact.abort (h : Exact v w history) {rootId : Text}
    (hstep : step v w (.abort rootId) = some t) : Exact v t history := by
  simp only [step] at hstep
  split at hstep
  · rename_i hnone
    cases hstep
    let change : Job → Job := fun job =>
      if job.rootId = rootId ∧ job.state = .building then { job with state := .aborted } else job
    have hclaimed : ∀ a, claimed (change a) = claimed a := by
      intro a
      unfold change
      split <;> rfl
    have hbuilt : ∀ a ∈ w.jobs, (change a).state = .building → a.state = .building := by
      intro a _ hstate
      unfold change at hstate
      split at hstate
      · cases hstate
      · exact hstate
    have hpublished : ∀ a ∈ w.jobs, (change a).state = .published → a.state = .published := by
      intro a _ hstate
      unfold change at hstate
      split at hstate
      · cases hstate
      · exact hstate
    refine ⟨?_, ?_, ?_, h.pinned, ?_⟩
    · apply h.journal.rewrite hclaimed hbuilt
      · intro a _ hstate
        unfold change
        split
        · rename_i hunfinished
          rw [hstate] at hunfinished
          cases hunfinished.2
        · exact hstate
      · intro a ha hstate
        exact h.journal.published a ha (hpublished a ha hstate)
    · apply h.rows.rewrite hclaimed hbuilt
      · intro a ha hstate
        exact .inl (hpublished a ha hstate)
      · intro rootId row snapshot hrow hsnapshot a ha
        exact h.rows.root_eq h.journal hrow hsnapshot ha
    · apply Delivered.rewrite h.delivered hclaimed
      intro a ha
      have hrecords : (change a).records = a.records := by
        unfold change
        split <;> rfl
      rw [hrecords]
      exact h.delivered.checkpoint a ha
    · intro a ha
      rw [show w.attempt = some a from ha] at hnone
      cases hnone
  · cases hstep

/-! Publication. -/

theorem Exact.shows_next (h : Exact v w history) (hc : Consistent w) {b : Job} (hb : b ∈ w.jobs)
    (hsame : claimed b = claimed job) (hbuilding : b.state = .building)
    (hnew : claimed job ∉ history) (pitId : Text) :
    Shows w.jobs (inForce job.rootId (history ++ [claimed job]))
      ⟨job.indexName, pitId, searchFormat, job.generation⟩ := by
  have hfields := claimed_same hsame
  have hroot : (claimed job).rootId = job.rootId := rfl
  rw [inForce_append, if_neg (not_not.mpr hroot)]
  by_cases hmode : job.mode = .full
  · rw [if_pos (show (claimed job).mode = .full from hmode)]
    refine ⟨rfl, ?_, ⟨[], claimed job, rfl, rfl⟩, ?_, List.pairwise_singleton ..,
      claimed job, [], rfl, hmode, by simp⟩
    · intro p hp
      rw [List.mem_singleton.mp hp]
      rfl
    · intro a ha hpublished hname
      rcases h.journal.alone b hb hbuilding a ha (hname.trans hfields.name.symm) with
        hid | ⟨hdelta, _⟩
      · rw [row_unique hc ha hb hid, hbuilding] at hpublished
        cases hpublished
      · rw [hfields.mode, hmode] at hdelta
        cases hdelta
  · rw [if_neg (show ¬(claimed job).mode = .full from hmode)]
    have hdelta : job.mode = .delta := by
      cases hcase : job.mode with
      | full => exact absurd hcase hmode
      | delta => rfl
    obtain ⟨row, snapshot, hrow, hsnapshot, hindex⟩ :=
      h.rows.delta b hb hbuilding (hfields.mode.trans hdelta)
    rw [hfields.rootId] at hrow
    rw [hfields.name] at hindex
    have hshows := h.rows.shows job.rootId row snapshot hrow hsnapshot
    refine ⟨rfl, ?_, ⟨_, claimed job, rfl, rfl⟩, ?_, ?_, ?_⟩
    · intro p hp
      rcases List.mem_append.mp hp with hp | hp
      · exact (hshows.name p hp).trans hindex
      · rw [List.mem_singleton.mp hp]
        rfl
    · intro a ha hpublished hname
      exact List.mem_append_left _ (hshows.all a ha hpublished (hname.trans hindex.symm))
    · rw [List.pairwise_append]
      refine ⟨hshows.ascending, List.pairwise_singleton .., ?_⟩
      intro p hp q hq
      obtain ⟨hin, hproot⟩ := mem_inForce hp
      obtain ⟨a, ha, rfl⟩ := List.mem_map.mp (h.journal.journaled p hin)
      rw [List.mem_singleton.mp hq]
      have hle := h.journal.newest b hb hbuilding a ha
        (show a.rootId = b.rootId from hproot.trans hfields.rootId.symm)
      have hne : a.id ≠ b.id := by
        intro hid
        rw [row_unique hc ha hb hid, hsame] at hin
        exact hnew hin
      have hlt : a.id < job.id := hfields.id ▸ lt_of_le_of_ne hle hne
      exact hlt
    · obtain ⟨full, deltas, hforced, hfull, hdeltas⟩ := hshows.headed
      refine ⟨full, deltas ++ [claimed job], by rw [hforced]; rfl, hfull, ?_⟩
      intro d hd
      rcases List.mem_append.mp hd with hd | hd
      · exact hdeltas d hd
      · rw [List.mem_singleton.mp hd]
        exact hdelta

theorem Exact.exactly_next (h : Exact v w history) (hc : Consistent w)
    (hunder : Underway v w history job .exhausted) :
    Exactly v (docsOf w.engine job.indexName)
      (inForce job.rootId (history ++ [claimed job])) := by
  obtain ⟨b, hb, hsame, hbuilding⟩ := hunder.row
  have hnew := hunder.unpublished (by simp)
  have hshows := Exact.shows_next h hc hb hsame hbuilding hnew []
  refine ⟨hshows.ascending, ?_, ?_⟩
  · intro p hp
    rcases List.mem_append.mp (mem_inForce hp).1 with hin | hin
    · have hwhole := h.delivered.whole p hin
      rw [hshows.name p hp] at hwhole
      exact hwhole
    · rw [List.mem_singleton.mp hin]
      exact Whole.same (claimed_claimed job).symm hunder.working
  · intro key version doc hkey
    obtain ⟨a, ha, hname, k, r, hread, hwrite⟩ :=
      h.delivered.written job.indexName key version doc hkey
    refine ⟨claimed a, ?_, k, r, Reads.same (claimed_claimed a).symm hread, hwrite⟩
    rcases h.journal.alone b hb hbuilding a ha (hname.trans (claimed_same hsame).name.symm) with
      hid | ⟨_, hpublished⟩
    · rw [row_unique hc ha hb hid, hsame]
      exact mem_inForce_last rfl
    · exact hshows.all a ha hpublished hname

theorem Exact.pin (h : Exact v w history) {pitId : Text} {docs : Table Stored}
    (hfresh : ∀ row ∈ list w.index, row.storage.map (·.pitId) ≠ some pitId) :
    Pinned v w.index (w.pits.insert pitId docs) history := by
  intro rootId row snapshot held hrow hsnapshot hheld
  have hne : ¬pitId = snapshot.pitId := by
    intro hsame
    apply hfresh row (mem_list.mpr ⟨rootId, hrow⟩)
    rw [hsnapshot, Option.map_some, hsame]
  rw [get_put, if_neg hne] at hheld
  exact h.pinned rootId row snapshot held hrow hsnapshot hheld

theorem Exact.publish (h : Exact v w history) (hc : Consistent w) {pitId : Text}
    (hfresh : Fresh w (.publish pitId)) (hstep : step v w (.publish pitId) = some t) :
    Exact v t history := by
  simp only [step] at hstep
  split at hstep
  · rename_i job hattempt _
    have hunder := h.attempt _ hattempt
    obtain ⟨index, hindex, rfl⟩ := Option.map_eq_some_iff.mp hstep
    refine ⟨h.journal, h.rows, h.delivered, Exact.pin h hfresh, ?_⟩
    intro a ha
    rw [setPhase, hattempt] at ha
    cases ha
    refine ⟨hunder.row, fun _ => hunder.index (by simp), fun _ => hunder.unpublished (by simp),
      hunder.working, ?_⟩
    intro docs hdocs
    have hnow : (w.pits.insert pitId index.docs)[pitId]? = some docs := hdocs
    rw [get_put, if_pos rfl] at hnow
    cases hnow
    have hexactly := Exact.exactly_next h hc hunder
    rw [docsOf, hindex] at hexactly
    exact hexactly
  · cases hstep

theorem Exact.commit (h : Exact v w history) (hc : Consistent w)
    (hstep : step v w .commit = some t) : Exact v t (history ++ publication w .commit) := by
  simp only [step] at hstep
  split at hstep
  · rename_i job pitId hattempt
    have hunder := h.attempt _ hattempt
    obtain ⟨b, hb, hsame, hbuilding⟩ := hunder.row
    have hfields := claimed_same hsame
    have hnew := hunder.unpublished (by simp)
    obtain ⟨hwhole, hpinned⟩ := hunder.working
    have hpublication : publication w .commit = [claimed job] := by rw [publication, hattempt]
    rw [hpublication]
    obtain ⟨u, hu, rfl⟩ := Option.map_eq_some_iff.mp hstep
    obtain ⟨root, _, hu⟩ := Option.bind_eq_some_iff.mp hu
    split at hu
    · cases hu
      have hother : ∀ rootId, rootId ≠ job.rootId →
          inForce rootId (history ++ [claimed job]) = inForce rootId history := by
        intro rootId hne
        rw [inForce_append, if_pos fun hroot => hne hroot.symm]
      have hmine : ∀ a ∈ w.jobs, a.state = .building → a.rootId = job.rootId → a = b := by
        intro a ha hstate hroot
        have hroots := hroot.trans hfields.rootId.symm
        exact row_unique hc ha hb (le_antisymm (h.journal.newest b hb hbuilding a ha hroots)
          (h.journal.newest a ha hstate b hb hroots.symm))
      refine ⟨hsame ▸ h.journal.publish hb, ⟨?_, ?_, ?_, ?_⟩, ⟨h.delivered.written,
        h.delivered.checkpoint, ?_⟩, ?_, ?_⟩
      · intro rootId row snapshot hrow hsnapshot
        simp only [setPhase, get_put] at hrow
        split at hrow
        · rename_i hroot
          cases hrow
          cases hsnapshot
          rw [← hroot]
          exact Exact.shows_next h hc hb hsame hbuilding hnew _
        · rename_i hroot
          rw [hother rootId fun heq => hroot heq.symm]
          exact h.rows.shows rootId row snapshot hrow hsnapshot
      · intro a ha hstate hmode
        simp only [setPhase, get_put]
        by_cases hroot : job.rootId = a.rootId
        · refine ⟨_, _, if_pos hroot, rfl, ?_⟩
          rw [hmine a ha hstate hroot.symm]
          exact hfields.name.symm
        · rw [if_neg hroot]
          exact h.rows.delta a ha hstate hmode
      · intro a ha hstate hin
        simp only [setPhase, get_put]
        by_cases hroot : job.rootId = a.rootId
        · refine ⟨_, _, if_pos hroot, rfl, ?_⟩
          rw [hmine a ha hstate hroot.symm]
          exact ⟨hfields.generation.symm, hfields.generation.symm⟩
        · rw [if_neg hroot]
          apply h.rows.committed a ha hstate
          rcases List.mem_append.mp hin with hin | hin
          · exact hin
          · exact absurd (claimed_same (List.mem_singleton.mp hin)).rootId.symm hroot
      · intro rootId row hrow a ha hgeneration
        simp only [setPhase, get_put] at hrow
        split at hrow
        · cases hrow
          exact ⟨_, rfl, hgeneration⟩
        · exact h.rows.current rootId row hrow a ha hgeneration
      · intro p hp
        rcases List.mem_append.mp hp with hp | hp
        · exact h.delivered.whole p hp
        · rw [List.mem_singleton.mp hp]
          exact Whole.same (claimed_claimed job).symm hwhole
      · intro rootId row snapshot docs hrow hsnapshot hdocs
        simp only [setPhase, get_put] at hrow
        split at hrow
        · rename_i hroot
          cases hrow
          cases hsnapshot
          rw [← hroot]
          exact hpinned docs hdocs
        · rename_i hroot
          rw [hother rootId fun heq => hroot heq.symm]
          exact h.pinned rootId row snapshot docs hrow hsnapshot hdocs
      · intro a ha
        simp only [setPhase, hattempt, Option.map_some, Option.some.injEq] at ha
        subst ha
        refine ⟨hunder.row, fun hne => absurd rfl hne, fun hne => absurd rfl hne, ?_⟩
        exact ⟨_, _, (get_put ..).trans (if_pos rfl), rfl, rfl⟩
    · cases hu
  · cases hstep

theorem Exact.exactly_clean (h : Exact v w history) {rootId : Text} {row : IndexRow}
    {snapshot : Snapshot} (hrow : w.index[rootId]? = some row)
    (hsnapshot : row.storage = some snapshot)
    (hclean : ∀ a ∈ w.jobs, a.indexName = snapshot.indexName → a.state = .published) :
    Exactly v (docsOf w.engine snapshot.indexName) (inForce rootId history) := by
  have hshows := h.rows.shows rootId row snapshot hrow hsnapshot
  refine ⟨hshows.ascending, ?_, ?_⟩
  · intro p hp
    have hwhole := h.delivered.whole p (mem_inForce hp).1
    rw [hshows.name p hp] at hwhole
    exact hwhole
  · intro key version doc hkey
    obtain ⟨a, ha, hname, k, r, hread, hwrite⟩ :=
      h.delivered.written snapshot.indexName key version doc hkey
    exact ⟨claimed a, hshows.all a ha (hclean a ha hname) hname, k, r,
      Reads.same (claimed_claimed a).symm hread, hwrite⟩

theorem Exact.restore (h : Exact v w history) (hc : Consistent w) {rootId pitId generation : Text}
    (hfresh : Fresh w (.restore rootId pitId generation))
    (hstep : step v w (.restore rootId pitId generation) = some t) : Exact v t history := by
  simp only [step] at hstep
  split at hstep
  · rename_i hnone _
    obtain ⟨row, hrow, hstep⟩ := Option.bind_eq_some_iff.mp hstep
    obtain ⟨snapshot, hsnapshot, hstep⟩ := Option.bind_eq_some_iff.mp hstep
    split at hstep
    · rename_i hclean
      obtain ⟨index, hindex, rfl⟩ := Option.map_eq_some_iff.mp hstep
      have hexactly := Exact.exactly_clean h hrow hsnapshot hclean
      rw [docsOf, hindex] at hexactly
      refine ⟨h.journal, ⟨?_, ?_, ?_, ?_⟩, h.delivered, ?_, ?_⟩
      · intro other changed held hchanged hheld
        simp only [get_put] at hchanged
        split at hchanged
        · rename_i hroot
          subst hroot
          cases hchanged
          cases hheld
          have hshows := h.rows.shows rootId row snapshot hrow hsnapshot
          exact ⟨hshows.format, hshows.name, hshows.last, hshows.all, hshows.ascending,
            hshows.headed⟩
        · exact h.rows.shows other changed held hchanged hheld
      · intro a ha hstate hmode
        obtain ⟨old, held, hold, hheld, hname⟩ := h.rows.delta a ha hstate hmode
        simp only [get_put]
        by_cases hroot : rootId = a.rootId
        · rw [← hroot, hrow] at hold
          cases hold
          rw [hsnapshot] at hheld
          cases hheld
          exact ⟨_, _, if_pos hroot, rfl, hname⟩
        · rw [if_neg hroot]
          exact ⟨old, held, hold, hheld, hname⟩
      · intro a ha hstate hin
        obtain ⟨old, held, hold, hheld, hkept, hgeneration⟩ := h.rows.committed a ha hstate hin
        simp only [get_put]
        by_cases hroot : rootId = a.rootId
        · rw [← hroot, hrow] at hold
          cases hold
          rw [hsnapshot] at hheld
          cases hheld
          have hname := (Exact.named h hc hrow hsnapshot ha hgeneration).2
          rw [hclean a ha hname] at hstate
          cases hstate
        · rw [if_neg hroot]
          exact ⟨old, held, hold, hheld, hkept, hgeneration⟩
      · intro other changed hchanged a ha hgeneration
        simp only [get_put] at hchanged
        split at hchanged
        · cases hchanged
          exact absurd hgeneration.symm (hfresh.1 a ha)
        · exact h.rows.current other changed hchanged a ha hgeneration
      · intro other changed held docs hchanged hheld hdocs
        simp only [get_put] at hchanged
        split at hchanged
        · rename_i hroot
          subst hroot
          cases hchanged
          cases hheld
          rw [get_put, if_pos rfl] at hdocs
          cases hdocs
          exact hexactly
        · exact Exact.pin h hfresh.2 other changed held docs hchanged hheld hdocs
      · intro a ha
        rw [show w.attempt = some a from ha] at hnone
        cases hnone
    · cases hstep
  · cases hstep

theorem Exact.losePit (h : Exact v w history) {pitId : Text}
    (hstep : step v w (.losePit pitId) = some t) : Exact v t history := by
  cases hstep
  have hkept : ∀ (other : Text) docs, (w.pits.erase pitId)[other]? = some docs →
      w.pits[other]? = some docs := by
    intro other docs hdocs
    rw [get_delete] at hdocs
    split at hdocs
    · cases hdocs
    · exact hdocs
  refine ⟨h.journal, h.rows, h.delivered, ?_, ?_⟩
  · intro rootId row snapshot docs hrow hsnapshot hdocs
    exact h.pinned rootId row snapshot docs hrow hsnapshot (hkept _ docs hdocs)
  · rintro ⟨job, phase⟩ ha
    have hunder := h.attempt _ ha
    refine ⟨hunder.row, hunder.index, hunder.unpublished, ?_⟩
    cases phase with
    | pinned pit =>
      obtain ⟨hwhole, hpinned⟩ := hunder.working
      exact ⟨hwhole, fun docs hdocs => hpinned docs (hkept _ docs hdocs)⟩
    | reading cursor => exact hunder.working
    | sending batch offset cursor => exact hunder.working
    | delivered offset cursor => exact hunder.working
    | exhausted => exact hunder.working
    | committed => exact hunder.working

/-! Runs. -/

theorem exact_step (h : Exact v w history) (hc : Consistent w) (hbatch : 0 < v.batchSize)
    {e : Event} (hfresh : Fresh w e) (hstep : step v w e = some t) :
    Exact v t (history ++ publication w e) := by
  by_cases hcommit : e = .commit
  · subst hcommit
    exact Exact.commit h hc hstep
  rw [publication_other hcommit, List.append_nil]
  cases e with
  | commit => exact absurd rfl hcommit
  | run build generation rootId source mode base =>
    simp only [step] at hstep
    split at hstep
    · rename_i hnone
      exact Exact.begin h hc hnone hfresh hstep
    · cases hstep
  | fill => exact Exact.fill h hc hbatch hstep
  | bulk applied answered => exact Exact.bulk h hstep
  | checkpoint => exact Exact.checkpoint h hc hstep
  | publish pitId => exact Exact.publish h hc hfresh hstep
  | finish => exact Exact.finish h hc hstep
  | stop =>
    cases hstep
    exact Exact.idle h rfl rfl rfl rfl rfl
  | abort rootId => exact Exact.abort h hstep
  | restore rootId pitId generation => exact Exact.restore h hc hfresh hstep
  | losePit pitId => exact Exact.losePit h hstep
  | configure rootId root =>
    cases hstep
    refine ⟨h.journal, h.rows, h.delivered, h.pinned, ?_⟩
    intro a ha
    have hunder := h.attempt a ha
    exact ⟨hunder.row, hunder.index, hunder.unpublished, hunder.working⟩

theorem history_exact (hbatch : 0 < v.batchSize) (h : History v w history) :
    Exact v w history := by
  induction h with
  | start root index hindex =>
    refine ⟨⟨?_, ?_, ?_, ?_, ?_, ?_⟩, ⟨?_, ?_, ?_, ?_⟩, ⟨?_, ?_, ?_⟩, ?_, ?_⟩
    · rintro a ⟨⟩
    · rintro a ⟨⟩
    · rintro a ⟨⟩
    · rintro a ⟨⟩
    · rintro p ⟨⟩
    · rintro a ⟨⟩
    · intro rootId row snapshot hrow hsnapshot
      rw [hindex rootId row hrow] at hsnapshot
      cases hsnapshot
    · rintro a ⟨⟩
    · rintro a ⟨⟩
    · rintro rootId row _ a ⟨⟩
    · intro name
      simpa [docsOf] using storeOf_empty
    · rintro a ⟨⟩
    · rintro p ⟨⟩
    · intro rootId row snapshot docs hrow hsnapshot
      rw [hindex rootId row hrow] at hsnapshot
      cases hsnapshot
    · rintro a ⟨⟩
  | step hrun hfresh hstep ih => exact exact_step ih (run_consistent hrun.run) hbatch hfresh hstep

/-- An import counts as published from the transaction that makes an index row point to its
snapshot, whatever becomes of its journal entry. As long as that point in time lives, its live
documents are those of the last full manifest with every later delta on top, and all it holds
comes from these imports. -/
theorem published_snapshots_exact (hbatch : 0 < v.batchSize) (h : History v w history)
    {rootId : Text} {row : IndexRow} {snapshot : Snapshot} {docs : Table Stored}
    (hrow : w.index[rootId]? = some row) (hsnapshot : row.storage = some snapshot)
    (hdocs : w.pits[snapshot.pitId]? = some docs) :
    (∃ full deltas, inForce rootId history = full :: deltas ∧ full.mode = .full ∧
      ∀ delta ∈ deltas, delta.mode = .delta) ∧
    (∃ items, replayed v (inForce rootId history) = some items ∧
      ∀ item : Text, live docs item = items[item]?) ∧
    ∀ (item : Text) stored, docs[item]? = some stored →
      ∃ job ∈ inForce rootId history, ∃ k r, Reads v job k r ∧ r.doc = stored.doc ∧
        r.version = stored.version := by
  have hexact := history_exact hbatch h
  have hexactly := hexact.pinned rootId row snapshot docs hrow hsnapshot hdocs
  refine ⟨(hexact.rows.shows rootId row snapshot hrow hsnapshot).headed, hexactly.live_eq, ?_⟩
  intro item stored hstored
  obtain ⟨job, hjob, k, r, hread, hwrite⟩ :=
    hexactly.written item stored.version stored.doc (by simp [storeOf, hstored])
  exact ⟨job, hjob, k, r, hread, congrArg Write.value hwrite, congrArg Write.version hwrite⟩

/-- The events one after the other, with what they publish. -/
def playHistory (v : Service) (es : List Event) (w : World) (history : List Job) :
    Option (World × List Job) :=
  Scripts.playLogged Fresh (step v) publication es w history

theorem playHistory_run {es : List Event} {later : List Job} (h : History v w history)
    (hplay : playHistory v es w history = some (t, later)) : History v t later :=
  Scripts.playLogged_keeps (History v) (fun h hfresh hu => h.step hfresh hu) h hplay

/-- Items and bodies of one character. A line without a body deletes its item. -/
def plain : Service where
  batchSize := 2
  bulkTargetBytes := 100
  record := fun _ _ line => match line with
    | [a, 10] => some ⟨[Char.ofNat a.toNat], none⟩
    | [a, b, 10] => some ⟨[Char.ofNat a.toNat], some [Char.ofNat b.toNat]⟩
    | _ => none
  encodedSize := fun _ _ => 6

def empty : World := ⟨[], 0, ∅, ∅, ∅, ∅, none, []⟩

theorem empty_history : History v empty [] := .start ∅ ∅ (by simp)

/-- A full import of two items, whose first bulk request fails half way, and a delta that
deletes one of them and changes the other. -/
def fullAndDelta : List Event :=
  [.configure ['r'] ⟨true, ['c']⟩, .run ['i'] ['1'] ['r'] [97, 120, 10, 98, 121, 10] .full none,
    .fill, .bulk 1 false, .run ['j'] ['2'] ['r'] [97, 120, 10, 98, 121, 10] .full none, .fill,
    .bulk 2 true, .checkpoint, .fill, .publish ['p'], .commit, .finish,
    .run ['k'] ['3'] ['r'] [97, 10, 98, 122, 10] .delta (some ['1']), .fill, .bulk 2 true,
    .checkpoint, .fill, .publish ['q'], .commit, .finish]

/-- A point in time that the row of the root shows. -/
def shown (w : World) (rootId : Text) : Option (Table Stored) :=
  (w.index[rootId]?).bind fun row => row.storage.bind fun snapshot => w.pits[snapshot.pitId]?

theorem shown_some {rootId : Text} {docs : Table Stored} (h : shown w rootId = some docs) :
    ∃ row snapshot, w.index[rootId]? = some row ∧ row.storage = some snapshot ∧
      w.pits[snapshot.pitId]? = some docs := by
  obtain ⟨row, hrow, h⟩ := Option.bind_eq_some_iff.mp h
  obtain ⟨snapshot, hsnapshot, h⟩ := Option.bind_eq_some_iff.mp h
  exact ⟨row, snapshot, hrow, hsnapshot, h⟩

theorem published_snapshots_exact_delta :
    ∃ w history docs, History plain w history ∧ shown w ['r'] = some docs ∧
      live docs ['a'] = none ∧ live docs ['b'] = some ['z'] ∧
      ∃ items, replayed plain (inForce ['r'] history) = some items ∧
        ∀ item : Text, live docs item = items[item]? := by
  have hrun : (playHistory plain fullAndDelta empty []).any (fun s =>
      (shown s.1 ['r']).any fun docs =>
        live docs ['a'] = none ∧ live docs ['b'] = some ['z']) = true := by
    decide +kernel
  obtain ⟨⟨w, history⟩, hplay, hshown⟩ := (Option.any_eq_true _ _).mp hrun
  obtain ⟨docs, hdocs, hlive⟩ := (Option.any_eq_true _ _).mp hshown
  have hlive := of_decide_eq_true hlive
  have hhistory := playHistory_run empty_history hplay
  obtain ⟨row, snapshot, hrow, hsnapshot, hpit⟩ := shown_some hdocs
  exact ⟨w, history, docs, hhistory, hdocs, hlive.1, hlive.2,
    (published_snapshots_exact (by decide) hhistory hrow hsnapshot hpit).2.1⟩

/-- A crash after the row was replaced and before the journal says so, and then an abort. -/
def abortedAfterCommit : List Event :=
  [.configure ['r'] ⟨true, ['c']⟩, .run ['i'] ['1'] ['r'] [97, 120, 10] .full none, .fill,
    .bulk 1 true, .checkpoint, .fill, .publish ['p'], .commit, .stop, .abort ['r']]

/-- The point in time that `run` made, and that the row points to, then has the record of an
aborted import. -/
theorem aborted_import_shown :
    ∃ w history docs job stored, History plain w history ∧ shown w ['r'] = some docs ∧
      job ∈ w.jobs ∧ job.state = .aborted ∧ docs[(['a'] : Text)]? = some stored ∧
      stored.version = job.id * versionRange + 1 := by
  have hrun : (playHistory plain abortedAfterCommit empty []).any (fun s =>
      (shown s.1 ['r']).any fun docs => (docs[(['a'] : Text)]?).any fun stored =>
        s.1.jobs.any fun job => job.state = .aborted ∧
          stored.version = job.id * versionRange + 1) = true := by
    decide +kernel
  obtain ⟨⟨w, history⟩, hplay, hshown⟩ := (Option.any_eq_true _ _).mp hrun
  obtain ⟨docs, hdocs, hheld⟩ := (Option.any_eq_true _ _).mp hshown
  obtain ⟨stored, hstored, hjobs⟩ := (Option.any_eq_true _ _).mp hheld
  obtain ⟨job, hjob, hstate⟩ := List.any_eq_true.mp hjobs
  have hstate := of_decide_eq_true hstate
  exact ⟨w, history, docs, job, stored, playHistory_run empty_history hplay, hdocs, hjob,
    hstate.1, hstored, hstate.2⟩

end PublishedExactly
