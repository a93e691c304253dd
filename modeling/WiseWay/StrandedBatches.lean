import WiseWay.OutboxDelivery

/-! # Batches that can no longer be delivered

`drain` saves the base of a batch before its import is claimed. If another generation of the root
becomes current in between, the import is refused from then on, until an abort forgets the
batch. -/
namespace StrandedBatches

open Records ArchiveImport ImportVersions PublishedArchives ExactSnapshots PublishedExactly
  DeltaBases OutboxDrain OutboxDelivery

variable {o : Outbox} {s t : OutboxDrain.State} {history : List Job} {rootId : Text}
  {batch : OutboxBatch} {e : OutboxDrain.Event}

/-- The journal has an import of the batch that has not been aborted. -/
def Claimed (o : Outbox) (rootId : Text) (batch : OutboxBatch) (w : World) : Prop :=
  ∃ p, Live w p ∧ Imports o rootId batch p

/-- The base of the batch is current, or its import has been claimed: no other generation has
come in between. -/
def Standing (o : Outbox) (rootId : Text) (batch : OutboxBatch) (w : World) : Prop :=
  (∃ row, w.index[rootId]? = some row ∧ row.generation = batch.base) ∨ Claimed o rootId batch w

/-- The root gets another generation while the batch has no import. -/
def Overtakes (o : Outbox) (rootId : Text) (batch : OutboxBatch) (s : OutboxDrain.State) :
    OutboxDrain.Event → Prop
  | .work .commit => (∃ a, s.importer.attempt = some a ∧ a.job.rootId = rootId) ∧
      ¬Claimed o rootId batch s.importer
  | .work (.restore root _ _) => root = rootId ∧ ¬Claimed o rootId batch s.importer
  | _ => False

/-- A run since the batch of a root was saved, and whether it has been overtaken. -/
inductive Held (o : Outbox) (rootId : Text) (batch : OutboxBatch) :
    OutboxDrain.State → List Job → Prop → Prop where
  | saved {s t : OutboxDrain.State} {history : List Job} {e : OutboxDrain.Event} :
      Delivery o s history → Drawn s e → OutboxDrain.step o s e = some t →
      s.batches[rootId]? = none → t.batches[rootId]? = some batch →
      Held o rootId batch t (history ++ published s e) False
  | step {s t : OutboxDrain.State} {history : List Job} {e : OutboxDrain.Event}
      {overtaken : Prop} : Held o rootId batch s history overtaken → Drawn s e →
      OutboxDrain.step o s e = some t → t.batches[rootId]? = some batch →
      Held o rootId batch t (history ++ published s e) (overtaken ∨ Overtakes o rootId batch s e)

theorem Held.delivery {overtaken : Prop} (h : Held o rootId batch s history overtaken) :
    Delivery o s history ∧ s.batches[rootId]? = some batch := by
  induction h with
  | saved hrun hdrawn hstep _ hsaved => exact ⟨hrun.step hdrawn hstep, hsaved⟩
  | step _ hdrawn hstep hsaved ih => exact ⟨ih.1.step hdrawn hstep, hsaved⟩

/-! Bases of batches. -/

/-- An import that has the base of a batch as its generation has been published. -/
def BatchBases (s : OutboxDrain.State) (history : List Job) : Prop :=
  ∀ (rootId : Text) batch, s.batches[rootId]? = some batch → ∀ a ∈ s.importer.jobs,
    batch.base = a.generation → claimed a ∈ history

theorem batchBases_mono {more : List Job} (h : BatchBases s history)
    (hbatches : ∀ (k : Text) batch, t.batches[k]? = some batch → s.batches[k]? = some batch)
    (hjobs : t.importer.jobs = s.importer.jobs) : BatchBases t (history ++ more) := by
  intro rootId batch hbatch a ha hbase
  rw [hjobs] at ha
  exact List.mem_append_left _ (h rootId batch (hbatches rootId batch hbatch) a ha hbase)

theorem batchBases_work {event : ArchiveImport.Event} (h : BatchBases s history)
    (hdrawn : Drawn s (.work event)) (hstep : work o event s = some t) :
    BatchBases t (history ++ publication s.importer event) := by
  obtain ⟨_, u, hu, rfl⟩ := work_some hstep
  intro rootId batch hbatch a ha hbase
  have hheld := batchesAfter_held hbatch
  refine List.mem_append_left _ ?_
  cases step_moves hu with
  | kept change _ hjobs hclaimed _ _ _ =>
    rw [hjobs] at ha
    obtain ⟨b, hb, rfl⟩ := List.mem_map.mp ha
    rw [hclaimed b]
    exact h rootId batch hheld b hb (hbase.trans (claimed_same (hclaimed b)).generation)
  | stored job hstores _ hjobs _ =>
    rw [hjobs] at ha
    rcases List.mem_append.mp ha with hold | hnew
    · exact h rootId batch hheld a hold hbase
    · rw [List.mem_singleton.mp hnew] at hbase
      have hunused := hdrawn.2.2 batch (mem_list.mpr ⟨rootId, hheld⟩)
      exact absurd (hbase.trans hstores.drawn) hunused
  | committed _ _ _ _ _ _ hjobs _ =>
    rw [hjobs] at ha
    exact h rootId batch hheld a ha hbase
  | restored _ _ hjobs _ =>
    rw [hjobs] at ha
    exact h rootId batch hheld a ha hbase

theorem delivery_batchBases (hbatch : 0 < o.importer.batchSize) (h : Delivery o s history) :
    BatchBases s history := by
  induction h with
  | start root index storage _ =>
    intro rootId batch hnone
    simp at hnone
  | @step s t history e hrun hdrawn hstep ih =>
    cases e with
    | work event => exact batchBases_work ih hdrawn hstep
    | enqueue row =>
      cases hstep
      unfold enqueue
      split
      · exact batchBases_mono ih (fun _ _ hheld => hheld) rfl
      split
      · exact batchBases_mono ih (fun _ _ hheld => hheld) rfl
      · exact batchBases_mono ih (fun _ _ hheld => hheld) rfl
    | save root =>
      obtain ⟨_, _, hsaves⟩ := save_some hstep
      cases hsaves with
      | again batch _ ht =>
        subst ht
        exact batchBases_mono ih (fun _ _ hheld => hheld) rfl
      | anew current first rest hcurrent _ _ _ ht =>
        subst ht
        intro rootId batch hheld a ha hbase
        rw [get_put] at hheld
        refine List.mem_append_left _ ?_
        split at hheld
        · cases hheld
          exact Exact.current_published (history_exact hbatch hrun.imports)
            (run_consistent hrun.imports.run) hcurrent ha hbase
        · exact ih rootId batch hheld a ha hbase
    | acknowledge =>
      obtain ⟨_, _, _, rfl⟩ := acknowledge_some hstep
      exact batchBases_mono ih (fun _ _ hheld => (get_erase_some hheld).2) rfl
    | forget root =>
      obtain ⟨_, _, rfl⟩ := forget_some hstep
      exact batchBases_mono ih (fun _ _ hheld => forget_held hheld) rfl
    | store root =>
      obtain rfl := store_some hstep
      exact batchBases_mono ih (fun _ _ hheld => hheld) rfl

/-! One step. -/

/-- The importer's steps other than a claim, a publication and the replacement of a lost
snapshot leave the current generation. -/
theorem standing_work {event : ArchiveImport.Event} {u : World} (hbatch : 0 < o.importer.batchSize)
    (hrun : Delivery o s history) (hdrawn : Drawn s (.work event))
    (hstep : ArchiveImport.step o.importer s.importer event = some u)
    (hsaved : s.batches[rootId]? = some batch)
    (hkept : (batchesAfter event s)[rootId]? = some batch) :
    Standing o rootId batch u ↔
      Standing o rootId batch s.importer ∧ ¬Overtakes o rootId batch s (.work event) := by
  have hexact := history_exact hbatch hrun.imports
  have hc := run_consistent hrun.imports.run
  have hbases := delivery_batchBases hbatch hrun
  -- An abort of this root that finds something to abort forgets the batch.
  have hlive : ∀ p, Imports o rootId batch p → Live s.importer p → Live u p := by
    intro p himports
    refine live_step hstep ?_
    rintro rfl a ha hroot hbuilding
    rw [himports.rootId] at hkept hroot
    rw [batchesAfter, forget, if_pos ⟨a, ha, hroot, hbuilding⟩] at hkept
    exact (get_erase_some hkept).1 rfl
  have hclaimed : Claimed o rootId batch s.importer → Claimed o rootId batch u := by
    rintro ⟨p, hp, himports⟩
    exact ⟨p, hlive p himports hp, himports⟩
  have hbefore : ∀ p, Live u p → Imports o rootId batch p →
      Standing o rootId batch s.importer := by
    intro p hp himports
    rcases live_before hexact hc hstep hp with hold |
      ⟨_, _, root, _, _, base, job, _, hstores, hbase, rfl⟩
    · exact .inr ⟨p, hold, himports⟩
    · obtain ⟨row, snapshot, hto⟩ := hstores.based (hstores.ofMode.symm.trans himports.mode)
      refine .inl ⟨row, ?_, ?_⟩
      · have hroot : root = rootId := hstores.ofRoot.symm.trans himports.rootId
        rw [← hroot]
        exact hto.found
      · exact Option.some.inj ((hto.current.trans hbase.symm).trans himports.base)
  have hsame : ∀ root row, row.generation ≠ batch.base → u.jobs = s.importer.jobs →
      u.index = s.importer.index.insert root row → root = rootId →
      (Standing o rootId batch u ↔ Claimed o rootId batch s.importer) := by
    intro root row hne hjobs hindex hroot
    constructor
    · rintro (⟨current, hcurrent, hbase⟩ | ⟨p, ⟨a, ha, hp⟩, himports⟩)
      · rw [hindex, get_put, if_pos hroot] at hcurrent
        cases hcurrent
        exact absurd hbase hne
      · exact ⟨p, ⟨a, hjobs ▸ ha, hp⟩, himports⟩
    · intro h
      exact .inr (hclaimed h)
  have hunmoved : ¬Overtakes o rootId batch s (.work event) →
      u.index[rootId]? = s.importer.index[rootId]? →
      (Standing o rootId batch u ↔
        Standing o rootId batch s.importer ∧ ¬Overtakes o rootId batch s (.work event)) := by
    intro hnot hindex
    constructor
    · rintro (⟨row, hrow, hbase⟩ | ⟨p, hp, himports⟩)
      · exact ⟨.inl ⟨row, hindex ▸ hrow, hbase⟩, hnot⟩
      · exact ⟨hbefore p hp himports, hnot⟩
    · rintro ⟨⟨row, hrow, hbase⟩ | hold, _⟩
      · exact .inl ⟨row, hindex ▸ hrow, hbase⟩
      · exact .inr (hclaimed hold)
  have hmoved : (Standing o rootId batch u ↔ Claimed o rootId batch s.importer) →
      (Overtakes o rootId batch s (.work event) ↔ ¬Claimed o rootId batch s.importer) →
      (Standing o rootId batch u ↔
        Standing o rootId batch s.importer ∧ ¬Overtakes o rootId batch s (.work event)) := by
    intro hcan hovertakes
    rw [hcan, hovertakes, not_not]
    exact ⟨fun h => ⟨.inr h, h⟩, fun h => h.2⟩
  cases step_moves hstep with
  | kept change hleaves _ _ _ _ hindex =>
    refine hunmoved (fun hover => ?_) (by rw [hindex])
    cases event with
    | commit => exact hleaves
    | restore root pitId generation => exact hleaves
    | _ => exact hover
  | stored job _ _ _ hindex => exact hunmoved (by simp [Overtakes]) (by rw [hindex])
  | committed job pitId row hattempt _ hgeneration hjobs hindex =>
    by_cases hroot : job.rootId = rootId
    · have hne : row.generation ≠ batch.base := by
        intro heq
        have hunder := hexact.attempt _ hattempt
        obtain ⟨b, hb, hclaim, _⟩ := hunder.row
        apply hunder.unpublished (by simp)
        rw [← hclaim]
        exact hbases rootId batch hsaved b hb
          ((heq.symm.trans hgeneration).trans (claimed_same hclaim).generation.symm)
      refine hmoved (hsame _ row hne hjobs hindex hroot) ?_
      exact and_iff_right ⟨_, hattempt, hroot⟩
    · refine hunmoved ?_ ?_
      · rintro ⟨⟨a, ha, hsameRoot⟩, _⟩
        obtain rfl := Option.some.inj (hattempt.symm.trans ha)
        exact hroot hsameRoot
      · rw [hindex, get_put, if_neg hroot]
  | @restored root pitId generation row hgeneration hjobs hindex =>
    by_cases hroot : root = rootId
    · have hne : row.generation ≠ batch.base := by
        intro heq
        exact hdrawn.2.2 batch (mem_list.mpr ⟨rootId, hsaved⟩) (heq.symm.trans hgeneration)
      refine hmoved (hsame root row hne hjobs hindex hroot) ?_
      exact and_iff_right hroot
    · refine hunmoved ?_ ?_
      · rintro ⟨hsameRoot, _⟩
        exact hroot hsameRoot
      · rw [hindex, get_put, if_neg hroot]

/-- While its batch stays, a root can be delivered as long as it is not overtaken, and not
again afterwards. -/
theorem standing_step (hbatch : 0 < o.importer.batchSize) (hrun : Delivery o s history)
    (hdrawn : Drawn s e) (hstep : OutboxDrain.step o s e = some t)
    (hsaved : s.batches[rootId]? = some batch) (hkept : t.batches[rootId]? = some batch) :
    Standing o rootId batch t.importer ↔
      Standing o rootId batch s.importer ∧ ¬Overtakes o rootId batch s e := by
  have hidle : t.importer = s.importer → ¬Overtakes o rootId batch s e →
      (Standing o rootId batch t.importer ↔
        Standing o rootId batch s.importer ∧ ¬Overtakes o rootId batch s e) := by
    intro himporter hnot
    rw [himporter, and_iff_left hnot]
  cases e with
  | work event =>
    obtain ⟨_, u, hu, rfl⟩ := work_some hstep
    exact standing_work hbatch hrun hdrawn hu hsaved hkept
  | enqueue row =>
    cases hstep
    refine hidle ?_ id
    unfold enqueue
    split
    · rfl
    split
    · rfl
    · rfl
  | save root =>
    obtain ⟨_, _, hsaves⟩ := save_some hstep
    refine hidle ?_ id
    cases hsaves with
    | again _ _ ht => rw [ht]
    | anew _ _ _ _ _ _ _ ht => rw [ht]
  | acknowledge =>
    obtain ⟨_, _, _, rfl⟩ := acknowledge_some hstep
    exact hidle rfl id
  | forget root =>
    obtain ⟨_, _, rfl⟩ := forget_some hstep
    exact hidle rfl id
  | store root =>
    obtain rfl := store_some hstep
    exact hidle rfl id

theorem standing_saved (hstep : OutboxDrain.step o s e = some t)
    (hnone : s.batches[rootId]? = none) (hsaved : t.batches[rootId]? = some batch) :
    Standing o rootId batch t.importer := by
  have hold : ∀ {p : Prop}, s.batches[rootId]? = some batch → p := by
    intro p hheld
    rw [hnone] at hheld
    cases hheld
  cases e with
  | work event =>
    obtain ⟨_, u, _, rfl⟩ := work_some hstep
    exact hold (batchesAfter_held hsaved)
  | enqueue row =>
    cases hstep
    unfold enqueue at hsaved
    split at hsaved
    · exact hold hsaved
    split at hsaved
    · exact hold hsaved
    · exact hold hsaved
  | save root =>
    obtain ⟨_, _, hsaves⟩ := save_some hstep
    cases hsaves with
    | again _ _ ht =>
      subst ht
      exact hold hsaved
    | anew current first rest hcurrent _ _ _ ht =>
      subst ht
      rw [get_put] at hsaved
      split at hsaved
      · rename_i hroot
        cases hsaved
        exact .inl ⟨current, hroot ▸ hcurrent, rfl⟩
      · exact hold hsaved
  | acknowledge =>
    obtain ⟨_, _, _, rfl⟩ := acknowledge_some hstep
    exact hold (get_erase_some hsaved).2
  | forget root =>
    obtain ⟨_, _, rfl⟩ := forget_some hstep
    exact hold (forget_held hsaved)
  | store root =>
    obtain rfl := store_some hstep
    exact hold hsaved

theorem begin_refused {w : World} (h : ¬Standing o rootId batch w) (build generation : Text) :
    begin build generation rootId (manifest o batch.records) .delta (some batch.base) w = none := by
  cases hbegin : begin build generation rootId (manifest o batch.records) .delta
      (some batch.base) w with
  | none => rfl
  | some u =>
    obtain ⟨v, job, hclaim, _⟩ := begin_cases hbegin
    rcases claim_cases hclaim with ⟨_, hexisting⟩ | ⟨_, hstores⟩
    · obtain ⟨hjob, hroot, hsource, hmode, hbase, hstate⟩ := existingJob_some hexisting
      exact absurd (.inr ⟨claimed job, ⟨job, hjob, rfl, hstate⟩, hroot, hsource, hmode, hbase⟩) h
    · obtain ⟨row, snapshot, hto⟩ := hstores.based rfl
      exact absurd (.inl ⟨row, hto.found, Option.some.inj hto.current⟩) h

/-! The other checks of an import. -/

/-- An index that `ensure` accepts: it has the configuration, or it does not exist. -/
def Fitting (name config : Text) (w : World) : Prop :=
  ∀ index, w.engine[name]? = some index → index.config = config

/-- The import whose generation the index row of a root shows. -/
def shownImport (rootId : Text) (w : World) : Option Text :=
  ((w.index[rootId]?).bind (·.storage)).map (·.importGeneration)

/-- A claimed import can go on: its configuration is that of the root and, as long as it is not
published, of its index. -/
def Continues (root : ArchiveImport.Root) (w : World) (job : Job) : Prop :=
  job.configHash = root.config ∧ (job.state = .published ∨
    shownImport job.rootId w = some job.generation ∨ Fitting job.indexName job.configHash w)

/-- A new import can start: no other is unfinished, and the index of the root has the current
format, no aborted delta and the configuration of the root. -/
def Starts (root : ArchiveImport.Root) (rootId : Text) (w : World) : Prop :=
  (∀ job ∈ w.jobs, job.rootId = rootId → job.state ≠ .building) ∧
    ∃ row snapshot, w.index[rootId]? = some row ∧ row.storage = some snapshot ∧
      snapshot.searchFormat = searchFormat ∧
      (∀ job ∈ w.jobs, job.indexName = snapshot.indexName → job.state ≠ .aborted) ∧
      Fitting snapshot.indexName root.config w

/-- What `_claim` and `ensure` check besides the base of the batch. -/
def Unhindered (o : Outbox) (rootId : Text) (batch : OutboxBatch) (w : World) : Prop :=
  ∃ root, w.root[rootId]? = some root ∧ root.searchable = true ∧
    match existingJob rootId (manifest o batch.records) .delta (some batch.base) w with
    | some job => Continues root w job
    | none => Starts root rootId w

theorem ensure_isSome {name config : Text} {w : World} :
    (ensure name config w).isSome ↔ Fitting name config w := by
  unfold ensure Fitting
  cases hindex : w.engine[name]? with
  | none => simp
  | some index =>
    by_cases hconfig : index.config = config
    · simp [hconfig]
    · simp [hconfig]

theorem claimed_of_existing {w : World} : Claimed o rootId batch w ↔
    (existingJob rootId (manifest o batch.records) .delta (some batch.base) w).isSome := by
  constructor
  · rintro ⟨_, ⟨job, hjob, rfl, hlive⟩, himports⟩
    rw [existingJob, List.find?_isSome]
    refine ⟨job, List.mem_reverse.mpr hjob, decide_eq_true ?_⟩
    exact ⟨himports.rootId, himports.source, himports.mode, himports.base, hlive⟩
  · intro h
    obtain ⟨job, hexisting⟩ := Option.isSome_iff_exists.mp h
    obtain ⟨hjob, hroot, hsource, hmode, hbase, hstate⟩ := existingJob_some hexisting
    exact ⟨claimed job, ⟨job, hjob, rfl, hstate⟩, hroot, hsource, hmode, hbase⟩

theorem deltaIndex_eq_some {w : World} {base name : Text} :
    deltaIndex rootId (some base) w = some name ↔ ∃ row snapshot, w.index[rootId]? = some row ∧
      row.storage = some snapshot ∧ row.generation = base ∧ snapshot.searchFormat = searchFormat ∧
        (∀ job ∈ w.jobs, job.indexName = snapshot.indexName → job.state ≠ .aborted) ∧
          snapshot.indexName = name := by
  simp only [deltaIndex, Option.bind_eq_some_iff, Option.ite_none_right_eq_some, Option.some.injEq,
    not_and, and_assoc, exists_and_left, ne_eq]

section Begin

variable {w : World} {root : ArchiveImport.Root} {build generation : Text}

theorem begin_existing {job : Job} (hroot : w.root[rootId]? = some root)
    (hsearchable : root.searchable = true)
    (hexisting : existingJob rootId (manifest o batch.records) .delta (some batch.base) w =
      some job) :
    (begin build generation rootId (manifest o batch.records) .delta (some batch.base) w).isSome ↔
      Continues root w job := by
  obtain ⟨_, hjobRoot, _⟩ := existingJob_some hexisting
  have hclaim : claim build generation rootId (manifest o batch.records) .delta
      (some batch.base) w =
      if job.configHash = root.config then some (w, job) else none := by
    rw [claim, hroot, Option.bind_some, if_neg (by rw [hsearchable]; decide), hexisting]
  rw [begin, hclaim, Continues, shownImport, hjobRoot, ← ensure_isSome]
  by_cases hconfig : job.configHash = root.config
  · rw [if_pos hconfig, Option.bind_some, and_iff_right hconfig]
    dsimp only
    split
    · rename_i hpublished
      exact iff_of_true rfl (.inl hpublished)
    rename_i hopen
    split
    · rename_i hshown
      exact iff_of_true rfl (.inr (.inl hshown))
    · rename_i hshown
      rw [Option.isSome_map, or_iff_right hopen, or_iff_right hshown]
  · rw [if_neg hconfig]
    exact iff_of_false (by simp) fun h => hconfig h.1

theorem begin_new (hroot : w.root[rootId]? = some root) (hsearchable : root.searchable = true)
    (hfresh : shownImport rootId w ≠ some generation)
    (hexisting : existingJob rootId (manifest o batch.records) .delta (some batch.base) w = none) :
    (begin build generation rootId (manifest o batch.records) .delta (some batch.base) w).isSome ↔
      (∃ row, w.index[rootId]? = some row ∧ row.generation = batch.base) ∧
        Starts root rootId w := by
  rw [begin, claim, hroot, Option.bind_some, if_neg (by rw [hsearchable]; decide), hexisting]
  dsimp only
  by_cases hbusy : ∃ job ∈ w.jobs, job.rootId = rootId ∧ job.state = .building
  · rw [if_pos hbusy]
    obtain ⟨job, hjob, hsame, hbuilding⟩ := hbusy
    exact iff_of_false (by simp) fun h => h.2.1 job hjob hsame hbuilding
  · rw [if_neg hbusy, if_neg (by decide)]
    have hidle : ∀ job ∈ w.jobs, job.rootId = rootId → job.state ≠ .building :=
      fun job hjob hsame hbuilding => hbusy ⟨job, hjob, hsame, hbuilding⟩
    rw [Starts, and_iff_right hidle]
    cases hname : deltaIndex rootId (some batch.base) w with
    | none =>
      refine iff_of_false (by simp) ?_
      rintro ⟨⟨row, hrow, hbase⟩, found, snapshot, hfound, hstorage, hformat, hclean, _⟩
      obtain rfl := Option.some.inj (hrow.symm.trans hfound)
      have hsome := deltaIndex_eq_some.mpr
        ⟨row, snapshot, hrow, hstorage, hbase, hformat, hclean, rfl⟩
      rw [hname] at hsome
      cases hsome
    | some name =>
      obtain ⟨row, snapshot, hrow, hstorage, hbase, hformat, hclean, rfl⟩ :=
        deltaIndex_eq_some.mp hname
      rw [shownImport] at hfresh
      rw [Option.map_some, Option.bind_some]
      dsimp only
      rw [if_neg nofun, if_neg hfresh, Option.isSome_map, and_iff_right ⟨row, hrow, hbase⟩]
      refine Iff.trans (ensure_isSome (w := { w with jobs := _, sequence := _ })) ?_
      constructor
      · exact fun h => ⟨row, snapshot, hrow, hstorage, hformat, hclean, h⟩
      · rintro ⟨found, other, hfound, hother, _, _, h⟩
        obtain rfl := Option.some.inj (hrow.symm.trans hfound)
        obtain rfl := Option.some.inj (hstorage.symm.trans hother)
        exact h

/-- The import of a batch begins just when the batch stands and nothing else hinders it. -/
theorem begin_isSome (hfresh : shownImport rootId w ≠ some generation) :
    (begin build generation rootId (manifest o batch.records) .delta (some batch.base) w).isSome ↔
      Standing o rootId batch w ∧ Unhindered o rootId batch w := by
  have hroots : ∀ {p : ArchiveImport.Root → Prop}, (∀ root, w.root[rootId]? = some root →
      root.searchable = true → ((begin build generation rootId (manifest o batch.records) .delta
        (some batch.base) w).isSome ↔ p root)) →
      ((begin build generation rootId (manifest o batch.records) .delta
        (some batch.base) w).isSome ↔
        ∃ root, w.root[rootId]? = some root ∧ root.searchable = true ∧ p root) := by
    intro p hp
    constructor
    · intro h
      obtain ⟨t, hbegin⟩ := Option.isSome_iff_exists.mp h
      obtain ⟨_, hclaim, _⟩ := Option.bind_eq_some_iff.mp hbegin
      obtain ⟨root, hroot, hclaim⟩ := Option.bind_eq_some_iff.mp hclaim
      split at hclaim
      · cases hclaim
      · rename_i hsearchable
        rw [Bool.not_eq_false] at hsearchable
        exact ⟨root, hroot, hsearchable, (hp root hroot hsearchable).mp h⟩
    · rintro ⟨root, hroot, hsearchable, h⟩
      exact (hp root hroot hsearchable).mpr h
  unfold Standing Unhindered
  rw [claimed_of_existing]
  cases hexisting : existingJob rootId (manifest o batch.records) .delta (some batch.base) w with
  | some job =>
    rw [and_iff_right (.inr rfl)]
    exact hroots fun root hroot hsearchable => begin_existing hroot hsearchable hexisting
  | none =>
    rw [or_iff_left (by simp)]
    refine (hroots fun root hroot hsearchable =>
      begin_new hroot hsearchable hfresh hexisting).trans ?_
    constructor
    · rintro ⟨root, hroot, hsearchable, hcurrent, hstarts⟩
      exact ⟨hcurrent, root, hroot, hsearchable, hstarts⟩
    · rintro ⟨hcurrent, root, hroot, hsearchable, hstarts⟩
      exact ⟨root, hroot, hsearchable, hcurrent, hstarts⟩

end Begin

/-- The import of a saved batch begins if and only if no other generation has become current since
the batch was saved and before its import was claimed, and none of the other checks refuses it.
Once overtaken, it is refused for as long as the batch is saved. -/
theorem held_import_iff (hbatch : 0 < o.importer.batchSize) {overtaken : Prop}
    (h : Held o rootId batch s history overtaken) :
    (overtaken → ∀ build generation,
      begin build generation rootId (manifest o batch.records) .delta (some batch.base) s.importer =
        none) ∧
    ∀ build generation, shownImport rootId s.importer ≠ some generation →
      ((begin build generation rootId (manifest o batch.records) .delta (some batch.base)
        s.importer).isSome ↔ ¬overtaken ∧ Unhindered o rootId batch s.importer) := by
  have hiff : Standing o rootId batch s.importer ↔ ¬overtaken := by
    induction h with
    | saved _ _ hstep hnone hsaved => exact iff_of_true (standing_saved hstep hnone hsaved) id
    | step hheld hdrawn hstep hkept ih =>
      obtain ⟨hrun, hsaved⟩ := hheld.delivery
      rw [standing_step hbatch hrun hdrawn hstep hsaved hkept, ih, not_or]
  refine ⟨fun hover build generation => begin_refused (fun hstanding => ?_) build generation,
    fun build generation hfresh => ?_⟩
  · exact hiff.mp hstanding hover
  · rw [begin_isSome hfresh, hiff]

def playHeld (o : Outbox) (rootId : Text) (batch : OutboxBatch) (es : List OutboxDrain.Event)
    (s : OutboxDrain.State) (history : List Job) : Option (OutboxDrain.State × List Job) :=
  Scripts.playLogged Drawn
    (fun s e => (OutboxDrain.step o s e).filter fun t => t.batches[rootId]? = some batch)
    published es s history

theorem playHeld_run {es : List OutboxDrain.Event} {later : List Job} {overtaken : Prop}
    (h : Held o rootId batch s history overtaken)
    (hplay : playHeld o rootId batch es s history = some (t, later)) :
    ∃ overtaken, Held o rootId batch t later overtaken := by
  refine Scripts.playLogged_keeps (fun s history => ∃ overtaken,
    Held o rootId batch s history overtaken) ?_ ⟨overtaken, h⟩ hplay
  rintro s log e t ⟨overtaken, h⟩ hdrawn hstep
  obtain ⟨hstep, hkept⟩ := Option.filter_eq_some_iff.mp hstep
  exact ⟨_, h.step hdrawn hstep (of_decide_eq_true hkept)⟩

def secondImport : List OutboxDrain.Event :=
  [.run ['k'] ['2'] ['r'] [98, 121, 10] .full none, .fill, .bulk 1 true, .checkpoint, .fill,
    .publish ['q']].map .work

def oneMove : OutboxBatch := ⟨['1'], 1, 1, [⟨['k'], ['r'], ['b'], ['y'], 1, 0⟩]⟩

/-- A drain crashes after its batch is saved, and another full import is published. -/
theorem overtaken_by_import :
    ∃ s history overtaken, Held plainOutbox ['r'] oneMove s history overtaken ∧ overtaken ∧
      ∀ build generation, begin build generation ['r'] (manifest plainOutbox oneMove.records) .delta
        (some oneMove.base) s.importer = none := by
  have hrun : (play plainOutbox (fullImport ++ [moved 'k' 'b' 'y']) emptyOutbox []).any (fun r =>
      r.1.batches[(['r'] : Text)]? = none ∧
        (OutboxDrain.step plainOutbox r.1 (.save ['r'])).any fun s =>
          s.batches[(['r'] : Text)]? = some oneMove ∧
            (playHeld plainOutbox ['r'] oneMove (.work .stop :: secondImport) s
              (r.2 ++ published r.1 (.save ['r']))).any fun t =>
                (t.1.importer.attempt.any fun a => a.job.rootId = ['r']) ∧
                (∀ job ∈ t.1.importer.jobs, job.mode = .full) ∧
                (OutboxDrain.step plainOutbox t.1 (.work .commit)).any fun u =>
                  u.batches[(['r'] : Text)]? = some oneMove) = true := by
    decide +kernel
  obtain ⟨⟨r, history⟩, hplay, hrun⟩ := (Option.any_eq_true _ _).mp hrun
  obtain ⟨hnone, hrun⟩ := of_decide_eq_true hrun
  obtain ⟨s, hsave, hrun⟩ := (Option.any_eq_true _ _).mp hrun
  obtain ⟨hsaved, hrun⟩ := of_decide_eq_true hrun
  obtain ⟨⟨t, later⟩, hheld, hrun⟩ := (Option.any_eq_true _ _).mp hrun
  obtain ⟨hattempt, hfull, hrun⟩ := of_decide_eq_true hrun
  obtain ⟨u, hcommit, hkept⟩ := (Option.any_eq_true _ _).mp hrun
  obtain ⟨a, ha, hroot⟩ := (Option.any_eq_true _ _).mp hattempt
  have hstart : Held plainOutbox ['r'] oneMove s (history ++ published r (.save ['r'])) False :=
    .saved (play_run emptyOutbox_delivery hplay) trivial hsave hnone hsaved
  obtain ⟨overtaken, hend⟩ := playHeld_run hstart hheld
  have hover : Overtakes plainOutbox ['r'] oneMove t (.work .commit) := by
    refine ⟨⟨a, ha, of_decide_eq_true hroot⟩, ?_⟩
    rintro ⟨p, ⟨job, hjob, rfl, _⟩, himports⟩
    cases (hfull job hjob).symm.trans (show job.mode = .delta from himports.mode)
  have hlast : Held plainOutbox ['r'] oneMove u (later ++ published t (.work .commit))
      (overtaken ∨ Overtakes plainOutbox ['r'] oneMove t (.work .commit)) :=
    hend.step ⟨trivial, trivial⟩ hcommit (of_decide_eq_true hkept)
  exact ⟨u, _, _, hlast, .inr hover, (held_import_iff (by decide) hlast).1 (.inr hover)⟩

end StrandedBatches
