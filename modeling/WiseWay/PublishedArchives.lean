import WiseWay.ArchiveManifests

/-! # Published archives

A run of the importer together with the imports that it has published, which are those whose
transaction has replaced the index row. What the journal, the index rows, the engine and the
points in time know of them, each on its own. -/
namespace PublishedArchives

open Records ArchiveImport ImportVersions LastWriters ArchiveManifests

variable {v : Service} {w t : World} {jobs : List Job} {history : List Job}

def claimed (job : Job) : Job := { job with byteOffset := 0, records := 0, state := .building }

theorem claimed_claimed (job : Job) : claimed (claimed job) = claimed job := rfl

def publication (w : World) : Event → List Job
  | .commit => match w.attempt with
    | some ⟨job, .pinned _⟩ => [claimed job]
    | _ => []
  | _ => []

theorem publication_other {e : Event} (h : e ≠ .commit) : publication w e = [] := by
  unfold publication
  split
  · exact absurd rfl h
  · rfl

/-- `uid` draws new names, and the engine gives new points in time new ids. -/
def Fresh (w : World) : Event → Prop
  | .run build generation _ _ _ _ =>
    (∀ job ∈ w.jobs, job.indexName ≠ build ∧ job.generation ≠ generation) ∧
      ∀ row ∈ list w.index, row.generation ≠ generation
  | .publish pitId => ∀ row ∈ list w.index, row.storage.map (·.pitId) ≠ some pitId
  | .restore _ pitId generation =>
    (∀ job ∈ w.jobs, job.generation ≠ generation) ∧
      ∀ row ∈ list w.index, row.storage.map (·.pitId) ≠ some pitId
  | _ => True

instance (w : World) (e : Event) : Decidable (Fresh w e) := by
  cases e <;> unfold Fresh <;> infer_instance

inductive History (v : Service) : World → List Job → Prop where
  | start (root : Table ArchiveImport.Root) (index : Table IndexRow) :
      (∀ (k : Text) row, index[k]? = some row → row.storage = none) →
      History v ⟨[], 0, root, index, ∅, ∅, none, []⟩ []
  | step {w t : World} {history : List Job} {e : Event} : History v w history → Fresh w e →
      step v w e = some t → History v t (history ++ publication w e)

theorem History.run (h : History v w history) : Run v w := by
  induction h with
  | start root index hindex => exact .start root index hindex
  | step _ _ hstep ih => exact ih.step hstep

/-! Inversion. -/

theorem existingJob_some {rootId : Text} {source : Bytes} {mode : Mode} {base : Option Text}
    {job : Job} (h : existingJob rootId source mode base w = some job) :
    job ∈ w.jobs ∧ job.rootId = rootId ∧ job.sourceHash = source ∧ job.mode = mode ∧
      job.base = base ∧ job.state ≠ .aborted := by
  have hmem := List.mem_reverse.mp (List.mem_of_find?_eq_some h)
  have hkey := List.find?_some h
  exact ⟨hmem, of_decide_eq_true hkey⟩

/-- A delta goes to the index of its base. -/
structure DeltaTo (w : World) (rootId : Text) (base : Option Text) (name : Text)
    (row : IndexRow) (snapshot : Snapshot) : Prop where
  found : w.index[rootId]? = some row
  stored : row.storage = some snapshot
  current : some row.generation = base
  clean : ∀ job ∈ w.jobs, ¬(job.indexName = snapshot.indexName ∧ job.state = .aborted)
  named : snapshot.indexName = name

theorem deltaIndex_some {rootId name : Text} {base : Option Text}
    (h : deltaIndex rootId base w = some name) :
    ∃ row snapshot, DeltaTo w rootId base name row snapshot := by
  obtain ⟨row, hrow, h⟩ := Option.bind_eq_some_iff.mp h
  obtain ⟨snapshot, hsnapshot, h⟩ := Option.bind_eq_some_iff.mp h
  split at h
  · rename_i hchecks
    exact ⟨row, snapshot, hrow, hsnapshot, hchecks.1, hchecks.2.2, Option.some.inj h⟩
  · cases h

/-- The job that `_claim` stores when it finds none. -/
structure Stores (w : World) (build generation rootId : Text) (source : Bytes) (mode : Mode)
    (base : Option Text) (job : Job) : Prop where
  absent : existingJob rootId source mode base w = none
  idle : ∀ other ∈ w.jobs, other.rootId = rootId → other.state ≠ .building
  numbered : job.id = w.sequence + 1
  ofRoot : job.rootId = rootId
  ofSource : job.sourceHash = source
  ofMode : job.mode = mode
  drawn : job.generation = generation
  unread : job.records = 0
  building : job.state = .building
  built : mode = .full → job.indexName = build
  based : mode = .delta → ∃ row snapshot, DeltaTo w rootId base job.indexName row snapshot

theorem claim_cases {build generation rootId : Text} {source : Bytes} {mode : Mode}
    {base : Option Text} {job : Job}
    (h : claim build generation rootId source mode base w = some (t, job)) :
    (t = w ∧ existingJob rootId source mode base w = some job) ∨
      (t = { w with jobs := w.jobs ++ [job], sequence := w.sequence + 1 } ∧
        Stores w build generation rootId source mode base job) := by
  unfold claim at h
  obtain ⟨root, _, h⟩ := Option.bind_eq_some_iff.mp h
  split at h
  · cases h
  split at h
  · rename_i existing hfind
    split at h
    · cases h
      exact .inl ⟨rfl, hfind⟩
    · cases h
  · rename_i hfind
    split at h
    · cases h
    · rename_i hidle
      obtain ⟨name, hname, h⟩ := Option.map_eq_some_iff.mp h
      cases h
      refine .inr ⟨rfl, hfind, ?_, rfl, rfl, rfl, rfl, rfl, rfl, rfl, ?_, ?_⟩
      · intro other hother hroot hstate
        exact hidle ⟨other, hother, hroot, hstate⟩
      · intro hfull
        rw [if_pos hfull] at hname
        exact (Option.some.inj hname).symm
      · intro hdelta
        rw [if_neg (by simp [hdelta])] at hname
        exact deltaIndex_some hname

/-! Jobs in force. -/

theorem inForce_append (rootId : Text) (history : List Job) (job : Job) :
    inForce rootId (history ++ [job]) = if job.rootId ≠ rootId then inForce rootId history
      else if job.mode = .full then [job] else inForce rootId history ++ [job] := by
  rw [inForce, List.foldl_append]
  rfl

theorem mem_inForce_last {rootId : Text} {job : Job} (h : job.rootId = rootId) :
    job ∈ inForce rootId (history ++ [job]) := by
  rw [inForce_append, if_neg (not_not.mpr h)]
  split
  · exact List.mem_singleton_self _
  · exact List.mem_append_right _ (List.mem_singleton_self _)

theorem mem_inForce {rootId : Text} {job : Job} (h : job ∈ inForce rootId history) :
    job ∈ history ∧ job.rootId = rootId := by
  induction history using List.reverseRecOn with
  | nil => cases h
  | append_singleton history last ih =>
    rw [inForce_append] at h
    split at h
    · exact ⟨List.mem_append_left _ (ih h).1, (ih h).2⟩
    · rename_i hroot
      rw [not_not] at hroot
      split at h
      · rw [List.mem_singleton.mp h]
        exact ⟨List.mem_append_right _ (List.mem_singleton_self _), hroot⟩
      · rcases List.mem_append.mp h with h | h
        · exact ⟨List.mem_append_left _ (ih h).1, (ih h).2⟩
        · rw [List.mem_singleton.mp h]
          exact ⟨List.mem_append_right _ (List.mem_singleton_self _), hroot⟩

/-! The journal. -/

/-- At most one import of a root is unfinished, and it is the newest. It has its index to
itself, or adds to one whose other imports are all published. -/
structure Journal (jobs history : List Job) : Prop where
  newest : ∀ a ∈ jobs, a.state = .building → ∀ b ∈ jobs, b.rootId = a.rootId → b.id ≤ a.id
  root : ∀ a ∈ jobs, ∀ b ∈ jobs, a.indexName = b.indexName → a.rootId = b.rootId
  generation : ∀ a ∈ jobs, ∀ b ∈ jobs, a.generation = b.generation → a.id = b.id
  alone : ∀ a ∈ jobs, a.state = .building → ∀ b ∈ jobs, b.indexName = a.indexName →
    b.id = a.id ∨ a.mode = .delta ∧ b.state = .published
  journaled : ∀ p ∈ history, p ∈ jobs.map claimed
  published : ∀ a ∈ jobs, a.state = .published → claimed a ∈ history

structure Same (a b : Job) : Prop where
  id : a.id = b.id
  rootId : a.rootId = b.rootId
  source : a.sourceHash = b.sourceHash
  mode : a.mode = b.mode
  config : a.configHash = b.configHash
  name : a.indexName = b.indexName
  generation : a.generation = b.generation

theorem claimed_same {a b : Job} (h : claimed a = claimed b) : Same a b := by
  simp only [claimed, Job.mk.injEq] at h
  obtain ⟨hid, hroot, hsource, hmode, hconfig, _, hname, hgeneration, _⟩ := h
  exact ⟨hid, hroot, hsource, hmode, hconfig, hname, hgeneration⟩

/-- A new job that finds no unfinished one of its root. -/
theorem Journal.append (h : Journal jobs history) {job : Job}
    (hid : ∀ a ∈ jobs, a.id ≤ job.id)
    (hidle : ∀ a ∈ jobs, a.rootId = job.rootId → a.state ≠ .building)
    (hgeneration : ∀ a ∈ jobs, a.generation ≠ job.generation) (hstate : job.state = .building)
    (hindex : ∀ a ∈ jobs, a.indexName = job.indexName →
      a.rootId = job.rootId ∧ job.mode = .delta ∧ a.state = .published) :
    Journal (jobs ++ [job]) history := by
  have hcases : ∀ a ∈ jobs ++ [job], a ∈ jobs ∨ a = job := by
    intro a ha
    rcases List.mem_append.mp ha with ha | ha
    · exact .inl ha
    · exact .inr (List.mem_singleton.mp ha)
  constructor
  · intro a ha hbuilding b hb hroot
    rcases hcases a ha with hold | rfl
    · rcases hcases b hb with hother | rfl
      · exact h.newest a hold hbuilding b hother hroot
      · exact absurd hbuilding (hidle a hold hroot.symm)
    · rcases hcases b hb with hother | rfl
      · exact hid b hother
      · exact le_rfl
  · intro a ha b hb hname
    rcases hcases a ha with hold | rfl
    · rcases hcases b hb with hother | rfl
      · exact h.root a hold b hother hname
      · exact (hindex a hold hname).1
    · rcases hcases b hb with hother | rfl
      · exact (hindex b hother hname.symm).1.symm
      · rfl
  · intro a ha b hb hsame
    rcases hcases a ha with hold | rfl
    · rcases hcases b hb with hother | rfl
      · exact h.generation a hold b hother hsame
      · exact absurd hsame (hgeneration a hold)
    · rcases hcases b hb with hother | rfl
      · exact absurd hsame.symm (hgeneration b hother)
      · rfl
  · intro a ha hbuilding b hb hname
    rcases hcases a ha with hold | rfl
    · rcases hcases b hb with hother | rfl
      · exact h.alone a hold hbuilding b hother hname
      · exact absurd hbuilding (hidle a hold (hindex a hold hname.symm).1)
    · rcases hcases b hb with hother | rfl
      · exact .inr (hindex b hother hname).2
      · exact .inl rfl
  · intro p hp
    rw [List.map_append]
    exact List.mem_append_left _ (h.journaled p hp)
  · intro a ha hpublished
    rcases hcases a ha with hold | rfl
    · exact h.published a hold hpublished
    · rw [hstate] at hpublished
      cases hpublished

/-- Rows that keep what they claimed, and of which only published imports are finished. -/
theorem Journal.rewrite (h : Journal jobs history) {change : Job → Job}
    (hclaimed : ∀ job, claimed (change job) = claimed job)
    (hbuilding : ∀ job ∈ jobs, (change job).state = .building → job.state = .building)
    (hkept : ∀ job ∈ jobs, job.state = .published → (change job).state = .published)
    (hpublished : ∀ job ∈ jobs, (change job).state = .published → claimed job ∈ history) :
    Journal (jobs.map change) history := by
  have hsame : ∀ job, Same (change job) job := fun job => claimed_same (hclaimed job)
  have hid : ∀ job, (change job).id = job.id := fun job => (hsame job).id
  have hroot : ∀ job, (change job).rootId = job.rootId := fun job => (hsame job).rootId
  have hname : ∀ job, (change job).indexName = job.indexName := fun job => (hsame job).name
  have hgeneration : ∀ job, (change job).generation = job.generation :=
    fun job => (hsame job).generation
  have hmode : ∀ job, (change job).mode = job.mode := fun job => (hsame job).mode
  constructor
  · simp only [List.forall_mem_map, hid, hroot]
    intro a ha hstate
    exact h.newest a ha (hbuilding a ha hstate)
  · simp only [List.forall_mem_map, hname, hroot]
    exact h.root
  · simp only [List.forall_mem_map, hgeneration, hid]
    exact h.generation
  · simp only [List.forall_mem_map, hname, hid, hmode]
    intro a ha hstate b hb hsame
    rcases h.alone a ha (hbuilding a ha hstate) b hb hsame with heq | ⟨hdelta, hdone⟩
    · exact .inl heq
    · exact .inr ⟨hdelta, hkept b hb hdone⟩
  · rw [List.map_map, show claimed ∘ change = claimed from funext hclaimed]
    exact h.journaled
  · simp only [List.forall_mem_map, hclaimed]
    exact hpublished

theorem Journal.publish (h : Journal jobs history) {job : Job} (hjob : job ∈ jobs) :
    Journal jobs (history ++ [claimed job]) := by
  refine { h with journaled := ?_, published := ?_ }
  · intro p hp
    rcases List.mem_append.mp hp with hp | hp
    · exact h.journaled p hp
    · rw [List.mem_singleton.mp hp]
      exact List.mem_map_of_mem hjob
  · intro a ha hstate
    exact List.mem_append_left _ (h.published a ha hstate)

/-! The index rows. -/

/-- An index row shows the imports in force: all of them are in its index, and no other
published import is. -/
structure Shows (jobs : List Job) (forced : List Job) (snapshot : Snapshot) : Prop where
  format : snapshot.searchFormat = searchFormat
  name : ∀ p ∈ forced, p.indexName = snapshot.indexName
  last : ∃ earlier p, forced = earlier ++ [p] ∧ p.generation = snapshot.importGeneration
  all : ∀ a ∈ jobs, a.state = .published → a.indexName = snapshot.indexName → claimed a ∈ forced
  ascending : forced.Pairwise fun a b => a.id < b.id
  headed : ∃ full deltas, forced = full :: deltas ∧ full.mode = .full ∧
    ∀ delta ∈ deltas, delta.mode = .delta

theorem Shows.mem_last {forced : List Job} {snapshot : Snapshot} (h : Shows jobs forced snapshot) :
    ∃ p ∈ forced, p.generation = snapshot.importGeneration := by
  obtain ⟨earlier, p, hforced, hgeneration⟩ := h.last
  exact ⟨p, hforced ▸ List.mem_append_right _ (List.mem_singleton_self _), hgeneration⟩

structure Rows (jobs : List Job) (index : Table IndexRow) (history : List Job) : Prop where
  shows : ∀ (rootId : Text) row snapshot, index[rootId]? = some row →
    row.storage = some snapshot → Shows jobs (inForce rootId history) snapshot
  delta : ∀ a ∈ jobs, a.state = .building → a.mode = .delta →
    ∃ row snapshot, index[a.rootId]? = some row ∧ row.storage = some snapshot ∧
      snapshot.indexName = a.indexName
  committed : ∀ a ∈ jobs, a.state = .building → claimed a ∈ history →
    ∃ row snapshot, index[a.rootId]? = some row ∧ row.storage = some snapshot ∧
      row.generation = a.generation ∧ snapshot.importGeneration = a.generation
  current : ∀ (rootId : Text) row, index[rootId]? = some row → ∀ a ∈ jobs,
    row.generation = a.generation →
      ∃ snapshot, row.storage = some snapshot ∧ snapshot.importGeneration = a.generation

theorem Rows.append {index : Table IndexRow} (h : Rows jobs index history) {job : Job}
    (hstate : job.state = .building) (hnew : claimed job ∉ history)
    (hdelta : job.mode = .delta → ∃ row snapshot, index[job.rootId]? = some row ∧
      row.storage = some snapshot ∧ snapshot.indexName = job.indexName)
    (hdrawn : ∀ (rootId : Text) row, index[rootId]? = some row →
      row.generation ≠ job.generation) :
    Rows (jobs ++ [job]) index history := by
  constructor
  · intro rootId row snapshot hrow hsnapshot
    have hshows := h.shows rootId row snapshot hrow hsnapshot
    refine { hshows with all := ?_ }
    intro a ha hpublished
    rcases List.mem_append.mp ha with ha | ha
    · exact hshows.all a ha hpublished
    · rw [List.mem_singleton.mp ha, hstate] at hpublished
      cases hpublished
  · intro a ha hbuilding hmode
    rcases List.mem_append.mp ha with ha | ha
    · exact h.delta a ha hbuilding hmode
    · rw [List.mem_singleton.mp ha] at hmode ⊢
      exact hdelta hmode
  · intro a ha hbuilding hin
    rcases List.mem_append.mp ha with ha | ha
    · exact h.committed a ha hbuilding hin
    · rw [List.mem_singleton.mp ha] at hin
      exact absurd hin hnew
  · intro rootId row hrow a ha hgeneration
    rcases List.mem_append.mp ha with ha | ha
    · exact h.current rootId row hrow a ha hgeneration
    · rw [List.mem_singleton.mp ha] at hgeneration
      exact absurd hgeneration (hdrawn rootId row hrow)

theorem Rows.rewrite {index : Table IndexRow} (h : Rows jobs index history) {change : Job → Job}
    (hclaimed : ∀ job, claimed (change job) = claimed job)
    (hbuilding : ∀ job ∈ jobs, (change job).state = .building → job.state = .building)
    (hpublished : ∀ job ∈ jobs, (change job).state = .published → job.state = .published ∨
      ∃ row snapshot, index[job.rootId]? = some row ∧ row.storage = some snapshot ∧
        claimed job ∈ inForce job.rootId history)
    (hroot : ∀ (rootId : Text) row snapshot, index[rootId]? = some row →
      row.storage = some snapshot → ∀ job ∈ jobs, job.indexName = snapshot.indexName →
      job.rootId = rootId) :
    Rows (jobs.map change) index history := by
  have hsame : ∀ job, Same (change job) job := fun job => claimed_same (hclaimed job)
  have hrootId : ∀ job, (change job).rootId = job.rootId := fun job => (hsame job).rootId
  have hname : ∀ job, (change job).indexName = job.indexName := fun job => (hsame job).name
  have hgeneration : ∀ job, (change job).generation = job.generation :=
    fun job => (hsame job).generation
  have hmode : ∀ job, (change job).mode = job.mode := fun job => (hsame job).mode
  constructor
  · intro rootId row snapshot hrow hsnapshot
    have hshows := h.shows rootId row snapshot hrow hsnapshot
    refine { hshows with all := ?_ }
    simp only [List.forall_mem_map, hname, hclaimed]
    intro a ha hstate hsame
    rcases hpublished a ha hstate with hold | ⟨_, _, _, _, hforced⟩
    · exact hshows.all a ha hold hsame
    · rw [hroot rootId row snapshot hrow hsnapshot a ha hsame] at hforced
      exact hforced
  · simp only [List.forall_mem_map, hname, hrootId, hmode]
    intro a ha hstate
    exact h.delta a ha (hbuilding a ha hstate)
  · simp only [List.forall_mem_map, hrootId, hgeneration, hclaimed]
    intro a ha hstate
    exact h.committed a ha (hbuilding a ha hstate)
  · simp only [List.forall_mem_map, hgeneration]
    exact h.current

theorem Rows.root_eq {index : Table IndexRow} (h : Rows jobs index history)
    (hjournal : Journal jobs history) {rootId : Text} {row : IndexRow} {snapshot : Snapshot}
    (hrow : index[rootId]? = some row) (hsnapshot : row.storage = some snapshot) {job : Job}
    (hjob : job ∈ jobs) (hname : job.indexName = snapshot.indexName) : job.rootId = rootId := by
  have hshows := h.shows rootId row snapshot hrow hsnapshot
  obtain ⟨p, hp, _⟩ := hshows.mem_last
  obtain ⟨hin, hroot⟩ := mem_inForce hp
  obtain ⟨a, ha, rfl⟩ := List.mem_map.mp (hjournal.journaled p hin)
  have hindex : a.indexName = snapshot.indexName := hshows.name (claimed a) hp
  exact (hjournal.root job hjob a ha (hname.trans hindex.symm)).trans hroot

end PublishedArchives
