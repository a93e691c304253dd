import WiseWay.PublishedExactly

/-! # The bases of deltas

A delta goes to the generation that is current when it is claimed. A generation is drawn once, so
the base of a published delta never becomes current again. -/
namespace DeltaBases

open Records ArchiveImport ImportVersions ArchiveManifests PublishedArchives ExactSnapshots
  PublishedExactly

variable {v : Service} {w t : World} {history : List Job} {job : Job}

/-- Steps that leave the index rows as they are. -/
def Leaves : Event → Prop
  | .commit => False
  | .restore _ _ _ => False
  | _ => True

/-- What a step does to the journal and to the index rows. -/
inductive Moves (w t : World) : Event → Prop where
  | kept {e : Event} (change : Job → Job) : Leaves e → t.jobs = w.jobs.map change →
      (∀ job, claimed (change job) = claimed job) →
      (∀ job, (change job).state = .aborted → job.state = .aborted ∨
        e = .abort job.rootId ∧ job.state = .building) →
      (∀ job, job.state = .aborted → (change job).state = .aborted ∨
        ∃ a, w.attempt = some a ∧ a.job.id = job.id) →
      t.index = w.index → Moves w t e
  | stored {build generation rootId : Text} {source : Bytes} {mode : Mode} {base : Option Text}
      (job : Job) : Stores w build generation rootId source mode base job → job.base = base →
      t.jobs = w.jobs ++ [job] → t.index = w.index →
      Moves w t (.run build generation rootId source mode base)
  | committed (job : Job) (pitId : Text) (row : IndexRow) : w.attempt = some ⟨job, .pinned pitId⟩ →
      (job.mode = .delta → (w.index[job.rootId]?).map (·.generation) = job.base) →
      row.generation = job.generation → t.jobs = w.jobs →
      t.index = w.index.insert job.rootId row → Moves w t .commit
  | restored {rootId pitId generation : Text} (row : IndexRow) : row.generation = generation →
      t.jobs = w.jobs → t.index = w.index.insert rootId row →
      Moves w t (.restore rootId pitId generation)

theorem claim_base {build generation rootId : Text} {source : Bytes} {mode : Mode}
    {base : Option Text} (h : claim build generation rootId source mode base w = some (t, job)) :
    job.base = base := by
  unfold claim at h
  obtain ⟨root, _, h⟩ := Option.bind_eq_some_iff.mp h
  split at h
  · cases h
  split at h
  · rename_i existing hfind
    split at h
    · cases h
      exact (existingJob_some hfind).2.2.2.2.1
    · cases h
  · split at h
    · cases h
    · obtain ⟨name, _, h⟩ := Option.map_eq_some_iff.mp h
      cases h
      rfl

theorem Moves.same {e : Event} (hleaves : Leaves e) (hjobs : t.jobs = w.jobs)
    (hindex : t.index = w.index) : Moves w t e := by
  refine .kept id hleaves ?_ (fun _ => rfl) (fun _ => Or.inl) (fun _ => Or.inl) hindex
  rw [hjobs, List.map_id]

theorem begin_cases {build generation rootId : Text} {source : Bytes} {mode : Mode}
    {base : Option Text} (h : begin build generation rootId source mode base w = some t) :
    ∃ u job, claim build generation rootId source mode base w = some (u, job) ∧
      t.jobs = u.jobs ∧ t.index = u.index ∧
      (job.state = .published ∧ t.attempt = u.attempt ∨
        job.state ≠ .published ∧ ∃ phase, t.attempt = some ⟨job, phase⟩) := by
  obtain ⟨⟨u, job⟩, hclaim, hrest⟩ := Option.bind_eq_some_iff.mp h
  refine ⟨u, job, hclaim, ?_⟩
  dsimp only at hrest
  split at hrest
  · rename_i hpublished
    cases hrest
    exact ⟨rfl, rfl, .inl ⟨hpublished, rfl⟩⟩
  rename_i hopen
  split at hrest
  · cases hrest
    exact ⟨rfl, rfl, .inr ⟨hopen, _, rfl⟩⟩
  · obtain ⟨ensured, hensured, rfl⟩ := Option.map_eq_some_iff.mp hrest
    obtain ⟨engine, rfl⟩ := ensure_some hensured
    exact ⟨rfl, rfl, .inr ⟨hopen, _, rfl⟩⟩

theorem begin_moves {build generation rootId : Text} {source : Bytes} {mode : Mode}
    {base : Option Text} (h : begin build generation rootId source mode base w = some t) :
    Moves w t (.run build generation rootId source mode base) := by
  obtain ⟨u, job, hclaim, hjobs, hindex, _⟩ := begin_cases h
  rcases claim_cases hclaim with ⟨rfl, _⟩ | ⟨rfl, hstores⟩
  · exact .same trivial hjobs hindex
  · exact .stored job hstores (claim_base hclaim) hjobs hindex

theorem apply_kept (name : Text) (batch : List Revision) (w : World) :
    (apply name batch w).jobs = w.jobs ∧ (apply name batch w).index = w.index := by
  unfold apply
  split
  · exact ⟨rfl, rfl⟩
  · exact ⟨rfl, rfl⟩

theorem step_moves {e : Event} (hstep : step v w e = some t) : Moves w t e := by
  cases e with
  | run build generation rootId source mode base =>
    simp only [step] at hstep
    split at hstep
    · exact begin_moves hstep
    · cases hstep
  | fill =>
    simp only [step] at hstep
    split at hstep
    · split at hstep
      · cases hstep
        exact .same trivial rfl rfl
      · split at hstep
        · split at hstep
          · cases hstep
            exact .same trivial rfl rfl
          · cases hstep
            exact .same trivial rfl rfl
        · cases hstep
          exact .same trivial rfl rfl
        · cases hstep
    · cases hstep
  | bulk applied answered =>
    simp only [step] at hstep
    split at hstep
    · rename_i job batch _ _ _
      obtain ⟨hjobs, hindex⟩ := apply_kept job.indexName (batch.take applied) w
      split at hstep
      · split at hstep
        · cases hstep
          exact .same trivial hjobs hindex
        · cases hstep
      · cases hstep
        exact .same trivial hjobs hindex
    · cases hstep
  | checkpoint =>
    simp only [step] at hstep
    split at hstep
    · cases hstep
      refine .kept _ trivial rfl (fun job => ?_) (fun job hstate => ?_) (fun job hstate => ?_) rfl
      · split <;> rfl
      · split at hstate
        · exact .inl hstate
        · exact .inl hstate
      · split
        · exact .inl hstate
        · exact .inl hstate
    · cases hstep
  | publish pitId =>
    simp only [step] at hstep
    split at hstep
    · obtain ⟨index, _, rfl⟩ := Option.map_eq_some_iff.mp hstep
      exact .same trivial rfl rfl
    · cases hstep
  | commit =>
    simp only [step] at hstep
    split at hstep
    · rename_i job pitId hattempt
      obtain ⟨u, hu, rfl⟩ := Option.map_eq_some_iff.mp hstep
      obtain ⟨root, _, hu⟩ := Option.bind_eq_some_iff.mp hu
      split at hu
      · rename_i hchecks
        cases hu
        exact .committed job pitId _ hattempt hchecks.2 rfl rfl rfl
      · cases hu
    · cases hstep
  | finish =>
    simp only [step] at hstep
    split at hstep
    · rename_i hattempt
      cases hstep
      refine .kept _ trivial rfl (fun job => ?_) (fun job hstate => ?_) (fun job hstate => ?_) rfl
      · split <;> rfl
      · split at hstate
        · cases hstate
        · exact .inl hstate
      · split
        · rename_i hid
          exact .inr ⟨_, hattempt, hid.symm⟩
        · exact .inl hstate
    · cases hstep
  | stop =>
    cases hstep
    exact .same trivial rfl rfl
  | abort rootId =>
    simp only [step] at hstep
    split at hstep
    · cases hstep
      refine .kept _ trivial rfl (fun job => ?_) (fun job hstate => ?_) (fun job hstate => ?_) rfl
      · split <;> rfl
      · split at hstate
        · rename_i hbuilding
          exact .inr ⟨by rw [hbuilding.1], hbuilding.2⟩
        · exact .inl hstate
      · split
        · exact .inl rfl
        · exact .inl hstate
    · cases hstep
  | restore rootId pitId generation =>
    simp only [step] at hstep
    split at hstep
    · obtain ⟨row, _, hrestore⟩ := Option.bind_eq_some_iff.mp hstep
      obtain ⟨snapshot, _, hrestore⟩ := Option.bind_eq_some_iff.mp hrestore
      split at hrestore
      · obtain ⟨index, _, rfl⟩ := Option.map_eq_some_iff.mp hrestore
        exact .restored _ rfl rfl rfl
      · cases hrestore
    · cases hstep
  | losePit pitId =>
    cases hstep
    exact .same trivial rfl rfl
  | configure rootId root =>
    cases hstep
    exact .same trivial rfl rfl

/-- An attempt that goes on is for the job that it was claimed for. -/
theorem attempt_job {e : Event} {a : ArchiveImport.Attempt}
    (hother : ∀ build generation rootId source mode base,
      e ≠ .run build generation rootId source mode base)
    (hstep : step v w e = some t) (ha : t.attempt = some a) :
    ∃ b, w.attempt = some b ∧ b.job = a.job := by
  have hphase : ∀ {u : World} {b : ArchiveImport.Attempt} {phase : ArchiveImport.Phase},
      u.attempt = w.attempt → w.attempt = some b → (setPhase phase u).attempt = some a →
      ∃ b, w.attempt = some b ∧ b.job = a.job := by
    intro u b phase hu hb hset
    rw [setPhase, hu, hb] at hset
    cases hset
    exact ⟨b, hb, rfl⟩
  cases e with
  | run build generation rootId source mode base =>
    exact (hother build generation rootId source mode base rfl).elim
  | fill =>
    simp only [step] at hstep
    split at hstep
    · rename_i hattempt
      split at hstep
      · cases hstep
        cases ha
      · split at hstep
        · split at hstep
          · cases hstep
            exact hphase rfl hattempt ha
          · cases hstep
            cases ha
        · cases hstep
          exact hphase rfl hattempt ha
        · cases hstep
    · cases hstep
  | bulk applied answered =>
    simp only [step] at hstep
    split at hstep
    · rename_i job batch _ _ hattempt
      have hkept : (apply job.indexName (batch.take applied) w).attempt = w.attempt := by
        unfold apply
        split <;> rfl
      split at hstep
      · split at hstep
        · cases hstep
          exact hphase (u := { apply job.indexName (batch.take applied) w with
            sent := w.sent ++ batch.map fun r => ⟨job.id, r⟩ }) hkept hattempt ha
        · cases hstep
      · cases hstep
        cases ha
    · cases hstep
  | checkpoint =>
    simp only [step] at hstep
    split at hstep
    · rename_i hattempt
      cases hstep
      exact hphase (u := updateJob _ _ w) rfl hattempt ha
    · cases hstep
  | publish pitId =>
    simp only [step] at hstep
    split at hstep
    · rename_i hattempt _
      obtain ⟨index, _, rfl⟩ := Option.map_eq_some_iff.mp hstep
      exact hphase (u := { w with pits := w.pits.insert pitId index.docs }) rfl hattempt ha
    · cases hstep
  | commit =>
    simp only [step] at hstep
    split at hstep
    · rename_i job pitId hattempt
      obtain ⟨u, hu, rfl⟩ := Option.map_eq_some_iff.mp hstep
      obtain ⟨root, _, hu⟩ := Option.bind_eq_some_iff.mp hu
      split at hu
      · cases hu
        exact hphase (u := { w with index := _ }) rfl hattempt ha
      · cases hu
    · cases hstep
  | finish =>
    simp only [step] at hstep
    split at hstep
    · cases hstep
      cases ha
    · cases hstep
  | stop =>
    cases hstep
    cases ha
  | abort rootId =>
    simp only [step] at hstep
    split at hstep
    · rename_i hnone
      cases hstep
      cases hnone.symm.trans (show w.attempt = some a from ha)
    · cases hstep
  | restore rootId pitId generation =>
    simp only [step] at hstep
    split at hstep
    · rename_i hnone _
      obtain ⟨row, _, hrestore⟩ := Option.bind_eq_some_iff.mp hstep
      obtain ⟨snapshot, _, hrestore⟩ := Option.bind_eq_some_iff.mp hrestore
      split at hrestore
      · obtain ⟨index, _, rfl⟩ := Option.map_eq_some_iff.mp hrestore
        cases hnone.symm.trans (show w.attempt = some a from ha)
      · cases hrestore
    · cases hstep
  | losePit pitId =>
    cases hstep
    exact ⟨a, ha, rfl⟩
  | configure rootId root =>
    cases hstep
    exact ⟨a, ha, rfl⟩

/-! Generations are drawn once. -/

/-- The import whose generation a delta builds on is published, and no published delta builds on
a current generation. -/
structure Bases (w : World) (history : List Job) : Prop where
  published : ∀ a ∈ w.jobs.map claimed, a.mode = .delta → ∀ b ∈ w.jobs.map claimed,
    a.base = some b.generation → b ∈ history
  left : ∀ p ∈ history, p.mode = .delta → ∀ row, w.index[p.rootId]? = some row →
    p.base ≠ some row.generation

theorem Exact.current_published (h : Exact v w history) (hc : Consistent w) {rootId : Text}
    {row : IndexRow} (hrow : w.index[rootId]? = some row) {a : Job} (ha : a ∈ w.jobs)
    (hgeneration : row.generation = a.generation) : claimed a ∈ history := by
  obtain ⟨snapshot, hsnapshot, hlast⟩ := h.rows.current rootId row hrow a ha hgeneration
  exact (mem_inForce (Exact.named h hc hrow hsnapshot ha hlast).1).1

/-- What the names that are drawn have to differ from. -/
def NewBase (w : World) : Event → Prop
  | .run _ generation _ _ _ _ => ∀ job ∈ w.jobs, job.base ≠ some generation
  | .restore _ _ generation => ∀ job ∈ w.jobs, job.base ≠ some generation
  | _ => True

theorem bases_step {e : Event} (h : Exact v w history) (hc : Consistent w) (hb : Bases w history)
    (hfresh : Fresh w e) (hnew : NewBase w e) (hstep : step v w e = some t) :
    Bases t (history ++ publication w e) := by
  cases step_moves hstep with
  | kept change hleaves hjobs hclaimed _ _ hindex =>
    rw [publication_other (by rintro rfl; exact hleaves), List.append_nil]
    have hsame : t.jobs.map claimed = w.jobs.map claimed := by
      rw [hjobs, List.map_map]
      exact List.map_congr_left fun job _ => hclaimed job
    refine ⟨?_, ?_⟩
    · rw [hsame]
      exact hb.published
    · rw [hindex]
      exact hb.left
  | @stored build generation rootId source mode base job hstores hbase hjobs hindex =>
    rw [publication_other (by simp), List.append_nil]
    refine ⟨?_, ?_⟩
    · rw [hjobs, List.map_append]
      intro a ha hdelta b hb' hsame
      rcases List.mem_append.mp ha with ha | ha
      · rcases List.mem_append.mp hb' with hold | hlast
        · exact hb.published a ha hdelta b hold hsame
        · obtain ⟨old, hold, rfl⟩ := List.mem_map.mp ha
          rw [List.mem_singleton.mp hlast] at hsame
          exact absurd (hsame.trans (congrArg some hstores.drawn)) (hnew old hold)
      · rw [List.mem_singleton.mp ha] at hdelta hsame
        obtain ⟨row, snapshot, hto⟩ := hstores.based (hstores.ofMode.symm.trans hdelta)
        have hcurrent : some row.generation = some b.generation :=
          (hto.current.trans hbase.symm).trans hsame
        rcases List.mem_append.mp hb' with hold | hlast
        · obtain ⟨old, hmem, rfl⟩ := List.mem_map.mp hold
          exact Exact.current_published h hc hto.found hmem (Option.some.inj hcurrent)
        · rw [List.mem_singleton.mp hlast] at hcurrent
          exact absurd ((Option.some.inj hcurrent).trans hstores.drawn)
            (hfresh.2 row (mem_list.mpr ⟨_, hto.found⟩))
    · rw [hindex]
      exact hb.left
  | committed job pitId row hattempt hbase hgeneration hjobs hindex =>
    have hpublication : publication w .commit = [claimed job] := by rw [publication, hattempt]
    have hunder := h.attempt _ hattempt
    obtain ⟨b, hjob, hsame, _⟩ := hunder.row
    have hnewJob : claimed job ∉ history := hunder.unpublished (by simp)
    rw [hpublication]
    refine ⟨?_, ?_⟩
    · rw [hjobs]
      intro a ha hdelta c hc' hsame'
      exact List.mem_append_left _ (hb.published a ha hdelta c hc' hsame')
    · intro p hp hdelta current hcurrent hsame'
      rw [hindex, get_put] at hcurrent
      split at hcurrent
      · rename_i hroot
        cases hcurrent
        rcases List.mem_append.mp hp with hp | hp
        · apply hnewJob
          rw [← hsame]
          refine hb.published p (h.journal.journaled p hp) hdelta (claimed b)
            (List.mem_map_of_mem hjob) (hsame'.trans ?_)
          exact congrArg some (hgeneration.trans (claimed_same hsame).generation.symm)
        · -- The import would build on its own generation.
          rw [List.mem_singleton.mp hp] at hdelta hsame'
          have hown := (hbase hdelta).trans (show job.base = _ from hsame')
          obtain ⟨old, hold, hgen⟩ := Option.map_eq_some_iff.mp hown
          apply hnewJob
          rw [← hsame]
          exact Exact.current_published h hc hold hjob
            ((hgen.trans hgeneration).trans (claimed_same hsame).generation.symm)
      · rename_i hroot
        rcases List.mem_append.mp hp with hp | hp
        · exact hb.left p hp hdelta current hcurrent hsame'
        · rw [List.mem_singleton.mp hp] at hroot
          exact absurd rfl hroot
  | @restored rootId pitId generation row hgeneration hjobs hindex =>
    rw [publication_other (by simp), List.append_nil]
    refine ⟨hjobs ▸ hb.published, ?_⟩
    intro p hp hdelta current hcurrent hsame
    rw [hindex, get_put] at hcurrent
    split at hcurrent
    · cases hcurrent
      obtain ⟨a, ha, rfl⟩ := List.mem_map.mp (h.journal.journaled p hp)
      exact hnew a ha (hsame.trans (congrArg some hgeneration))
    · exact hb.left p hp hdelta current hcurrent hsame

/-! Imports that have not been aborted. -/

/-- The journal has the import, and it has not been aborted. -/
def Live (w : World) (p : Job) : Prop := ∃ a ∈ w.jobs, claimed a = p ∧ a.state ≠ .aborted

theorem live_step {e : Event} {p : Job} (hstep : step v w e = some t)
    (habort : e = .abort p.rootId → ∀ a ∈ w.jobs, a.rootId = p.rootId → a.state ≠ .building)
    (h : Live w p) : Live t p := by
  obtain ⟨a, ha, hsame, hlive⟩ := h
  cases step_moves hstep with
  | kept change _ hjobs hclaimed hstate _ _ =>
    refine ⟨change a, hjobs ▸ List.mem_map_of_mem ha, (hclaimed a).trans hsame, ?_⟩
    intro haborted
    rcases hstate a haborted with hold | ⟨he, hbuilding⟩
    · exact hlive hold
    · have hroot : a.rootId = p.rootId := by
        rw [← hsame]
        rfl
      rw [hroot] at he
      exact habort he a ha hroot hbuilding
  | stored job _ _ hjobs _ =>
    refine ⟨a, ?_, hsame, hlive⟩
    rw [hjobs]
    exact List.mem_append_left _ ha
  | committed _ _ _ _ _ _ hjobs _ => exact ⟨a, hjobs ▸ ha, hsame, hlive⟩
  | restored _ _ hjobs _ => exact ⟨a, hjobs ▸ ha, hsame, hlive⟩

theorem live_before {e : Event} {p : Job} (hexact : Exact v w history) (hc : Consistent w)
    (hstep : step v w e = some t) (h : Live t p) :
    Live w p ∨ ∃ build generation rootId source mode base job,
      e = .run build generation rootId source mode base ∧
      Stores w build generation rootId source mode base job ∧ job.base = base ∧
      claimed job = p := by
  obtain ⟨a, ha, hsame, hlive⟩ := h
  cases hmoves : step_moves hstep with
  | kept change _ hjobs hclaimed _ hrevived _ =>
    rw [hjobs] at ha
    obtain ⟨b, hb, rfl⟩ := List.mem_map.mp ha
    refine .inl ⟨b, hb, (hclaimed b).symm.trans hsame, fun haborted => ?_⟩
    rcases hrevived b haborted with hstill | ⟨attempt, hattempt, hid⟩
    · exact hlive hstill
    · -- The import that ends is unfinished, so no aborted one is revived.
      obtain ⟨c, hjob, hsame', hbuilding⟩ := (hexact.attempt _ hattempt).row
      obtain rfl := row_unique hc hb hjob (hid.symm.trans (claimed_same hsame').id.symm)
      rw [haborted] at hbuilding
      cases hbuilding
  | stored job hstores hbase hjobs _ =>
    rw [hjobs] at ha
    rcases List.mem_append.mp ha with hold | hnew
    · exact .inl ⟨a, hold, hsame, hlive⟩
    · rw [List.mem_singleton.mp hnew] at hsame
      exact .inr ⟨_, _, _, _, _, _, job, rfl, hstores, hbase, hsame⟩
  | committed _ _ _ _ _ _ hjobs _ => exact .inl ⟨a, hjobs ▸ ha, hsame, hlive⟩
  | restored _ _ hjobs _ => exact .inl ⟨a, hjobs ▸ ha, hsame, hlive⟩

end DeltaBases
