import WiseWay.PublishedExactly

/-! # What a successful import means

A full import that returns has published its manifest, unless the journal has the same manifest
from before: then an old result is returned, whatever has been published or aborted since. -/
namespace ImportsInForce

open Records ArchiveImport ImportVersions ArchiveManifests PublishedArchives ExactSnapshots
  PublishedExactly

variable {v : Service} {w t : World} {history : List Job} {job : Job} {e : Event}

/-- The import whose result `run` returns with this step. -/
def returned (w : World) : Event → Option Job
  | .run build generation rootId source mode base =>
    (claim build generation rootId source mode base w).bind fun (_, job) =>
      if job.state = .published then some job else none
  | .finish => match w.attempt with
    | some ⟨job, .committed⟩ => some job
    | _ => none
  | _ => none

def DeltaAborted (w : World) (rootId : Text) : Prop :=
  ∃ a ∈ w.jobs, a.rootId = rootId ∧ a.mode = .delta ∧ a.state = .aborted

/-- `_claim` has no objection to a new delta on this generation. -/
def Admissible (w : World) (rootId generation : Text) : Prop :=
  (∀ a ∈ w.jobs, a.rootId = rootId → a.state ≠ .building) ∧
    ∃ name, deltaIndex rootId (some generation) w = some name

/-- The index row has what the result names, the documents of a point in time that it points to
are those of the manifest, and a delta can follow where one was aborted. -/
structure InForce (v : Service) (w : World) (job : Job) : Prop where
  shown : ∃ row snapshot, w.index[job.rootId]? = some row ∧ row.generation = job.generation ∧
    row.storage = some snapshot ∧ snapshot.indexName = job.indexName ∧
    ∀ docs, w.pits[snapshot.pitId]? = some docs →
      ∃ items, replayed v [job] = some items ∧ ∀ item : Text, live docs item = items[item]?
  admits : DeltaAborted w job.rootId → Admissible w job.rootId job.generation

/-- The journal has no finished import of this manifest, or the one that it has is what the
index row shows; and where a delta was aborted, it was on another index and nothing is
unfinished. -/
def Current (w : World) : Event → Prop
  | .run _ _ rootId source mode base =>
    ∀ job, existingJob rootId source mode base w = some job → job.state = .published →
      (∃ row, w.index[rootId]? = some row ∧ row.generation = job.generation) ∧
      (DeltaAborted w rootId → (∀ a ∈ w.jobs, a.rootId = rootId → a.state ≠ .building) ∧
        ∀ a ∈ w.jobs, ¬(a.indexName = job.indexName ∧ a.state = .aborted))
  | _ => True

theorem inForce_full {jobs forced earlier : List Job} {snapshot : Snapshot} {p : Job}
    (h : Shows jobs forced snapshot) (hforced : forced = earlier ++ [p]) (hmode : p.mode = .full) :
    forced = [p] := by
  obtain ⟨full, deltas, hheaded, _, hdeltas⟩ := h.headed
  cases earlier with
  | nil => exact hforced
  | cons first earlier =>
    have hp : p ∈ deltas := by
      have hsame := hheaded.symm.trans hforced
      rw [List.cons_append] at hsame
      rw [(List.cons.inj hsame).2]
      exact List.mem_append_right _ (List.mem_singleton_self _)
    have hdelta := hdeltas p hp
    rw [hmode] at hdelta
    cases hdelta

theorem Exact.only (h : Exact v w history) (hc : Consistent w) {row : IndexRow} {a : Job}
    (ha : a ∈ w.jobs) (hmode : a.mode = .full) {rootId : Text}
    (hrow : w.index[rootId]? = some row) (hgeneration : row.generation = a.generation) :
    ∃ snapshot, row.storage = some snapshot ∧ snapshot.searchFormat = searchFormat ∧
      a.rootId = rootId ∧ snapshot.indexName = a.indexName ∧
      inForce rootId history = [claimed a] := by
  obtain ⟨snapshot, hsnapshot, hlast⟩ := h.rows.current rootId row hrow a ha hgeneration
  have hshows := h.rows.shows rootId row snapshot hrow hsnapshot
  obtain ⟨hforced, hname⟩ := Exact.named h hc hrow hsnapshot ha hlast
  obtain ⟨earlier, p, hlist, hp⟩ := hshows.last
  have hin : p ∈ inForce rootId history := by
    rw [hlist]
    exact List.mem_append_right _ (List.mem_singleton_self _)
  obtain ⟨b, hb, rfl⟩ := List.mem_map.mp (h.journal.journaled p (mem_inForce hin).1)
  obtain rfl := row_unique hc hb ha (h.journal.generation b hb a ha (hp.trans hlast))
  exact ⟨snapshot, hsnapshot, hshows.format, (mem_inForce hforced).2, hname.symm,
    inForce_full hshows hlist hmode⟩

theorem Exact.shown (h : Exact v w history) (hc : Consistent w) {row : IndexRow} {a : Job}
    (ha : a ∈ w.jobs) (hmode : a.mode = .full) {rootId : Text}
    (hrow : w.index[rootId]? = some row) (hgeneration : row.generation = a.generation)
    (hsame : claimed a = claimed job) :
    ∃ row snapshot, w.index[job.rootId]? = some row ∧ row.generation = job.generation ∧
      row.storage = some snapshot ∧ snapshot.indexName = job.indexName ∧
      ∀ docs, w.pits[snapshot.pitId]? = some docs →
        ∃ items, replayed v [job] = some items ∧
          ∀ item : Text, live docs item = items[item]? := by
  have hfields := claimed_same hsame
  obtain ⟨snapshot, hsnapshot, _, hroot, hname, honly⟩ :=
    Exact.only h hc ha hmode hrow hgeneration
  refine ⟨row, snapshot, ?_, hgeneration.trans hfields.generation, hsnapshot,
    hname.trans hfields.name, ?_⟩
  · rw [← hfields.rootId, hroot]
    exact hrow
  · intro docs hdocs
    have hexactly := h.pinned rootId row snapshot docs hrow hsnapshot hdocs
    rw [honly, hsame] at hexactly
    exact hexactly.live_eq

theorem Exact.admits (h : Exact v w history) (hc : Consistent w) {row : IndexRow} {a : Job}
    (ha : a ∈ w.jobs) (hmode : a.mode = .full) {rootId : Text}
    (hrow : w.index[rootId]? = some row) (hgeneration : row.generation = a.generation)
    (hidle : ∀ b ∈ w.jobs, b.rootId = rootId → b.state ≠ .building)
    (hclean : ∀ b ∈ w.jobs, ¬(b.indexName = a.indexName ∧ b.state = .aborted)) :
    Admissible w rootId a.generation := by
  obtain ⟨snapshot, hsnapshot, hformat, _, hname, _⟩ := Exact.only h hc ha hmode hrow hgeneration
  refine ⟨hidle, snapshot.indexName, ?_⟩
  rw [deltaIndex, hrow, Option.bind_some, hsnapshot, Option.bind_some, if_pos]
  refine ⟨congrArg some hgeneration, hformat, ?_⟩
  rw [hname]
  exact hclean

theorem returned_earlier {build generation rootId : Text} {source : Bytes} {mode : Mode}
    {base : Option Text}
    (hstep : step v w (.run build generation rootId source mode base) = some t)
    (hreturned : returned w (.run build generation rootId source mode base) = some job) :
    t = w ∧ existingJob rootId source mode base w = some job ∧ job.state = .published := by
  obtain ⟨⟨u, found⟩, hclaim, hfound⟩ := Option.bind_eq_some_iff.mp hreturned
  dsimp only at hfound
  split at hfound
  · rename_i hpublished
    cases hfound
    simp only [step] at hstep
    split at hstep
    · rw [begin, hclaim, Option.bind_some] at hstep
      simp only [hpublished, if_true] at hstep
      cases hstep
      rcases claim_cases hclaim with ⟨rfl, hexisting⟩ | ⟨_, hstores⟩
      · exact ⟨rfl, hexisting, hpublished⟩
      · rw [hstores.building] at hpublished
        cases hpublished
    · cases hstep
  · cases hfound

theorem returned_finish (h : returned w .finish = some job) :
    w.attempt = some ⟨job, .committed⟩ := by
  simp only [returned] at h
  split at h
  · rename_i found hattempt
    cases h
    exact hattempt
  · cases h

theorem finished_inForce (h : Exact v w history) (hc : Consistent w) (ht : Exact v t history)
    (hct : Consistent t) (hattempt : w.attempt = some ⟨job, .committed⟩)
    (hstep : step v w .finish = some t) (hmode : job.mode = .full) : InForce v t job := by
  have hunder := h.attempt _ hattempt
  obtain ⟨b, hb, hsame, hbuilding⟩ := hunder.row
  have hfields := claimed_same hsame
  obtain ⟨row, snapshot, hrow, hsnapshot, hlast⟩ := hunder.working
  have hforced := (Exact.named h hc hrow hsnapshot hb
    (hlast.trans hfields.generation.symm)).1
  obtain ⟨row', _, hrow', _, hgeneration, _⟩ :=
    h.rows.committed b hb hbuilding (mem_inForce hforced).1
  simp only [step, hattempt] at hstep
  cases hstep
  let change : Job → Job := fun row =>
    if row.id = job.id then { row with state := .published } else row
  have hchange : change b = { b with state := .published } := if_pos hfields.id
  have hin : change b ∈ w.jobs.map change := List.mem_map_of_mem hb
  have hdone : claimed (change b) = claimed job := by
    rw [hchange]
    exact hsame
  have hkept : row'.generation = (change b).generation := by
    rw [hchange]
    exact hgeneration
  have hfull : (change b).mode = .full := by
    rw [hchange]
    exact hfields.mode.trans hmode
  have hmem : ∀ a ∈ w.jobs.map change, a = change b ∨ a ∈ w.jobs ∧ a.id ≠ b.id := by
    intro a ha
    obtain ⟨old, hold, rfl⟩ := List.mem_map.mp ha
    by_cases hid : old.id = job.id
    · rw [row_unique hc hold hb (hid.trans hfields.id.symm)]
      exact .inl rfl
    · have hkeep : change old = old := if_neg hid
      rw [hkeep]
      exact .inr ⟨hold, fun heq => hid (heq.trans hfields.id)⟩
  refine ⟨Exact.shown ht hct hin hfull hrow' hkept hdone, fun _ => ?_⟩
  have hroot : b.rootId = job.rootId := hfields.rootId
  rw [← hroot, ← (claimed_same hdone).generation]
  apply Exact.admits ht hct hin hfull hrow' hkept
  · intro a ha hsameRoot hstate
    rcases hmem a ha with rfl | ⟨hold, hne⟩
    · rw [hchange] at hstate
      cases hstate
    · exact hne (le_antisymm (h.journal.newest b hb hbuilding a hold hsameRoot)
        (h.journal.newest a hold hstate b hb hsameRoot.symm))
  · intro a ha haborted
    rw [hchange] at haborted
    rcases hmem a ha with rfl | ⟨hold, hne⟩
    · rw [hchange] at haborted
      cases haborted.2
    · rcases h.journal.alone b hb hbuilding a hold haborted.1 with hid | ⟨hdelta, _⟩
      · exact hne hid
      · rw [hfields.mode, hmode] at hdelta
        cases hdelta

/-- A full import that returns is in force if and only if its result is not an old one that has
been superseded since, or whose index an aborted delta has reached. -/
theorem returned_inForce_iff (hbatch : 0 < v.batchSize) (h : History v w history)
    (hfresh : Fresh w e) (hstep : step v w e = some t) (hreturned : returned w e = some job)
    (hmode : job.mode = .full) : InForce v t job ↔ Current w e := by
  have hexact := history_exact hbatch h
  have hc := run_consistent h.run
  have hnext := h.step hfresh hstep
  cases e with
  | run build generation rootId source mode base =>
    obtain ⟨rfl, hexisting, hpublished⟩ := returned_earlier hstep hreturned
    obtain ⟨hjob, hroot, _⟩ := existingJob_some hexisting
    constructor
    · rintro ⟨⟨row, snapshot, hrow, hgeneration, hsnapshot, hname, _⟩, hadmits⟩ other hother _
      obtain rfl := Option.some.inj (hexisting.symm.trans hother)
      rw [hroot] at hrow hadmits
      refine ⟨⟨row, hrow, hgeneration⟩, fun haborted => ?_⟩
      obtain ⟨hidle, name, hdelta⟩ := hadmits haborted
      obtain ⟨row', snapshot', hto⟩ := deltaIndex_some hdelta
      obtain rfl := Option.some.inj (hrow.symm.trans hto.found)
      obtain rfl := Option.some.inj (hsnapshot.symm.trans hto.stored)
      rw [← hname]
      exact ⟨hidle, hto.clean⟩
    · intro hcurrent
      obtain ⟨⟨row, hrow, hgeneration⟩, hclean⟩ := hcurrent job hexisting hpublished
      refine ⟨Exact.shown hexact hc hjob hmode hrow hgeneration rfl, fun haborted => ?_⟩
      rw [hroot] at haborted ⊢
      obtain ⟨hidle, hunaborted⟩ := hclean haborted
      exact Exact.admits hexact hc hjob hmode hrow hgeneration hidle hunaborted
  | finish =>
    rw [publication_other (by simp), List.append_nil] at hnext
    have hinForce := finished_inForce hexact hc (history_exact hbatch hnext)
      (run_consistent hnext.run) (returned_finish hreturned) hstep hmode
    exact iff_of_true hinForce trivial
  | fill => cases hreturned
  | bulk applied answered => cases hreturned
  | checkpoint => cases hreturned
  | publish pitId => cases hreturned
  | commit => cases hreturned
  | stop => cases hreturned
  | abort rootId => cases hreturned
  | restore rootId pitId generation => cases hreturned
  | losePit pitId => cases hreturned
  | configure rootId root => cases hreturned

/-- One full import, another one, and the first manifest once more. -/
def repeatedFull : List Event :=
  [.configure ['r'] ⟨true, ['c']⟩, .run ['i'] ['1'] ['r'] [97, 120, 10] .full none, .fill,
    .bulk 1 true, .checkpoint, .fill, .publish ['p'], .commit, .finish,
    .run ['k'] ['3'] ['r'] [98, 121, 10] .full none, .fill, .bulk 1 true, .checkpoint, .fill,
    .publish ['q'], .commit, .finish]

def repeated : Event := .run ['m'] ['5'] ['r'] [97, 120, 10] .full none

/-- A full import, a delta that fails and is aborted, and the full manifest once more. -/
def abortedDelta : List Event :=
  [.configure ['r'] ⟨true, ['c']⟩, .run ['i'] ['1'] ['r'] [97, 120, 10] .full none, .fill,
    .bulk 1 true, .checkpoint, .fill, .publish ['p'], .commit, .finish,
    .run ['k'] ['3'] ['r'] [98, 121, 10] .delta (some ['1']), .fill, .bulk 0 false, .abort ['r']]

/-- The repeated import returns a result that the row does not have. After an aborted delta it
returns one that the row has, and the next delta is still refused. -/
theorem repeated_not_inForce :
    (∃ w t history job, History plain w history ∧ Fresh w repeated ∧
      step plain w repeated = some t ∧ returned w repeated = some job ∧ job.mode = .full ∧
      (t.index[(['r'] : Text)]?).map (·.generation) ≠ some job.generation) ∧
    ∃ w t history job, History plain w history ∧ Fresh w repeated ∧
      step plain w repeated = some t ∧ returned w repeated = some job ∧ job.mode = .full ∧
      DeltaAborted t ['r'] ∧ deltaIndex ['r'] (some job.generation) t = none := by
  have hsuperseded : (playHistory plain repeatedFull empty []).any (fun s =>
      Fresh s.1 repeated ∧ (step plain s.1 repeated).any fun t =>
        (returned s.1 repeated).any fun job => job.mode = .full ∧
          (t.index[(['r'] : Text)]?).map (·.generation) ≠ some job.generation) = true := by
    decide +kernel
  have haborted : (playHistory plain abortedDelta empty []).any (fun s =>
      Fresh s.1 repeated ∧ (step plain s.1 repeated).any fun t =>
        (returned s.1 repeated).any fun job => job.mode = .full ∧
          (∃ a ∈ t.jobs, a.rootId = ['r'] ∧ a.mode = .delta ∧ a.state = .aborted) ∧
          deltaIndex ['r'] (some job.generation) t = none) = true := by
    decide +kernel
  constructor
  · obtain ⟨⟨w, history⟩, hplay, hrun⟩ := (Option.any_eq_true _ _).mp hsuperseded
    obtain ⟨hfresh, hrun⟩ := of_decide_eq_true hrun
    obtain ⟨t, hstep, hrun⟩ := (Option.any_eq_true _ _).mp hrun
    obtain ⟨job, hjob, hrun⟩ := (Option.any_eq_true _ _).mp hrun
    have hrun := of_decide_eq_true hrun
    exact ⟨w, t, history, job, playHistory_run empty_history hplay, hfresh, hstep, hjob, hrun⟩
  · obtain ⟨⟨w, history⟩, hplay, hrun⟩ := (Option.any_eq_true _ _).mp haborted
    obtain ⟨hfresh, hrun⟩ := of_decide_eq_true hrun
    obtain ⟨t, hstep, hrun⟩ := (Option.any_eq_true _ _).mp hrun
    obtain ⟨job, hjob, hrun⟩ := (Option.any_eq_true _ _).mp hrun
    have hrun := of_decide_eq_true hrun
    exact ⟨w, t, history, job, playHistory_run empty_history hplay, hfresh, hstep, hjob, hrun⟩

/-- The same condition after a run to the end. -/
theorem returned_inForce_iff_finish :
    ∃ w t history job, History plain w history ∧ step plain w .finish = some t ∧
      returned w .finish = some job ∧ (InForce plain t job ↔ Current w .finish) := by
  have hrun : (playHistory plain (repeatedFull.take 8) empty []).any (fun s =>
      (step plain s.1 .finish).isSome ∧ (returned s.1 .finish).any fun job =>
        job.mode = .full) = true := by
    decide +kernel
  obtain ⟨⟨w, history⟩, hplay, hrun⟩ := (Option.any_eq_true _ _).mp hrun
  obtain ⟨hstep, hrun⟩ := of_decide_eq_true hrun
  obtain ⟨t, hstep⟩ := Option.isSome_iff_exists.mp hstep
  obtain ⟨job, hjob, hmode⟩ := (Option.any_eq_true _ _).mp hrun
  have hhistory := playHistory_run empty_history hplay
  exact ⟨w, t, history, job, hhistory, hstep, hjob,
    returned_inForce_iff (by decide) hhistory trivial hstep hjob (of_decide_eq_true hmode)⟩

end ImportsInForce
