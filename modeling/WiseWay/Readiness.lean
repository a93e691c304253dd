import WiseWay.ItemHistory
import WiseWay.QuarantineReturn

/-! # Only stable files become ready

The time of the first observation is written by the scanner, by the worker when it finds a
changed source and by a completed return. A run with its past says what each of them saw. -/
namespace Readiness

open Records Services AtomicProgram Calls Intake AttemptTransactions ReturnTransactions
open SortingSystem Effects Changes ReturnContract ClaimExclusivity QueueStates Reconciliation
open ItemHistory

variable {v : Service} {layout : Layout}

structure Moment where
  before : Machine World Cmd Op Val Exn Reply
  event : Event Cmd Choice Env
  after : Machine World Cmd Op Val Exn Reply

inductive Trail (v : Service) (P : World → World → Prop) :
    List Moment → Machine World Cmd Op Val Exn Reply → Prop where
  | start {w : World} : Start w → Trail v P [] ⟨w, none⟩
  | step {past m e n} : Trail v P past m → (within v P).allows m e →
      (system v).step m e = some n → Trail v P (⟨m, e, n⟩ :: past) n

theorem Trail.run {P : World → World → Prop} {past : List Moment}
    {m : Machine World Cmd Op Val Exn Reply} (h : Trail v P past m) : Run v P m := by
  induction h with
  | start hw => exact .init hw
  | step _ hallow hstep ih => exact .tail ih hallow hstep

theorem trail_of_run {P : World → World → Prop} {m : Machine World Cmd Op Val Exn Reply}
    (h : Run v P m) : ∃ past, Trail v P past m := by
  induction h with
  | init hw => exact ⟨[], .start hw⟩
  | tail _ hallow hstep ih =>
    obtain ⟨past, hpast⟩ := ih
    exact ⟨_, .step hpast hallow hstep⟩

/-- At `t₀` the file of an item was seen at a path with an identity: by a scan of its source, by
the worker at the end of an attempt whose source had changed, or by a return that completed. -/
inductive Observed (v : Service) (mo : Moment) (k rootId path : Text) (fp : Fingerprint)
    (t₀ : Time) : Prop where
  | scanned {found : List Found} {f : Found} : mo.event = .other (.scan rootId t₀ found) →
      f ∈ found → f.relative = path → f.fingerprint = fp → Observed v mo k rootId path fp t₀
  | changed {x : Choice} {c : Cmd} {id : Text} {actual : Option Location} {next}
      {a : Attempt} {place : Text} : mo.event = .call x → x.now = t₀ →
      mo.before.holder = some (c, .call (.finish id .skipped (some .sourceChanged) actual) next) →
      mo.before.state.store.attempt[id]? = some a → a.item.itemId = k →
      a.item.source.relativePath = path → physical v.layout a.item.source = .ok place →
      fileAt mo.before.state.tree place = some fp → Observed v mo k rootId path fp t₀
  | returned {x : Choice} {c : Cmd} {id : Text} {next} {o : ReturnOperation}
      {card : QuarantineCard} : mo.event = .call x → x.now = t₀ →
      mo.before.holder = some (c, .call (.finishReturn id) next) →
      mo.before.state.store.returns[id]? = some o →
      mo.before.state.store.quarantine[o.quarantineId]? = some card → card.itemId = k →
      o.target.relativePath = path → o.fingerprint = fp →
      returnedHome v.layout mo.before.state o → Observed v mo k rootId path fp t₀

/-- A scan of the source found the file there; other steps say nothing. -/
def Sees (rootId path : Text) (fp : Fingerprint) (mo : Moment) : Prop :=
  ∀ now found, mo.event = .other (.scan rootId now found) →
    ∃ f ∈ found, f.relative = path ∧ f.fingerprint = fp

/-- The file was observed at `t₀`, and every scan since then saw exactly the same. -/
def Rested (v : Service) (past : List Moment) (k rootId path : Text) (fp : Fingerprint)
    (t₀ : Time) : Prop :=
  ∃ newer mo older, past = newer ++ mo :: older ∧ Observed v mo k rootId path fp t₀ ∧
    ∀ later ∈ newer, Sees rootId path fp later

theorem Rested.now {past : List Moment} {mo : Moment} {k rootId path : Text} {fp : Fingerprint}
    {t₀ : Time} (h : Observed v mo k rootId path fp t₀) :
    Rested v (mo :: past) k rootId path fp t₀ :=
  ⟨[], mo, past, rfl, h, by simp⟩

theorem Rested.later {past : List Moment} {mo : Moment} {k rootId path : Text} {fp : Fingerprint}
    {t₀ : Time} (h : Rested v past k rootId path fp t₀) (hsees : Sees rootId path fp mo) :
    Rested v (mo :: past) k rootId path fp t₀ := by
  obtain ⟨newer, first, older, rfl, hobserved, hnewer⟩ := h
  refine ⟨mo :: newer, first, older, rfl, hobserved, fun later hlater => ?_⟩
  rcases List.mem_cons.mp hlater with rfl | hlater
  · exact hsees
  · exact hnewer later hlater

/-! The rows of a scan. -/

/-- How a row came to be what it is after a scan of a source. -/
inductive ScanRow (v : Service) (rootId : Text) (now : Time) (found : List Found)
    (before : Option QueueItem) (q' : QueueItem) : Prop where
  | kept : before = some q' → q'.incomingSourceId ≠ rootId ∨ locked q' = true ∨
      q'.departed = true → ScanRow v rootId now found before q'
  | missing : q'.status = .missing → q'.selectable = false → ScanRow v rootId now found before q'
  | same {p : Pass} {q : QueueItem} {file : Found} : file ∈ found → before = some q →
      locked q = false → q.fingerprint = file.fingerprint →
      q.source.relativePath = file.relative → q.status ≠ .missing → p.now = now →
      q' = p.sameItem v.casefold v.settings q file → ScanRow v rootId now found before q'
  | fresh {file : Found} : file ∈ found → q'.source.relativePath = file.relative →
      q'.fingerprint = file.fingerprint → q'.observedAt = now → q'.status = .waitingReady →
      q'.selectable = false → q'.incomingSourceId = rootId → ScanRow v rootId now found before q'

theorem known_row {p : Pass} {q : QueueItem} {file : Found} {rootId : Text} {now : Time}
    {found : List Found} (hfile : file ∈ found) (hroot : q.incomingSourceId = rootId)
    (hnow : p.now = now) :
    ScanRow v rootId now found (some q) (p.known v.casefold v.settings q file) := by
  unfold Pass.known
  cases hl : locked q with
  | true =>
    rw [if_pos rfl]
    exact .kept rfl (.inr (.inl hl))
  | false =>
    rw [if_neg (by simp)]
    split
    · rename_i hsame
      exact .same hfile rfl hl hsame.1 hsame.2.1 hsame.2.2 hnow rfl
    · exact .fresh hfile rfl rfl hnow rfl rfl hroot

theorem scan_row {P : World → World → Prop} {m n : Machine World Cmd Op Val Exn Reply}
    {rootId : Text} {now : Time} {found : List Found} (h : Run v P m)
    (hstep : (system v).step m (.other (.scan rootId now found)) = some n) {k : Text}
    {q' : QueueItem} (hq' : n.state.store.queue[k]? = some q') :
    ScanRow v rootId now found m.state.store.queue[k]? q' := by
  obtain ⟨p, assigned, hscanned, hknown, hfinished⟩ := scan_finished h hstep
  have hp : p.rootId = rootId ∧ p.now = now := by
    cases hscanned
    exact ⟨rfl, rfl⟩
  by_cases hassigned : ∃ a ∈ assignments p found [], a.itemId = k
  · obtain ⟨a, ha, rfl⟩ := hassigned
    have hfile : a.file ∈ found := by
      have := List.mem_map_of_mem (f := fun a : Assignment => a.file) ha
      rwa [assignments_files] at this
    cases hfinished.placed a ha with
    | new _ _ hrow =>
      obtain rfl := Option.some.inj (hrow.symm.trans hq')
      exact .fresh hfile rfl rfl hp.2 rfl rfl hp.1
    | known _ hrow hroot hnext =>
      obtain rfl := Option.some.inj (hnext.symm.trans hq')
      rw [hrow]
      exact known_row hfile (hroot.trans hp.1) hp.2
  · obtain ⟨q, hq, rfl⟩ := hfinished.swept_of (fun a ha heq => hassigned ⟨a, ha, heq⟩) hq'
    have hsound := run_sound h k q hq
    rw [hq]
    rcases swept_cases p assigned hsound with ⟨heq, hwhy⟩ | ⟨heq, _, hfree⟩
    · rw [heq]
      rcases hwhy with hwhy | hwhy | hwhy | hwhy
      · exact .kept rfl (.inl (hp.1 ▸ hwhy))
      · rw [(hknown.key k q hq).1, hfinished.ids] at hwhy
        exact absurd hwhy hassigned
      · exact .kept rfl (.inr (.inr hwhy))
      · exact .kept rfl (.inr (.inl hwhy))
    · obtain ⟨hprocessing, hrecovery, _⟩ := locked_eq_false.mp hfree
      have hmissing := missingItem_status q
      rw [heq]
      exact .missing hmissing ((sound_missing hsound hprocessing hrecovery).missing hmissing).1

/-! Statuses on the way to readiness. -/

/-- Not held, not gone and without a decision to take. -/
def resting (status : QueueStatus) : Prop :=
  status = .discovered ∨ status = .waitingReady ∨ status = .ready

theorem SoundItem.unlocked_of_resting {q : QueueItem} (h : SoundItem q) (hq : resting q.status) :
    locked q = false := by
  by_contra hl
  have := h.locked_iff.mp (by simpa using hl)
  rcases hq with hq | hq | hq <;> simp [hq] at this

theorem sameItem_resting {p : Pass} {q : QueueItem} {file : Found}
    (hname : temporaryName v.casefold file.relative = false)
    (h : resting (p.sameItem v.casefold v.settings q file).status) :
    resting q.status ∧ (p.sameItem v.casefold v.settings q file).observedAt = q.observedAt ∧
      ((p.sameItem v.casefold v.settings q file).status = .ready → q.status = .ready ∨
        v.settings.readiness ≤ p.now - q.observedAt) := by
  unfold Pass.sameItem at h ⊢
  dsimp only at h ⊢
  rw [if_neg (by simp [hname])] at h ⊢
  split
  · rename_i hready
    exact ⟨hready.1.imp_right .inl, rfl, fun _ => .inr hready.2⟩
  · rename_i hwaiting
    rw [if_neg hwaiting] at h
    exact ⟨h, rfl, fun hready => .inl hready⟩

theorem sameItem_temporary {p : Pass} {q : QueueItem} {file : Found}
    (hname : temporaryName v.casefold file.relative = true) :
    (p.sameItem v.casefold v.settings q file).status = .waitingReady := by
  unfold Pass.sameItem
  dsimp only
  rw [if_pos hname]

theorem finishedItem_resting {state : OutcomeState} {reason : Option Reason}
    {current : Option Fingerprint} {now : Time} {q : QueueItem}
    (h : resting (finishedItem state reason current now q).status) :
    state = .skipped ∧ reason = some .sourceChanged ∧
      current = some (finishedItem state reason current now q).fingerprint ∧
      (finishedItem state reason current now q).observedAt = now ∧
      (finishedItem state reason current now q).status = .waitingReady := by
  unfold finishedItem at h ⊢
  split at h
  · simp [resting] at h
  · simp [resting] at h
  · cases current with
    | none => simp [resting] at h
    | some observed => exact ⟨rfl, rfl, rfl, rfl, rfl⟩
  · simp [resting] at h

theorem currentSource_changed {tree : FileTree} {a : Attempt} {fp : Fingerprint}
    (h : currentSource layout tree a .skipped (some .sourceChanged) = .ok (some fp)) :
    ∃ place, physical layout a.item.source = .ok place ∧ fileAt tree place = some fp := by
  unfold currentSource at h
  rw [if_pos ⟨rfl, rfl⟩] at h
  obtain ⟨place, hplace, h⟩ := bind_eq_ok.mp h
  obtain ⟨_, _, h⟩ := bind_eq_ok.mp h
  exact ⟨place, hplace, Except.ok.inj h⟩

/-! Returns go home. -/

/-- The target of a return is the place its card remembers. -/
def Homeward (s : Store) : Prop :=
  ∀ (id : Text) (o : ReturnOperation) card, s.returns[id]? = some o →
    s.quarantine[o.quarantineId]? = some card → o.target = card.originalLocation

theorem Homeward.same {s t : Store} (h : Homeward s) (hreturns : t.returns = s.returns)
    (hquarantine : t.quarantine = s.quarantine) : Homeward t := by
  intro id o card ho hcard
  exact h id o card (hreturns ▸ ho) (hquarantine ▸ hcard)

theorem Homeward.put {s t : Store} {id k : Text} {o : ReturnOperation}
    {card card' : QuarantineCard} (h : Homeward s) (hreturns : t.returns = s.returns.insert id o)
    (hquarantine : t.quarantine = s.quarantine.insert k card')
    (hcard : s.quarantine[k]? = some card) (hhome : card'.originalLocation = card.originalLocation)
    (hk : o.quarantineId = k) (ho : o.target = card.originalLocation) : Homeward t := by
  intro j r c hr hc
  rw [hreturns, get_put] at hr
  rw [hquarantine, get_put] at hc
  split at hr
  · cases hr
    rw [if_pos hk.symm] at hc
    cases hc
    exact ho.trans hhome.symm
  · split at hc
    · rename_i hj
      cases hc
      exact (h j r card hr (hj ▸ hcard)).trans hhome.symm
    · exact h j r c hr hc

theorem homeward_effect {w t : World} (hw : Coherent w) (hcards : QuarantineReturn.Cards w.store)
    (h : Homeward w.store) (he : Effect layout w t) : Homeward t.store := by
  cases he with
  | @finished id a item current state reason actual now ha hd hitem _ =>
    rcases QuarantineReturn.finished_cards id a item current state reason actual now w.store with
      hsame | ⟨k, q, hfree, hput, _⟩
    · exact h.same rfl hsame
    · intro j o card ho hcard
      rw [hput, get_put] at hcard
      split at hcard
      · rename_i hk
        obtain ⟨c, hc⟩ := hcards.card j o ho
        rw [← hk, hfree] at hc
        cases hc
      · exact h j o card ho hcard
  | @began id request card expected _ hcard _ _ =>
    have hk : card.quarantineId = request.quarantineId := hw.quarantine_key _ _ hcard
    have hrow : w.store.quarantine[card.quarantineId]? = some card := hk.symm ▸ hcard
    exact h.put rfl rfl hrow rfl rfl rfl
  | @rejected o card ho _ _ hcard =>
    have hk : card.quarantineId = o.quarantineId := hw.quarantine_key _ _ hcard
    have hrow : w.store.quarantine[card.quarantineId]? = some card := hk.symm ▸ hcard
    exact h.put rfl rfl hrow rfl hk.symm (h _ o card ho hcard)
  | @returnLocked id now o card ho _ hcard =>
    have hk : card.quarantineId = o.quarantineId := hw.quarantine_key _ _ hcard
    have hrow : w.store.quarantine[card.quarantineId]? = some card := hk.symm ▸ hcard
    exact h.put rfl rfl hrow rfl hk.symm (h _ o card ho hcard)
  | @returned id o card item now ho _ _ hcard _ =>
    have hk : card.quarantineId = o.quarantineId := hw.quarantine_key _ _ hcard
    have hrow : w.store.quarantine[card.quarantineId]? = some card := hk.symm ▸ hcard
    exact h.put rfl rfl hrow rfl hk.symm (h _ o card ho hcard)
  | _ => exact h.same rfl rfl

theorem run_homeward {P : World → World → Prop} {m : Machine World Cmd Op Val Exn Reply}
    (h : Run v P m) : Homeward m.state.store := by
  have hall : QuarantineReturn.Cards m.state.store ∧ Homeward m.state.store := by
    refine invariant (J := fun w => QuarantineReturn.Cards w.store ∧ Homeward w.store) ?_
      (fun _ _ hw ⟨hc, hh⟩ _ he =>
        ⟨QuarantineReturn.cards_effect hw hc he, homeward_effect hw hc hh he⟩)
      (fun _ _ _ ⟨hc, hh⟩ _ he => ?_) (fun _ _ _ ⟨hc, hh⟩ he => ?_) h
    · intro w hw
      refine ⟨by constructor <;> simp [hw.returns, hw.quarantine], fun id o card ho => ?_⟩
      simp [hw.returns] at ho
    · cases he <;> exact ⟨QuarantineReturn.cards_same hc rfl rfl, hh.same rfl rfl⟩
    · cases he <;> exact ⟨QuarantineReturn.cards_same hc rfl rfl, hh.same rfl rfl⟩
  exact hall.2

/-! Names of unfinished downloads. -/

theorem not_scan {e : Event Cmd Choice Env}
    (h : ¬∃ rootId now found, e = .other (.scan rootId now found)) :
    ∀ rootId now found, e ≠ .other (.scan rootId now found) :=
  fun rootId now found heq => h ⟨rootId, now, found, heq⟩

theorem ready_kept {P : World → World → Prop} {m n : Machine World Cmd Op Val Exn Reply}
    {e : Event Cmd Choice Env} (h : Run v P m) (hstep : (system v).step m e = some n)
    (hscan : ¬∃ rootId now found, e = .other (.scan rootId now found)) {k : Text} {q' : QueueItem}
    (hq' : n.state.store.queue[k]? = some q') (hready : q'.status = .ready) :
    m.state.store.queue[k]? = some q' := by
  cases row_step h hstep (not_scan hscan) k with
  | kept hkept =>
    cases hkept with
    | same hrow => exact hrow ▸ hq'
    | claimed _ hrow =>
      obtain rfl := Option.some.inj (hrow.symm.trans hq')
      simp [claimedItem] at hready
  | call _ _ hcall =>
    cases hcall with
    | same hrow => exact hrow ▸ hq'
    | finished _ _ _ _ _ _ hrow =>
      obtain rfl := Option.some.inj (hrow.symm.trans hq')
      have hwaiting := (finishedItem_resting (.inr (.inr hready))).2.2.2.2
      simp [hwaiting] at hready
    | locked _ hrow =>
      obtain rfl := Option.some.inj (hrow.symm.trans hq')
      simp at hready
    | returned _ _ _ _ _ _ hrow _ =>
      obtain rfl := Option.some.inj (hrow.symm.trans hq')
      simp [returnedItem] at hready

theorem run_named {P : World → World → Prop} {m : Machine World Cmd Op Val Exn Reply}
    (h : Run v P m) : ∀ (k : Text) q, m.state.store.queue[k]? = some q → q.status = .ready →
      temporaryName v.casefold q.source.relativePath = false := by
  induction h with
  | init hw =>
    intro k q hq
    simp [hw.queue] at hq
  | @tail m n e hprev _ hstep ih =>
    intro k q' hq' hready
    by_cases hscan : ∃ rootId now found, e = .other (.scan rootId now found)
    · obtain ⟨rootId, now, found, rfl⟩ := hscan
      cases scan_row hprev hstep hq' with
      | kept hsame _ => exact ih k q' hsame hready
      | missing hmissing _ => simp [hmissing] at hready
      | @same p q file _ _ _ _ _ hpresent _ heq =>
        subst heq
        rw [(sameItem_fields q file hpresent).1]
        cases hname : temporaryName v.casefold file.relative with
        | true => simp [sameItem_temporary hname] at hready
        | false => exact hname
      | fresh _ _ _ _ hwaiting _ _ => simp [hwaiting] at hready
    · exact ih k q' (ready_kept hprev hstep hscan hq' hready) hready

/-! The first observation. -/

theorem sees_other {e : Event Cmd Choice Env} {m n : Machine World Cmd Op Val Exn Reply}
    (h : ¬∃ rootId now found, e = .other (.scan rootId now found)) (rootId path : Text)
    (fp : Fingerprint) : Sees rootId path fp ⟨m, e, n⟩ :=
  fun now found heq => absurd heq (not_scan h rootId now found)

/-- The observed file of an item that rests after a call. -/
theorem call_observed {P : World → World → Prop} {m n : Machine World Cmd Op Val Exn Reply}
    {x : Choice} {c : Cmd} {o : Op} {next : Except Exn (Val o) → Program Reply} {k : Text}
    {q' : QueueItem} (h : Run v P m) (hhome : AtHome m.state.store)
    (hm : m.holder = some (c, .call o next)) (hrow : CallRow v.layout x o m.state n.state k)
    (hq' : n.state.store.queue[k]? = some q') (hrest : resting q'.status)
    (hnew : m.state.store.queue[k]? ≠ some q') :
    Observed v ⟨m, .call x, n⟩ k q'.incomingSourceId q'.source.relativePath q'.fingerprint
      q'.observedAt := by
  cases hrow with
  | same hsame => exact absurd (hsame ▸ hq') hnew
  | @finished id state reason actual a q current ho ha hd hitem hq hcurrent hafter =>
    obtain rfl := Option.some.inj (hafter.symm.trans hq')
    obtain ⟨rfl, rfl, hseen, htime, _⟩ := finishedItem_resting hrest
    rw [hseen] at hcurrent
    obtain ⟨place, hplace, hfile⟩ := currentSource_changed hcurrent
    subst ho
    have hpath := hhome id a ha hd q (hitem ▸ hq)
    refine .changed rfl htime.symm hm ha hitem ?_ hplace hfile
    rw [finishedItem_source]
    exact hpath.symm
  | locked _ hafter =>
    obtain rfl := Option.some.inj (hafter.symm.trans hq')
    simp [resting] at hrest
  | @returned id r card q ho hr hd hcard hitem _ hafter _ =>
    obtain rfl := Option.some.inj (hafter.symm.trans hq')
    subst ho
    obtain ⟨r', hr', _, hreturned⟩ := run_permit h hm
    obtain rfl := Option.some.inj (hr.symm.trans hr')
    refine .returned rfl rfl hm hr hcard hitem ?_ rfl hreturned
    rw [run_homeward h id r card hr hcard]
    rfl

/-- An item that rests has been observed where it is, and every scan since has seen it. -/
theorem trail_rested {past : List Moment} {m : Machine World Cmd Op Val Exn Reply}
    (h : Trail v ReturnsUnclaimed past m) : ∀ (k : Text) q, m.state.store.queue[k]? = some q →
      resting q.status → temporaryName v.casefold q.source.relativePath = false →
        Rested v past k q.incomingSourceId q.source.relativePath q.fingerprint q.observedAt := by
  induction h with
  | start hw =>
    intro k q hq
    simp [hw.queue] at hq
  | @step past m e n hprev hallow hstep ih =>
    intro k q' hq' hrest hname
    have hrun := hprev.run
    by_cases hscan : ∃ rootId now found, e = .other (.scan rootId now found)
    · obtain ⟨rootId, now, found, rfl⟩ := hscan
      cases scan_row hrun hstep hq' with
      | kept hsame hwhy =>
        refine (ih k q' hsame hrest hname).later fun now' found' heq => ?_
        cases heq
        rcases hwhy with hwhy | hwhy | hwhy
        · exact absurd rfl hwhy
        · rw [SoundItem.unlocked_of_resting (run_sound hrun k q' hsame) hrest] at hwhy
          cases hwhy
        · have := (run_left hrun k q' hsame hwhy).2.1
          simp [resting, this] at hrest
      | missing hmissing _ => simp [resting, hmissing] at hrest
      | @same p q file hfile hq _ hprint hpath hpresent _ heq =>
        subst heq
        obtain ⟨hsource, hkept, _, hroot, _⟩ := sameItem_fields (v := v) (p := p) q file hpresent
        have hplace : (p.sameItem v.casefold v.settings q file).source.relativePath =
            file.relative := by
          rw [hsource]
          rfl
        rw [hplace] at hname ⊢
        obtain ⟨hbefore, htime, _⟩ := sameItem_resting hname hrest
        rw [htime, hkept, hroot]
        have hrested := ih k q hq hbefore (hpath ▸ hname)
        rw [hpath] at hrested
        refine hrested.later fun now' found' heq => ?_
        cases heq
        exact ⟨file, hfile, rfl, hprint.symm⟩
      | fresh hfile hpath hprint htime _ _ hroot =>
        rw [hpath, hprint, htime, hroot]
        exact .now (.scanned rfl hfile rfl rfl)
    · by_cases hsame : m.state.store.queue[k]? = some q'
      · exact (ih k q' hsame hrest hname).later (sees_other hscan _ _ _)
      · cases row_step hrun hstep (not_scan hscan) k with
        | kept hkept =>
          cases hkept with
          | same hrow => exact absurd (hrow ▸ hq') hsame
          | claimed _ hrow =>
            obtain rfl := Option.some.inj (hrow.symm.trans hq')
            simp [resting, claimedItem] at hrest
        | call he hm hrow =>
          subst he
          exact .now (call_observed hrun (run_home hrun) hm hrow hq' hrest hsame)

/-- What the readiness law says of one step after its past. -/
structure LawfulStep (v : Service) (past : List Moment) (mo : Moment) : Prop where
  rested : ∀ (k : Text) q', mo.after.state.store.queue[k]? = some q' → q'.status = .ready →
    (∀ q, mo.before.state.store.queue[k]? = some q → q.status ≠ .ready) →
      ∃ now found t₀, mo.event = .other (.scan q'.incomingSourceId now found) ∧
        (∃ f ∈ found, f.relative = q'.source.relativePath ∧ f.fingerprint = q'.fingerprint) ∧
        v.settings.readiness ≤ now - t₀ ∧
        Rested v past k q'.incomingSourceId q'.source.relativePath q'.fingerprint t₀
  temporary : ∀ (k : Text) q', mo.after.state.store.queue[k]? = some q' →
    temporaryName v.casefold q'.source.relativePath = true → q'.status ≠ .ready
  reset : ∀ rootId now found, mo.event = .other (.scan rootId now found) →
    ∀ (k : Text) q, mo.before.state.store.queue[k]? = some q → q.incomingSourceId = rootId →
      locked q = false → ∃ q', mo.after.state.store.queue[k]? = some q' ∧
        (q'.selectable = false ∨ q'.source.relativePath = q.source.relativePath ∧
          q'.fingerprint = q.fingerprint ∧
          ∃ f ∈ found, f.relative = q.source.relativePath ∧ f.fingerprint = q.fingerprint)

theorem step_rested {past : List Moment} {m n : Machine World Cmd Op Val Exn Reply}
    {e : Event Cmd Choice Env} (h : Trail v ReturnsUnclaimed past m)
    (hstep : (system v).step m e = some n) {k : Text} {q' : QueueItem}
    (hq' : n.state.store.queue[k]? = some q') (hready : q'.status = .ready)
    (hnew : ∀ q, m.state.store.queue[k]? = some q → q.status ≠ .ready) :
    ∃ now found t₀, e = .other (.scan q'.incomingSourceId now found) ∧
      (∃ f ∈ found, f.relative = q'.source.relativePath ∧ f.fingerprint = q'.fingerprint) ∧
      v.settings.readiness ≤ now - t₀ ∧
      Rested v past k q'.incomingSourceId q'.source.relativePath q'.fingerprint t₀ := by
  have hrun := h.run
  by_cases hscan : ∃ rootId now found, e = .other (.scan rootId now found)
  · obtain ⟨rootId, now, found, rfl⟩ := hscan
    cases scan_row hrun hstep hq' with
    | kept hsame _ => exact absurd hready (hnew q' hsame)
    | missing hmissing _ => simp [hmissing] at hready
    | @same p q file hfile hq hfree hprint hpath hpresent hnow heq =>
      subst heq
      obtain ⟨hsource, hkept, _, hroot, _⟩ := sameItem_fields (v := v) (p := p) q file hpresent
      have hplace : (p.sameItem v.casefold v.settings q file).source.relativePath =
          file.relative := by
        rw [hsource]
        rfl
      cases hname : temporaryName v.casefold file.relative with
      | true => simp [sameItem_temporary hname] at hready
      | false =>
        obtain ⟨hbefore, _, hwhen⟩ := sameItem_resting hname (.inr (.inr hready))
        have hwait := (hwhen hready).resolve_left (hnew q hq)
        have hrested := trail_rested h k q hq hbefore (hpath ▸ hname)
        have hsrc : q.incomingSourceId = rootId := by
          by_contra hne
          obtain ⟨p', hscanned, hreconciled⟩ := scan_reconciled (run_any hrun) hstep
          have hp' : p'.rootId = rootId := by
            cases hscanned
            rfl
          have hsame := hreconciled.others k _ hq' (by rw [hroot, hp']; exact hne)
          exact hnew _ hsame hready
        rw [hplace, hkept, hroot, ← hpath]
        rw [hnow] at hwait
        exact ⟨now, found, q.observedAt, by rw [hsrc], ⟨file, hfile, hpath.symm, hprint.symm⟩,
          hwait, hrested⟩
    | fresh _ _ _ _ hwaiting _ _ => simp [hwaiting] at hready
  · exact absurd hready (hnew q' (ready_kept hrun hstep hscan hq' hready))

theorem scan_reset {P : World → World → Prop} {m n : Machine World Cmd Op Val Exn Reply}
    {rootId : Text} {now : Time} {found : List Found} (h : Run v P m)
    (hstep : (system v).step m (.other (.scan rootId now found)) = some n) {k : Text}
    {q : QueueItem} (hq : m.state.store.queue[k]? = some q) (hroot : q.incomingSourceId = rootId)
    (hfree : locked q = false) : ∃ q', n.state.store.queue[k]? = some q' ∧
      (q'.selectable = false ∨ q'.source.relativePath = q.source.relativePath ∧
        q'.fingerprint = q.fingerprint ∧
        ∃ f ∈ found, f.relative = q.source.relativePath ∧ f.fingerprint = q.fingerprint) := by
  obtain ⟨q', hq', _⟩ := step_since h hstep hq
  refine ⟨q', hq', ?_⟩
  cases scan_row h hstep hq' with
  | kept hsame hwhy =>
    obtain rfl := Option.some.inj (hq.symm.trans hsame)
    rcases hwhy with hwhy | hwhy | hwhy
    · exact absurd hroot hwhy
    · cases hfree.symm.trans hwhy
    · exact .inl (run_left h k q hq hwhy).1
  | missing _ hidden => exact .inl hidden
  | @same p b file hfile hb _ hprint hpath hpresent _ heq =>
    obtain rfl := Option.some.inj (hq.symm.trans hb)
    subst heq
    obtain ⟨hsource, hkept, _⟩ := sameItem_fields (v := v) (p := p) q file hpresent
    refine .inr ⟨?_, hkept, file, hfile, hpath.symm, hprint.symm⟩
    rw [hsource]
    exact hpath.symm
  | fresh _ _ _ _ _ hidden _ => exact .inl hidden

/-- Every step of a run in which no return completes for a claimed item keeps the law. -/
theorem readiness_law {past : List Moment} {m : Machine World Cmd Op Val Exn Reply}
    (h : Trail v ReturnsUnclaimed past m) : ∀ newer mo older, past = newer ++ mo :: older →
      LawfulStep v older mo := by
  induction h with
  | start hw =>
    intro newer mo older heq
    simp at heq
  | @step past m e n hprev hallow hstep ih =>
    intro newer mo older heq
    cases newer with
    | cons _ newer =>
      rw [List.cons_append, List.cons.injEq] at heq
      exact ih newer mo older heq.2
    | nil =>
      rw [List.nil_append, List.cons.injEq] at heq
      obtain ⟨rfl, rfl⟩ := heq
      have hnext : Run v ReturnsUnclaimed n := .tail hprev.run hallow hstep
      refine ⟨fun k q' hq' hready hnew => step_rested hprev hstep hq' hready hnew,
        fun k q' hq' hname hready => ?_, fun rootId now found he k q hq hroot hfree => ?_⟩
      · rw [run_named hnext k q' hq' hready] at hname
        cases hname
      · dsimp only at he
        subst he
        exact scan_reset hprev.run hstep hq hroot hfree

/-! Concrete runs. -/

theorem trail_checked {P : World → World → Prop}
    {check : Machine World Cmd Op Val Exn Reply → Event Cmd Choice Env → Bool}
    (hcheck : ∀ m e n, check m e = true → (system v).step m e = some n → P m.state n.state)
    {es : List (Event Cmd Choice Env)} {past : List Moment}
    {m n : Machine World Cmd Op Val Exn Reply} (h : Trail v P past m)
    (hpast : ∀ mo ∈ past, check mo.before mo.event = true)
    (hrun : (system v).run check es m = some n) :
    ∃ later, Trail v P later n ∧ ∀ mo ∈ later, check mo.before mo.event = true := by
  refine Scripts.play_keeps (fun m => ∃ past, Trail v P past m ∧
    ∀ mo ∈ past, check mo.before mo.event = true) ?_ ⟨past, h, hpast⟩ hrun
  rintro m e u _ ⟨past, h, hpast⟩ hc hu
  refine ⟨⟨m, e, u⟩ :: past, h.step (allows_of_step fun t ht => hcheck m e t hc ht) hu, ?_⟩
  intro mo hmo
  rcases List.mem_cons.mp hmo with rfl | hmo
  · exact hc
  · exact hpast mo hmo

/-- The content that gets to the path of the first file in the end. -/
def lateFile : Fingerprint := ⟨1, 9, 8, 5⟩

/-- No scan finds the late file, no attempt ends at `a.t` because of a change and no return
moves the late file. -/
def unobserved (m : Machine World Cmd Op Val Exn Reply) (e : Event Cmd Choice Env) : Bool :=
  (match e with
    | .other (.scan _ _ found) => found.all (·.fingerprint ≠ lateFile)
    | .call _ =>
      match m.holder with
      | some (_, .call (.finish id .skipped (some .sourceChanged) _) _) =>
        (m.state.store.attempt[id]?).all (·.item.source.relativePath ≠ ['a', '.', 't'])
      | _ => true
    | _ => true) &&
  m.state.store.returns.toList.all (·.2.fingerprint ≠ lateFile)

theorem not_observed {mo : Moment} (h : unobserved mo.before mo.event = true)
    {k rootId : Text} {t₀ : Time} :
    ¬Observed v mo k rootId ['a', '.', 't'] lateFile t₀ := by
  obtain ⟨hevent, hreturns⟩ := (Bool.and_eq_true _ _).mp h
  rintro (⟨he, hf, _, hprint⟩ | ⟨he, _, hm, ha, _, hpath, _⟩ | ⟨_, _, _, ho, _, _, _, hprint, _⟩)
  · rw [he] at hevent
    have := of_decide_eq_true (List.all_eq_true.mp hevent _ hf)
    exact this hprint
  · rw [he] at hevent
    dsimp only at hevent
    rw [hm] at hevent
    dsimp only at hevent
    rw [ha] at hevent
    exact of_decide_eq_true hevent hpath
  · have hmem := Std.ExtTreeMap.mem_toList_iff_getElem?_eq_some.mpr ho
    exact of_decide_eq_true (List.all_eq_true.mp hreturns _ hmem) hprint

/-- A second name of the quarantined file takes over its item and is claimed; the return puts
the item back to the first name; the claim ends with the changed content of the second name,
which is then moved to the first. -/
def returnedElsewhere : List (Event Cmd Choice Env) :=
  quarantinedFirst ++
  [.other (.files (smallTree [("in/b.t", ⟨1, 7, 3, 0⟩), ("qr/C/t0_a.t", ⟨1, 7, 3, 0⟩)])),
    .other (.scan "in".toList 40 [⟨['b', '.', 't'], ⟨1, 7, 3, 0⟩, "queue-2".toList⟩]),
    .other (.scan "in".toList 60 [⟨['b', '.', 't'], ⟨1, 7, 3, 0⟩, "queue-2".toList⟩])] ++
  acceptEvents "s2".toList ['c'] ['x'] 60 [("queue-in-1-7".toList, 2)] ++
  commandEvents firstReturn ['r'] 70 (List.replicate 18 false) ++
  [.other (.files (smallTree [("in/a.t", ⟨1, 7, 3, 0⟩), ("in/b.t", lateFile)]))] ++
  commandEvents .runOnce [] 80 (List.replicate 5 false) ++
  [.other (.files (smallTree [("in/a.t", lateFile)]))]

def lateScan : Event Cmd Choice Env :=
  .other (.scan "in".toList 95 [⟨['a', '.', 't'], lateFile, "queue-3".toList⟩])

theorem ready_unobserved : ∃ past m n, Trail small anyStep (⟨m, lateScan, n⟩ :: past) n ∧
    ¬LawfulStep small past ⟨m, lateScan, n⟩ := by
  have hrun : ((system small).run unobserved returnedElsewhere
      ⟨smallWorld true [("in/a.t", ⟨1, 7, 3, 0⟩)], none⟩).any (fun m =>
        ((m.state.store.queue["queue-in-1-7".toList]?).all (·.status ≠ .ready)) &&
        ((system small).step m lateScan).any fun n =>
          (n.state.store.queue["queue-in-1-7".toList]?).any fun q => q.status = .ready ∧
            q.source.relativePath = ['a', '.', 't'] ∧ q.fingerprint = lateFile) = true := by
    decide +kernel
  obtain ⟨m, hm, hend⟩ := (Option.any_eq_true _ _).mp hrun
  obtain ⟨hbefore, hafter⟩ := (Bool.and_eq_true _ _).mp hend
  obtain ⟨n, hn, hrow⟩ := (Option.any_eq_true _ _).mp hafter
  obtain ⟨q, hq, hfields⟩ := (Option.any_eq_true _ _).mp hrow
  obtain ⟨hready, hpath, hprint⟩ := of_decide_eq_true hfields
  obtain ⟨past, htrail, hpast⟩ := trail_checked (P := anyStep) (fun _ _ _ _ _ => trivial)
    (.start (smallWorld_start true [("in/a.t", ⟨1, 7, 3, 0⟩)])) (by simp) hm
  refine ⟨past, m, n, .step htrail (allows_of_step fun _ _ => trivial) hn, fun hlaw => ?_⟩
  obtain ⟨_, _, t₀, _, _, _, newer, mo, older, rfl, hobserved, _⟩ :=
    hlaw.rested _ q hq hready fun b hb => by
      rw [hb] at hbefore
      exact of_decide_eq_true hbefore
  rw [hpath, hprint] at hobserved
  exact not_observed (hpast mo (by simp)) hobserved

/-- A file that is scanned until it is ready. -/
theorem readiness_law_rested : ∃ past mo m, Trail small ReturnsUnclaimed (mo :: past) m ∧
    LawfulStep small past mo ∧
      (m.state.store.queue["queue-in-1-7".toList]?).map (·.status) = some .ready := by
  have hrun : ((system small).run (checkStep small returnsUnclaimed)
      [.other (.scan "in".toList 0 [⟨['a'], ⟨1, 7, 3, 0⟩, "queue-1".toList⟩]),
        .other (.scan "in".toList 20 [⟨['a'], ⟨1, 7, 3, 0⟩, "queue-1".toList⟩])]
      ⟨smallWorld true [], none⟩).any (fun m =>
        (m.state.store.queue["queue-in-1-7".toList]?).map (·.status) = some .ready) = true := by
    decide +kernel
  obtain ⟨m, hm, hend⟩ := (Option.any_eq_true _ _).mp hrun
  obtain ⟨past, htrail, _⟩ := trail_checked (P := ReturnsUnclaimed)
    (fun m e n hc hn => by
      rw [checkStep, hn] at hc
      exact returnsUnclaimed_sound hc)
    (.start (smallWorld_start true [])) (by simp) hm
  have hready := of_decide_eq_true hend
  cases htrail with
  | start hw => simp [hw.queue] at hready
  | step hprev hallow hstep =>
    have hlaw := readiness_law (.step hprev hallow hstep) [] _ _ rfl
    exact ⟨_, _, _, .step hprev hallow hstep, hlaw, hready⟩

end Readiness
