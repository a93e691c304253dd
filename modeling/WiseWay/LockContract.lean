import WiseWay.Changes

/-! # The contract of the lock holder

The programs of the worker and of the quarantine service only make permitted calls. From
here on an invariant is a matter of single effects and changes. -/
namespace LockContract

open Records Services AtomicProgram Calls Intake AttemptTransactions ReturnTransactions
open SortingSystem Effects Changes

/-! The keys are kept by every step. -/

/-- No stored owner of a move is ever dropped. -/
def Grows (w t : World) : Prop := ∀ owner, ownerKnown w owner → ownerKnown t owner

theorem ownerKnown_put_attempt {w : World} {store : Store} {id : Text} {a : Attempt}
    {tree : FileTree} {log : List Trace}
    (hattempt : store.attempt = w.store.attempt.insert id a)
    (hreturns : store.returns = w.store.returns) : Grows w ⟨store, tree, log⟩ := by
  rintro (j | j) ⟨r, hr⟩
  · simp only [ownerKnown, hattempt, get_put]
    by_cases hj : id = j
    · exact ⟨a, by rw [if_pos hj]⟩
    · exact ⟨r, by rw [if_neg hj]; exact hr⟩
  · exact ⟨r, by rw [hreturns]; exact hr⟩

theorem ownerKnown_put_return {w : World} {store : Store} {id : Text} {o : ReturnOperation}
    {tree : FileTree} {log : List Trace} (hattempt : store.attempt = w.store.attempt)
    (hreturns : store.returns = w.store.returns.insert id o) : Grows w ⟨store, tree, log⟩ := by
  rintro (j | j) ⟨r, hr⟩
  · exact ⟨r, by rw [hattempt]; exact hr⟩
  · simp only [ownerKnown, hreturns, get_put]
    by_cases hj : id = j
    · exact ⟨o, by rw [if_pos hj]⟩
    · exact ⟨r, by rw [if_neg hj]; exact hr⟩

theorem log_grows {w t : World} (hw : Coherent w) (hgrows : Grows w t)
    (hlog : ∀ e ∈ t.log, e ∈ w.log ∨ ownerKnown t (traceOwner e)) :
    ∀ e ∈ t.log, ownerKnown t (traceOwner e) := fun e he =>
  (hlog e he).elim (fun h => hgrows _ (hw.log_owned e h)) id

theorem queueIds_put {queue : Table QueueItem} {k : Text} {b q : QueueItem}
    (h : ∀ (k : Text) q, queue[k]? = some q →
      (∃ fp, k = queueId q.incomingSourceId fp) ∨ drawnShape k)
    (hb : queue[k]? = some b) (hq : q.incomingSourceId = b.incomingSourceId) :
    ∀ (j : Text) u, (queue.insert k q)[j]? = some u →
      (∃ fp, j = queueId u.incomingSourceId fp) ∨ drawnShape j := by
  intro j u hu
  rw [get_put] at hu
  split at hu
  · rename_i hkj
    cases hu
    rw [hq, ← hkj]
    exact h k b hb
  · exact h j u hu

theorem row_under_key {queue : Table QueueItem} {k : Text} {q : QueueItem}
    (h : Keyed (·.itemId) queue) (hq : queue[k]? = some q) : queue[q.itemId]? = some q := by
  have hkey : q.itemId = k := h k q hq
  rw [hkey]
  exact hq

theorem recordedSource_known {layout : Layout} {w : World} {path : Text} {expected : Fingerprint}
    {owner : Owner} (h : recordedSource layout w path expected owner) : ownerKnown w owner := by
  cases owner with
  | attempt id => obtain ⟨a, ha, _⟩ := h; exact ⟨a, ha⟩
  | returnOp id => obtain ⟨o, ho, _⟩ := h; exact ⟨o, ho⟩

theorem intended_known {layout : Layout} {w : World} {source target : Text} {owner : Owner}
    (h : intended layout w source target owner) : ownerKnown w owner := by
  cases owner with
  | attempt id => obtain ⟨a, _, ha, _⟩ := h; exact ⟨a, ha⟩
  | returnOp id => obtain ⟨o, ho, _⟩ := h; exact ⟨o, ho⟩

@[simp] theorem intendedAttempt_frame (a : Attempt) (planned : Intent) (now : Time) :
    (intendedAttempt a planned now).1.attemptId = a.attemptId ∧
    (intendedAttempt a planned now).1.item = a.item ∧
    (intendedAttempt a planned now).1.phase = .intent ∧
    (intendedAttempt a planned now).1.intent = some planned := by
  simp [intendedAttempt]

@[simp] theorem finishedAttempt_frame (a : Attempt) (state : OutcomeState)
    (reason : Option Reason) (actual : Option Location) (now : Time) :
    (finishedAttempt a state reason actual now).attemptId = a.attemptId ∧
    (finishedAttempt a state reason actual now).item = a.item ∧
    (finishedAttempt a state reason actual now).phase = .done ∧
    (finishedAttempt a state reason actual now).intent = a.intent ∧
    (finishedAttempt a state reason actual now).outcome.state = state ∧
    (finishedAttempt a state reason actual now).outcome.actualLocation = actual := by
  simp [finishedAttempt]

@[simp] theorem lockedAttempt_frame (a : Attempt) (actual : Option Location) (now : Time) :
    (lockedAttempt a actual now).attemptId = a.attemptId ∧
    (lockedAttempt a actual now).item = a.item ∧
    (lockedAttempt a actual now).phase = .recoveryRequired ∧
    (lockedAttempt a actual now).intent = a.intent := by
  simp [lockedAttempt]

theorem putQuarantine_keyed {a : Attempt} {target : Location} {now : Time}
    {cards : Table QuarantineCard} (h : Keyed QuarantineCard.quarantineId cards) :
    Keyed QuarantineCard.quarantineId (putQuarantine a target now cards) := by
  unfold putQuarantine
  split
  · exact h
  · exact h.put rfl

theorem Effect.keeps_coherent {layout : Layout} {w t : World} (hw : Coherent w)
    (h : Effect layout w t) : Coherent t := by
  obtain ⟨hattempt, hqueue, hquarantine, hreturns, hids, hlog⟩ := hw
  have hw : Coherent w := ⟨hattempt, hqueue, hquarantine, hreturns, hids, hlog⟩
  cases h with
  | same => exact hw
  | seen hknown =>
    exact ⟨hattempt, hqueue, hquarantine, hreturns, hids, List.forall_mem_cons.mpr ⟨hknown, hlog⟩⟩
  | checked hsource =>
    exact ⟨hattempt, hqueue, hquarantine, hreturns, hids,
      List.forall_mem_cons.mpr ⟨recordedSource_known hsource, hlog⟩⟩
  | issued hi =>
    have hknown := intended_known hi
    exact ⟨hattempt, hqueue, hquarantine, hreturns, hids, List.forall_mem_cons.mpr ⟨hknown, hlog⟩⟩
  | moved hi =>
    have hknown := intended_known hi
    exact ⟨hattempt, hqueue, hquarantine, hreturns, hids,
      List.forall_mem_cons.mpr ⟨hknown, List.forall_mem_cons.mpr ⟨hknown, hlog⟩⟩⟩
  | @requeued id a ha =>
    refine ⟨hattempt.put (hattempt id a ha), hqueue, hquarantine, hreturns, hids, ?_⟩
    refine log_grows hw (ownerKnown_put_attempt rfl rfl) (List.forall_mem_cons.mpr ⟨.inr ?_, ?_⟩)
    · exact ⟨_, by rw [get_put, if_pos rfl]⟩
    · exact fun e he => .inl he
  | @rearmed id a i ha =>
    refine ⟨hattempt.put (hattempt id a ha), hqueue, hquarantine, hreturns, hids, ?_⟩
    refine log_grows hw (ownerKnown_put_attempt rfl rfl) fun e he => ?_
    simp only at he
    split at he
    · rcases List.mem_cons.mp he with rfl | he
      · exact .inr ⟨_, by rw [get_put, if_pos rfl]⟩
      · exact .inl he
    · exact .inl he
  | @intended id a planned now ha =>
    exact ⟨hattempt.put ((intendedAttempt_frame ..).1.trans (hattempt id a ha)), hqueue,
      hquarantine, hreturns, hids,
      log_grows hw (ownerKnown_put_attempt rfl rfl) fun e he => .inl he⟩
  | @quarantineIntended id a _ _ _ _ _ ha =>
    exact ⟨hattempt.put (hattempt id a ha), hqueue, hquarantine, hreturns, hids,
      log_grows hw (ownerKnown_put_attempt rfl rfl) fun e he => .inl he⟩
  | @finished id a item current state reason actual now ha hd hitem =>
    have hkey := finishedItem_ids state reason current now item
    refine ⟨hattempt.put ((finishedAttempt_frame ..).1.trans (hattempt id a ha)),
      hqueue.put hkey.1, ?_, hreturns, ?_,
      log_grows hw (ownerKnown_put_attempt rfl rfl) fun e he => .inl he⟩
    · simp only [finishedStore]
      split
      · exact putQuarantine_keyed hquarantine
      · exact hquarantine
    · exact queueIds_put hids (row_under_key hqueue hitem) hkey.2.1
  | @locked id a item actual now ha hd hr hitem =>
    exact ⟨hattempt.put ((lockedAttempt_frame ..).1.trans (hattempt id a ha)), hqueue.put rfl,
      hquarantine, hreturns, queueIds_put hids (row_under_key hqueue hitem) rfl,
      log_grows hw (ownerKnown_put_attempt rfl rfl) fun e he => .inl he⟩
  | began =>
    refine ⟨hattempt, hqueue, hquarantine.put rfl, hreturns.put rfl, hids, ?_⟩
    refine log_grows hw (ownerKnown_put_return rfl rfl) (List.forall_mem_cons.mpr ⟨.inr ?_, ?_⟩)
    · exact ⟨_, by rw [get_put, if_pos rfl]⟩
    · exact fun e he => .inl he
  | rejected =>
    exact ⟨hattempt, hqueue, hquarantine.put rfl, hreturns.put rfl, hids,
      log_grows hw (ownerKnown_put_return rfl rfl) fun e he => .inl he⟩
  | returnLocked =>
    exact ⟨hattempt, hqueue, hquarantine.put rfl, hreturns.put rfl, hids,
      log_grows hw (ownerKnown_put_return rfl rfl) fun e he => .inl he⟩
  | @returned id o card item now ho hp hhome hcard hitem =>
    exact ⟨hattempt, hqueue.put rfl, hquarantine.put rfl, hreturns.put rfl,
      queueIds_put hids (row_under_key hqueue hitem) rfl,
      log_grows hw (ownerKnown_put_return rfl rfl) fun e he => .inl he⟩

theorem Change.keeps_coherent {v : Service} {w t : World} (hw : Coherent w) (h : Change v w t) :
    Coherent t := by
  obtain ⟨hattempt, hqueue, hquarantine, hreturns, hids, hlog⟩ := hw
  cases h with
  | scanned hrows =>
    refine ⟨hattempt, fun k q hq => ?_, hquarantine, hreturns, fun k q hq => ?_, hlog⟩
    · rcases rescan_ids (hrows k) hq with ⟨b, hb, hid, _⟩ | ⟨_, hid, _⟩
      · exact hid.trans (hqueue k b hb)
      · exact hid
    · rcases rescan_ids (hrows k) hq with ⟨b, hb, _, hroot⟩ | ⟨_, _, _, hid⟩
      · rw [hroot]
        exact hids k b hb
      · exact hid
  | _ => exact ⟨hattempt, hqueue, hquarantine, hreturns, hids, hlog⟩

theorem Accepting.keeps_coherent {w t : World} (hw : Coherent w) (h : Accepting w t) :
    Coherent t := by
  obtain ⟨hattempt, hqueue, hquarantine, hreturns, hids, hlog⟩ := hw
  have hw : Coherent w := ⟨hattempt, hqueue, hquarantine, hreturns, hids, hlog⟩
  cases h with
  | opened => exact ⟨hattempt, hqueue, hquarantine, hreturns, hids, hlog⟩
  | skipped =>
    exact ⟨hattempt.put rfl, hqueue, hquarantine, hreturns, hids,
      log_grows hw (ownerKnown_put_attempt rfl rfl) fun e he => .inl he⟩
  | @claimed a saved row item id hfree hclaim hitem _ =>
    exact ⟨hattempt.put rfl, hqueue.put rfl, hquarantine, hreturns,
      queueIds_put hids (row_under_key hqueue hitem) rfl,
      log_grows hw (ownerKnown_put_attempt rfl rfl) fun e he => .inl he⟩
  | launched => exact ⟨hattempt, hqueue, hquarantine, hreturns, hids, hlog⟩

/-! What the others may do between two calls. -/

/-- The others add attempts and otherwise stay away from what the lock protects. -/
structure Rely (w t : World) : Prop where
  attempt : ∀ (k : Text) a, w.store.attempt[k]? = some a → t.store.attempt[k]? = some a
  returns : t.store.returns = w.store.returns
  quarantine : t.store.quarantine = w.store.quarantine
  returnKey : t.store.returnKey = w.store.returnKey
  log : t.log = w.log

theorem Rely.refl (w : World) : Rely w w := ⟨fun _ _ h => h, rfl, rfl, rfl, rfl⟩

theorem Rely.trans {a b c : World} (hab : Rely a b) (hbc : Rely b c) : Rely a c :=
  ⟨fun k r h => hbc.attempt k r (hab.attempt k r h), hbc.returns.trans hab.returns,
    hbc.quarantine.trans hab.quarantine, hbc.returnKey.trans hab.returnKey, hbc.log.trans hab.log⟩

theorem rely_new_attempt {w : World} {store : Store} {id : Text} {a : Attempt}
    (hfree : w.store.attempt[id]? = none) (hattempt : store.attempt = w.store.attempt.insert id a)
    (hreturns : store.returns = w.store.returns)
    (hquarantine : store.quarantine = w.store.quarantine)
    (hkey : store.returnKey = w.store.returnKey) : Rely w ⟨store, w.tree, w.log⟩ := by
  refine ⟨fun k r hr => ?_, hreturns, hquarantine, hkey, rfl⟩
  simp only [hattempt, get_put]
  by_cases hk : id = k
  · rw [← hk, hfree] at hr
    cases hr
  · rw [if_neg hk]
    exact hr

theorem Change.rely {v : Service} {w t : World} (h : Change v w t) : Rely w t := by
  cases h <;> exact ⟨fun _ _ h => h, rfl, rfl, rfl, rfl⟩

theorem Accepting.rely {w t : World} (h : Accepting w t) : Rely w t := by
  cases h with
  | opened => exact ⟨fun _ _ h => h, rfl, rfl, rfl, rfl⟩
  | skipped hfree => exact rely_new_attempt hfree rfl rfl rfl rfl
  | claimed hfree => exact rely_new_attempt hfree rfl rfl rfl rfl
  | launched => exact ⟨fun _ _ h => h, rfl, rfl, rfl, rfl⟩

theorem accepted_keeps {w t : World} (hw : Coherent w) (h : Relation.ReflTransGen Accepting w t) :
    Coherent t ∧ Rely w t := by
  induction h with
  | refl => exact ⟨hw, .refl w⟩
  | tail _ hstep ih =>
    exact ⟨Accepting.keeps_coherent ih.1 hstep, ih.2.trans (Accepting.rely hstep)⟩

def discipline (v : Service) : Discipline (system v) where
  inv := Coherent
  rely := Rely
  permit := fun o w => permit v.layout w o
  rely_refl := Rely.refl
  rely_trans := Rely.trans
  other_keeps := by
    intro e w t hw h
    rcases other_cases hw h with hchange | haccept
    · exact ⟨Change.keeps_coherent hw hchange, Change.rely hchange⟩
    · exact accepted_keeps hw haccept
  call_keeps := fun hw hp => Effect.keeps_coherent hw (exec_effect hp)

end LockContract
