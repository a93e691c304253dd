import WiseWay.ReturnContract

/-! # Quarantine returns

A card is locked by at most one pending operation and closed by at most one that is done;
an operation moves its file at most once and is closed only by what two reads show. -/
namespace QuarantineReturn

open Records Services AtomicProgram Calls Intake AttemptTransactions ReturnTransactions
open SortingSystem Effects Changes LockContract WorkerContract ReturnContract Discipline
open Fallible (bind_eq_error)

variable {v : Service}

/-! The cards and their operations. -/

/-- A pending operation locks its card, a done one has closed it. -/
structure Cards (s : Store) : Prop where
  card : ∀ (id : Text) (o : ReturnOperation), s.returns[id]? = some o →
    ∃ q, s.quarantine[o.quarantineId]? = some q
  pending : ∀ (id : Text) (o : ReturnOperation) (q : QuarantineCard), s.returns[id]? = some o →
    s.quarantine[o.quarantineId]? = some q → pendingReturn o.phase = true →
    q.recoveryOperationId = some id ∧ q.returned = false
  done : ∀ (id : Text) (o : ReturnOperation) (q : QuarantineCard), s.returns[id]? = some o →
    s.quarantine[o.quarantineId]? = some q → o.phase = .done → q.returned = true
  single : ∀ (i j : Text) (o p : ReturnOperation), s.returns[i]? = some o → s.returns[j]? = some p →
    o.quarantineId = p.quarantineId → o.phase ≠ .rejected → p.phase ≠ .rejected → i = j
  returned : ∀ (k : Text) (q : QuarantineCard), s.quarantine[k]? = some q → q.returned = true →
    ∃ (id : Text) (o : ReturnOperation), s.returns[id]? = some o ∧ o.quarantineId = k ∧
      o.phase = .done
  settled : ∀ (id : Text) (o : ReturnOperation), s.returns[id]? = some o →
    (o.phase = .done → o.result ≠ none) ∧
    (o.phase = .rejected → o.error = some .originalPathOccupied)

theorem cards_same {s t : Store} (h : Cards s) (hreturns : t.returns = s.returns)
    (hquarantine : t.quarantine = s.quarantine) : Cards t := by
  refine ⟨?_, ?_, ?_, ?_, ?_, ?_⟩ <;> rw [hreturns] <;> try rw [hquarantine]
  · exact h.card
  · exact h.pending
  · exact h.done
  · exact h.single
  · exact h.returned
  · exact h.settled

theorem cards_new {s t : Store} {k : Text} {q : QuarantineCard} (h : Cards s)
    (hfree : s.quarantine[k]? = none) (hreturns : t.returns = s.returns)
    (hquarantine : t.quarantine = s.quarantine.insert k q) (hq : q.returned = false) :
    Cards t := by
  have hother : ∀ (id : Text) (o : ReturnOperation), s.returns[id]? = some o →
      k ≠ o.quarantineId := by
    rintro id o ho rfl
    obtain ⟨c, hc⟩ := h.card id o ho
    cases hfree.symm.trans hc
  refine ⟨fun id o ho => ?_, fun id o c ho hc => ?_, fun id o c ho hc => ?_, ?_,
    fun j c hc hr => ?_, ?_⟩
  · rw [hreturns] at ho
    rw [hquarantine, get_put, if_neg (hother id o ho)]
    exact h.card id o ho
  · rw [hreturns] at ho
    rw [hquarantine, get_put, if_neg (hother id o ho)] at hc
    exact h.pending id o c ho hc
  · rw [hreturns] at ho
    rw [hquarantine, get_put, if_neg (hother id o ho)] at hc
    exact h.done id o c ho hc
  · rw [hreturns]
    exact h.single
  · rw [hquarantine, get_put] at hc
    rw [hreturns]
    split at hc
    · cases hc
      rw [hq] at hr
      cases hr
    · exact h.returned j c hc hr
  · rw [hreturns]
    exact h.settled

/-- One operation and its card are written together; nothing else refers to either. -/
theorem cards_put {s t : Store} {id k : Text} {o : ReturnOperation} {q : QuarantineCard}
    (h : Cards s) (hreturns : t.returns = s.returns.insert id o)
    (hquarantine : t.quarantine = s.quarantine.insert k q) (hk : o.quarantineId = k)
    (halone : ∀ (j : Text) p, s.returns[j]? = some p → p.quarantineId = k → j ≠ id →
      p.phase = .rejected)
    (hold : ∀ p, s.returns[id]? = some p → p.quarantineId = k)
    (hpending : pendingReturn o.phase = true → q.recoveryOperationId = some id ∧ q.returned = false)
    (hdone : o.phase = .done → q.returned = true)
    (hreturned : q.returned = true → o.phase = .done)
    (hsettled : (o.phase = .done → o.result ≠ none) ∧
      (o.phase = .rejected → o.error = some .originalPathOccupied)) : Cards t := by
  have hrow : ∀ (j : Text) (p : ReturnOperation), t.returns[j]? = some p →
      j = id ∧ p = o ∨ j ≠ id ∧ s.returns[j]? = some p := by
    intro j p hp
    rw [hreturns, get_put] at hp
    split at hp
    · rename_i hj
      exact .inl ⟨hj.symm, (Option.some.inj hp).symm⟩
    · rename_i hj
      exact .inr ⟨Ne.symm hj, hp⟩
  have hcard : ∀ (j : Text) (p : ReturnOperation) (c : QuarantineCard), s.returns[j]? = some p →
      j ≠ id → t.quarantine[p.quarantineId]? = some c → p.phase ≠ .rejected →
      s.quarantine[p.quarantineId]? = some c := by
    intro j p c hp hj hc hphase
    rw [hquarantine, get_put] at hc
    split at hc
    · rename_i hkp
      exact absurd (halone j p hp hkp.symm hj) hphase
    · exact hc
  refine ⟨fun j p hp => ?_, fun j p c hp hc hphase => ?_, fun j p c hp hc hphase => ?_,
    fun i j p r hp hr hsame hpp hrr => ?_, fun j c hc hr => ?_, fun j p hp => ?_⟩
  · rw [hquarantine]
    simp only [get_put]
    by_cases hkp : k = p.quarantineId
    · exact ⟨q, if_pos hkp⟩
    · rw [if_neg hkp]
      rcases hrow j p hp with ⟨_, rfl⟩ | ⟨_, hp⟩
      · exact absurd hk.symm hkp
      · exact h.card j p hp
  · rcases hrow j p hp with ⟨rfl, rfl⟩ | ⟨hj, hp⟩
    · rw [hquarantine, get_put, if_pos hk.symm] at hc
      cases hc
      exact hpending hphase
    · refine h.pending j p c hp (hcard j p c hp hj hc ?_) hphase
      intro hr
      simp [pendingReturn, hr] at hphase
  · rcases hrow j p hp with ⟨rfl, rfl⟩ | ⟨hj, hp⟩
    · rw [hquarantine, get_put, if_pos hk.symm] at hc
      cases hc
      exact hdone hphase
    · exact h.done j p c hp (hcard j p c hp hj hc (by simp [hphase])) hphase
  · rcases hrow i p hp with ⟨rfl, rfl⟩ | ⟨hi, hp⟩ <;> rcases hrow j r hr with ⟨rfl, rfl⟩ | ⟨hj, hr⟩
    · rfl
    · exact absurd (halone j r hr (hsame.symm.trans hk) hj) hrr
    · exact absurd (halone i p hp (hsame.trans hk) hi) hpp
    · exact h.single i j p r hp hr hsame hpp hrr
  · rw [hquarantine, get_put] at hc
    split at hc
    · rename_i hkj
      cases hc
      refine ⟨id, o, ?_, hk.trans hkj, hreturned hr⟩
      rw [hreturns, get_put, if_pos rfl]
    · rename_i hkj
      obtain ⟨i, p, hp, hpj, hphase⟩ := h.returned j c hc hr
      refine ⟨i, p, ?_, hpj, hphase⟩
      rw [hreturns, get_put, if_neg]
      · exact hp
      · rintro rfl
        exact hkj ((hold p hp).symm.trans hpj)
  · rcases hrow j p hp with ⟨_, rfl⟩ | ⟨_, hp⟩
    · exact hsettled
    · exact h.settled j p hp

theorem Cards.others_rejected {s : Store} (h : Cards s) {id : Text} {o : ReturnOperation}
    (ho : s.returns[id]? = some o) (hphase : o.phase ≠ .rejected) (j : Text) (p : ReturnOperation)
    (hp : s.returns[j]? = some p) (hsame : p.quarantineId = o.quarantineId) (hj : j ≠ id) :
    p.phase = .rejected := by
  by_contra hr
  exact hj (h.single j id p o hp ho hsame hr hphase)

theorem Cards.admitted {s : Store} (h : Cards s) {k : Text} {card : QuarantineCard}
    (hcard : s.quarantine[k]? = some card) (hreturned : card.returned = false)
    (hlock : card.recoveryOperationId = none) (j : Text) (p : ReturnOperation)
    (hp : s.returns[j]? = some p) (hk : p.quarantineId = k) : p.phase = .rejected := by
  subst hk
  cases hphase : p.phase with
  | rejected => rfl
  | intent =>
    have := (h.pending j p card hp hcard (by simp [pendingReturn, hphase])).1
    cases hlock.symm.trans this
  | recoveryRequired =>
    have := (h.pending j p card hp hcard (by simp [pendingReturn, hphase])).1
    cases hlock.symm.trans this
  | done => cases hreturned.symm.trans (h.done j p card hp hcard hphase)

theorem finished_cards (id : Text) (a : Attempt) (item : QueueItem)
    (current : Option Fingerprint) (state : OutcomeState) (reason : Option Reason)
    (actual : Option Location) (now : Time) (s : Store) :
    (finishedStore id a item current state reason actual now s).quarantine = s.quarantine ∨
    ∃ (k : Text) (q : QuarantineCard), s.quarantine[k]? = none ∧
      (finishedStore id a item current state reason actual now s).quarantine =
        s.quarantine.insert k q ∧ q.returned = false := by
  simp only [finishedStore]
  split
  · unfold putQuarantine
    split
    · exact .inl rfl
    · rename_i hfree
      exact .inr ⟨_, _, hfree, rfl, rfl⟩
  · exact .inl rfl

theorem cards_effect {layout : Layout} {w t : World} (hw : Coherent w) (h : Cards w.store)
    (he : Effect layout w t) : Cards t.store := by
  cases he with
  | @finished id a item current state reason actual now ha hd hitem hend =>
    rcases finished_cards id a item current state reason actual now w.store with
      hsame | ⟨k, q, hfree, hput, hq⟩
    · exact cards_same h rfl hsame
    · exact cards_new h hfree rfl hput hq
  | @began id request card expected hkey hcard hadmit hfree =>
    obtain ⟨hreturned, hlock, _⟩ := admitReturn_card hadmit
    have hk : card.quarantineId = request.quarantineId := hw.quarantine_key _ _ hcard
    refine cards_put h rfl rfl rfl (fun j p hp hpk _ => ?_) (fun p hp => ?_)
      (fun _ => ⟨rfl, hreturned⟩) (by rintro ⟨⟩) (fun hr => ?_) ⟨by rintro ⟨⟩, by rintro ⟨⟩⟩
    · exact h.admitted hcard hreturned hlock j p hp (hpk.trans hk)
    · cases hfree.symm.trans hp
    · cases hreturned.symm.trans hr
  | @rejected o card ho hphase hmoved hcard =>
    have hk : card.quarantineId = o.quarantineId := hw.quarantine_key _ _ hcard
    obtain ⟨_, hreturned⟩ := h.pending _ o card ho hcard (by simp [pendingReturn, hphase])
    refine cards_put h rfl rfl hk.symm (fun j p hp hpk => ?_) (fun p hp => ?_) (by rintro ⟨⟩)
      (by rintro ⟨⟩) (fun hr => ?_) ⟨by rintro ⟨⟩, fun _ => rfl⟩
    · exact h.others_rejected ho (by simp [hphase]) j p hp (hpk.trans hk)
    · rw [← Option.some.inj (ho.symm.trans hp)]
      exact hk.symm
    · cases hreturned.symm.trans hr
  | @returnLocked id now o card ho hphase hcard =>
    have hkey : o.operationId = id := hw.returns_key id o ho
    have hk : card.quarantineId = o.quarantineId := hw.quarantine_key _ _ hcard
    obtain ⟨hlock, hreturned⟩ := h.pending _ o card ho hcard (by simp [pendingReturn, hphase])
    refine cards_put h rfl rfl hk.symm (fun j p hp hpk hj => ?_) (fun p hp => ?_)
      (fun _ => ⟨hkey.symm ▸ hlock, hreturned⟩) (by rintro ⟨⟩) (fun hr => ?_)
      ⟨by rintro ⟨⟩, by rintro ⟨⟩⟩
    · exact h.others_rejected ho (by simp [hphase]) j p hp (hpk.trans hk) (hkey ▸ hj)
    · obtain rfl : o = p := Option.some.inj (ho.symm.trans (hkey ▸ hp))
      exact hk.symm
    · cases hreturned.symm.trans hr
  | @returned id o card item now ho hp hhome hcard hitem =>
    have hkey : o.operationId = id := hw.returns_key id o ho
    have hk : card.quarantineId = o.quarantineId := hw.quarantine_key _ _ hcard
    have hphase : o.phase ≠ .rejected := by
      intro hr
      simp [pendingReturn, hr] at hp
    refine cards_put h rfl rfl hk.symm (fun j p hp hpk hj => ?_) (fun p hp => ?_) (by rintro ⟨⟩)
      (fun _ => rfl) (fun _ => rfl) ⟨by simp, by simp⟩
    · exact h.others_rejected ho hphase j p hp (hpk.trans hk) (hkey ▸ hj)
    · obtain rfl : o = p := Option.some.inj (ho.symm.trans (hkey ▸ hp))
      exact hk.symm
  | _ => exact cards_same h rfl rfl

/-! The course of one operation. -/

def returnEvent (id : Text) (e : AuditEvent) : Bool :=
  e.action = .quarantineReturned ∧ e.operationId = some id

def issuedFor (id : Text) : Trace → Bool
  | .issued (.returnOp k) _ _ => k = id
  | _ => false

/-- Two consecutive reads found nothing at the quarantine path, then the file at the
original one. -/
def Observed (layout : Layout) (id : Text) (o : ReturnOperation) (log : List Trace) : Prop :=
  ∃ source target tree before newer older,
    Services.physical layout o.source = .ok source ∧
    Services.physical layout o.target = .ok target ∧
    log = newer ++ .seen (.returnOp id) target tree :: .seen (.returnOp id) source before :: older ∧
    fileAt tree target = some o.fingerprint ∧ fileAt before source = none

/-- The card as the operation found it, and as it left it when it began. -/
def Locking (id : Text) (o : ReturnOperation) (w : World) : Prop :=
  ∃ c, (∀ d, Trace.began id d ∈ w.log ↔ d = c) ∧ c.canReturn = true ∧
    c.recoveryOperationId = none ∧ w.store.quarantine[o.quarantineId]? =
      some { c with canReturn := false, recoveryOperationId := some id }

structure Course (layout : Layout) (id : Text) (w : World) : Prop where
  issued : w.log.countP (issuedFor id) ≤ 1
  reactivated : w.store.audit.countP (returnEvent id) =
    if (w.store.returns[id]?).map (·.phase) = some .done then 1 else 0
  observed : ∀ o : ReturnOperation, w.store.returns[id]? = some o → o.phase = .done →
    Observed layout id o w.log
  locked : ∀ o : ReturnOperation, w.store.returns[id]? = some o → o.phase = .intent →
    Locking id o w

theorem observed_later {layout : Layout} {id : Text} {o : ReturnOperation} {log newer : List Trace}
    (h : Observed layout id o log) : Observed layout id o (newer ++ log) := by
  obtain ⟨source, target, tree, before, more, older, hs, ht, rfl, hseen⟩ := h
  exact ⟨source, target, tree, before, newer ++ more, older, hs, ht, by simp, hseen⟩

theorem events_foreign (id : Text) (audit : List AuditEvent) {events : List AuditEvent}
    (h : ∀ e ∈ events, e.action ≠ .quarantineReturned) :
    (audit ++ events).countP (returnEvent id) = audit.countP (returnEvent id) := by
  have hzero : events.countP (returnEvent id) = 0 :=
    List.countP_eq_zero.mpr fun e he => by simp [returnEvent, h e he]
  rw [List.countP_append, hzero, Nat.add_zero]

theorem events_same {id : Text} {audit audit' : List AuditEvent} (h : audit' = audit) :
    audit'.countP (returnEvent id) = audit.countP (returnEvent id) := by
  rw [h]

theorem course_apart (newer : List Trace) {layout : Layout} {id : Text} {w t : World}
    (h : Course layout id w) (hrow : t.store.returns[id]? = w.store.returns[id]?)
    (hcard : ∀ o : ReturnOperation, w.store.returns[id]? = some o → o.phase = .intent →
      t.store.quarantine[o.quarantineId]? = w.store.quarantine[o.quarantineId]?)
    (hevents : t.store.audit.countP (returnEvent id) = w.store.audit.countP (returnEvent id))
    (hlog : t.log = newer ++ w.log) (hissued : t.log.countP (issuedFor id) ≤ 1)
    (hbegan : ∀ c, .began id c ∉ newer) : Course layout id t := by
  refine ⟨hissued, ?_, fun o ho hd => ?_, fun o ho hi => ?_⟩
  · rw [hevents, hrow]
    exact h.reactivated
  · rw [hlog]
    exact observed_later (h.observed o (hrow ▸ ho) hd)
  · rw [hrow] at ho
    obtain ⟨c, hc, hfree, hnone, hlock⟩ := h.locked o ho hi
    refine ⟨c, fun d => ?_, hfree, hnone, (hcard o ho hi).trans hlock⟩
    rw [hlog, List.mem_append]
    exact (or_iff_right (hbegan d)).trans (hc d)

theorem course_still {layout : Layout} {id : Text} {w t : World} (h : Course layout id w)
    (hrow : t.store.returns[id]? = w.store.returns[id]?)
    (hcard : ∀ o : ReturnOperation, w.store.returns[id]? = some o → o.phase = .intent →
      t.store.quarantine[o.quarantineId]? = w.store.quarantine[o.quarantineId]?)
    (hevents : t.store.audit.countP (returnEvent id) = w.store.audit.countP (returnEvent id))
    (hlog : t.log = w.log) : Course layout id t :=
  course_apart [] h hrow hcard hevents hlog (by rw [hlog]; exact h.issued)
    fun _ => List.not_mem_nil

theorem course_logged {layout : Layout} {id : Text} {w t : World} {e : Trace}
    (h : Course layout id w) (hstore : t.store = w.store) (hlog : t.log = e :: w.log)
    (hissued : issuedFor id e = false) (hbegan : ∀ c, .began id c ≠ e) : Course layout id t := by
  refine course_apart [e] h (by rw [hstore]) (fun _ _ _ => by rw [hstore])
    (by rw [hstore]) hlog ?_ (by simpa using hbegan)
  rw [hlog, List.countP_cons_of_neg (by simp [hissued])]
  exact h.issued

theorem course_issued {layout : Layout} {id : Text} {w t : World} {owner : Owner}
    {source target : Text} (newer : List Trace) (h : Course layout id w)
    (hi : intended layout w source target owner) (hstore : t.store = w.store)
    (hlog : t.log = newer ++ .issued owner source target :: w.log)
    (hnewer : newer.countP (issuedFor id) = 0) (hbegan : ∀ c, .began id c ∉ newer) :
    Course layout id t := by
  refine course_apart (newer ++ [.issued owner source target]) h (by rw [hstore])
    (fun _ _ _ => by rw [hstore]) (by rw [hstore]) (by simp [hlog]) ?_ (by simpa using hbegan)
  rw [hlog, List.countP_append, hnewer, Nat.zero_add]
  by_cases howner : owner = .returnOp id
  · subst howner
    obtain ⟨o, _, _, _, _, hquiet⟩ := hi
    have hzero : w.log.countP (issuedFor id) = 0 := by
      refine List.countP_eq_zero.mpr fun e he hissue => ?_
      unfold issuedFor at hissue
      split at hissue
      · rename_i k s u
        rw [of_decide_eq_true hissue] at he
        exact hquiet s u he
      · cases hissue
    rw [List.countP_cons, hzero]
    split <;> omega
  · rw [List.countP_cons_of_neg]
    · exact h.issued
    · cases owner with
      | attempt k => simp [issuedFor]
      | returnOp k => simpa [issuedFor] using howner

theorem start_events (a : Attempt) (now : Time) (target : Option Location) :
    ∀ e ∈ (startAttempt a now target).2, e.action ≠ .quarantineReturned := by
  unfold startAttempt
  split <;> simp [startedEvent]

theorem finished_card {id : Text} {a : Attempt} {item : QueueItem} {current : Option Fingerprint}
    {state : OutcomeState} {reason : Option Reason} {actual : Option Location} {now : Time}
    {s : Store} {k : Text} {q : QuarantineCard} (hq : s.quarantine[k]? = some q) :
    (finishedStore id a item current state reason actual now s).quarantine[k]? = some q := by
  rcases finished_cards id a item current state reason actual now s with
    hsame | ⟨j, c, hfree, hput, _⟩
  · rw [hsame]
    exact hq
  · rw [hput, get_put, if_neg]
    · exact hq
    · rintro rfl
      cases hfree.symm.trans hq

theorem course_other {layout : Layout} {id k : Text} {w t : World} {o p : ReturnOperation}
    {card c : QuarantineCard} (newer : List Trace) (h : Course layout id w) (hk : k ≠ id)
    (hcard : card.quarantineId = o.quarantineId)
    (halone : ∀ (j : Text) (r : ReturnOperation), w.store.returns[j]? = some r →
      r.quarantineId = o.quarantineId → j ≠ k → r.phase = .rejected)
    (hreturns : t.store.returns = w.store.returns.insert k p)
    (hquarantine : t.store.quarantine = w.store.quarantine.insert card.quarantineId c)
    (hevents : t.store.audit.countP (returnEvent id) = w.store.audit.countP (returnEvent id))
    (hlog : t.log = newer ++ w.log) (hissued : newer.countP (issuedFor id) = 0)
    (hbegan : ∀ c, .began id c ∉ newer) : Course layout id t := by
  refine course_apart newer h ?_ (fun r hr hi => ?_) hevents hlog ?_ hbegan
  rotate_right
  · rw [hlog, List.countP_append, hissued, Nat.zero_add]
    exact h.issued
  · rw [hreturns, get_put, if_neg hk]
  · rw [hquarantine, get_put, if_neg]
    intro hsame
    have := halone id r hr (hsame.symm.trans hcard) (Ne.symm hk)
    rw [hi] at this
    cases this

theorem course_effect {layout : Layout} {id : Text} {w t : World} (hw : Coherent w)
    (hcards : Cards w.store) (h : Course layout id w) (he : Effect layout w t) :
    Course layout id t := by
  cases he with
  | same => exact h
  | seen => exact course_logged h rfl rfl rfl (by simp)
  | checked => exact course_logged h rfl rfl rfl (by simp)
  | issued hi => exact course_issued [] h hi rfl rfl rfl (by simp)
  | moved hi => exact course_issued [_] h hi rfl rfl rfl (by simp)
  | requeued =>
    exact course_apart [_] h rfl (fun _ _ _ => rfl) (events_same rfl) rfl
      (by simpa [issuedFor] using h.issued) (by simp)
  | rearmed =>
    simp only
    split
    · exact course_apart [_] h rfl (fun _ _ _ => rfl) (events_same rfl) rfl
        (by simpa [issuedFor] using h.issued) (by simp)
    · exact course_still h rfl (fun _ _ _ => rfl) (events_same rfl) rfl
  | intended =>
    exact course_still h rfl (fun _ _ _ => rfl)
      (events_foreign _ _ (start_events _ _ _)) rfl
  | quarantineIntended =>
    exact course_still h rfl (fun _ _ _ => rfl) (events_same rfl) rfl
  | @finished k a item current state reason actual now ha hd hitem hend =>
    refine course_still h rfl (fun o ho _ => ?_) ?_ rfl
    · obtain ⟨q, hq⟩ := hcards.card id o ho
      exact (finished_card hq).trans hq.symm
    · simp only [finishedStore]
      rw [events_foreign _ _ (by simp [finishedEvent]), events_foreign _ _ (start_events _ _ _)]
  | @locked k a item actual now ha hd hr hitem =>
    refine course_still h rfl (fun _ _ _ => rfl) ?_ rfl
    simp only [lockedStore]
    rw [events_foreign _ _ (by simp [recoveryEvent]), events_foreign _ _ (start_events _ _ _)]
  | @began k request card expected hkey hcard hadmit hfree =>
    obtain ⟨hreturned, hlock, hcan⟩ := admitReturn_card hadmit
    have hk : card.quarantineId = request.quarantineId := hw.quarantine_key _ _ hcard
    by_cases hid : k = id
    · subst hid
      have hnew : ∀ d, Trace.began k d ∉ w.log := by
        intro d hd
        obtain ⟨o, ho⟩ := hw.log_owned _ hd
        cases hfree.symm.trans ho
      refine ⟨by simpa [issuedFor] using h.issued, ?_, fun o ho hd => ?_, fun o ho _ => ?_⟩
      · rw [h.reactivated]
        simp [hfree, newOperation]
      · simp only [get_put, if_true] at ho
        cases ho
        cases hd
      · simp only [get_put, if_true] at ho
        cases ho
        refine ⟨card, fun d => ?_, hcan, hlock, ?_⟩
        · simp [hnew d, eq_comm]
        · simp [newOperation]
    · refine course_other (o := newOperation k request card expected) [_] h hid
        rfl (fun j r hr hsame _ => ?_) rfl rfl (events_same rfl) rfl rfl ?_
      · exact hcards.admitted hcard hreturned hlock j r hr (hsame.trans hk)
      · intro c hc
        simp only [List.mem_singleton, Trace.began.injEq] at hc
        exact hid hc.1.symm
  | @rejected o card ho hphase hmoved hcard =>
    have hk : card.quarantineId = o.quarantineId := hw.quarantine_key _ _ hcard
    by_cases hid : o.operationId = id
    · subst hid
      refine ⟨h.issued, (events_same rfl).trans ?_, fun p hp hd => ?_, fun p hp hi => ?_⟩
      · rw [h.reactivated]
        simp [ho, hphase]
      · simp only [get_put, if_true] at hp
        cases hp
        cases hd
      · simp only [get_put, if_true] at hp
        cases hp
        cases hi
    · exact course_other [] h hid hk
        (hcards.others_rejected ho (by simp [hphase])) rfl rfl (events_same rfl) rfl rfl
        fun _ => List.not_mem_nil
  | @returnLocked k now o card ho hphase hcard =>
    have hkey : o.operationId = k := hw.returns_key k o ho
    have hk : card.quarantineId = o.quarantineId := hw.quarantine_key _ _ hcard
    have hevents := events_foreign id w.store.audit
      (show ∀ e ∈ [returnRecoveryEvent o card now], _ by simp [returnRecoveryEvent])
    subst hkey
    by_cases hid : o.operationId = id
    · subst hid
      refine ⟨h.issued, ?_, fun p hp hd => ?_, fun p hp hi => ?_⟩
      · rw [hevents, h.reactivated]
        simp [ho, hphase]
      · simp only [get_put, if_true] at hp
        cases hp
        cases hd
      · simp only [get_put, if_true] at hp
        cases hp
        cases hi
    · exact course_other [] h hid hk
        (hcards.others_rejected ho (by simp [hphase])) rfl rfl hevents rfl rfl
        fun _ => List.not_mem_nil
  | @returned k o card item now ho hp hhome hcard hitem =>
    have hkey : o.operationId = k := hw.returns_key k o ho
    have hk : card.quarantineId = o.quarantineId := hw.quarantine_key _ _ hcard
    have hphase : o.phase ≠ .rejected ∧ o.phase ≠ .done := by
      constructor <;> intro hr <;> simp [pendingReturn, hr] at hp
    subst hkey
    by_cases hid : o.operationId = id
    · subst hid
      refine ⟨h.issued, ?_, fun p hp _ => ?_, fun p hp hi => ?_⟩
      · simp only [returnedStore]
        rw [List.countP_append, h.reactivated]
        simp [ho, hphase.2, returnEvent, returnedEvent]
      · simp only [returnedStore, get_put, if_true] at hp
        cases hp
        obtain ⟨source, target, tree, before, older, hs, ht, hlog, hseen⟩ := hhome
        exact ⟨source, target, tree, before, [], older, hs, ht, hlog, hseen⟩
      · simp only [returnedStore, get_put, if_true] at hp
        cases hp
        cases hi
    · refine course_other [] h hid hk
        (hcards.others_rejected ho hphase.1) rfl rfl ?_ rfl rfl fun _ => List.not_mem_nil
      simp [returnedStore, List.countP_append, returnEvent, returnedEvent, hid]

theorem course_change {id : Text} {w t : World} (h : Course v.layout id w) (hc : Change v w t) :
    Course v.layout id t := by
  cases hc with
  | dictionaries hevents =>
    refine course_still h rfl (fun _ _ _ => rfl) (events_foreign _ _ fun e he => ?_) rfl
    have := hevents e he
    simp only [dictionaryEvent, decide_eq_true_eq] at this
    rintro heq
    simp [heq] at this
  | _ => exact course_still h rfl (fun _ _ _ => rfl) (events_same rfl) rfl

theorem course_accepting {layout : Layout} {id : Text} {w t : World} (h : Course layout id w)
    (ha : Accepting w t) : Course layout id t := by
  cases ha with
  | opened hnone haction =>
    exact course_still h rfl (fun _ _ _ => rfl)
      (events_foreign _ _ (by simp [haction])) rfl
  | skipped =>
    exact course_still h rfl (fun _ _ _ => rfl)
      (events_foreign _ _ (by simp [occupiedEvents])) rfl
  | claimed => exact course_still h rfl (fun _ _ _ => rfl) (events_same rfl) rfl
  | launched => exact course_still h rfl (fun _ _ _ => rfl) (events_same rfl) rfl

theorem run_cards {P : World → World → Prop} {m : Machine World Cmd Op Val Exn Reply}
    (h : Run v P m) : Cards m.state.store := by
  refine invariant (J := fun w => Cards w.store) ?_ (fun _ _ hw hj _ he => cards_effect hw hj he)
    (fun _ _ _ hj _ hc => ?_) (fun _ _ _ hj ha => ?_) h
  · intro w hw
    constructor <;> simp [hw.returns, hw.quarantine]
  · exact cards_same hj (Change.rely hc).returns (Change.rely hc).quarantine
  · exact cards_same hj (Accepting.rely ha).returns (Accepting.rely ha).quarantine

theorem run_course {P : World → World → Prop} {m : Machine World Cmd Op Val Exn Reply}
    (h : Run v P m) (id : Text) : Course v.layout id m.state := by
  have hboth : Cards m.state.store ∧ Course v.layout id m.state := by
    refine invariant (J := fun w => Cards w.store ∧ Course v.layout id w) ?_
      (fun _ _ hw hj _ he => ⟨cards_effect hw hj.1 he, course_effect hw hj.1 hj.2 he⟩)
      (fun _ _ _ hj _ hc => ⟨?_, course_change hj.2 hc⟩)
      (fun _ _ _ hj ha => ⟨?_, course_accepting hj.2 ha⟩) h
    · intro w hw
      refine ⟨by constructor <;> simp [hw.returns, hw.quarantine], ?_⟩
      constructor <;> simp [hw.returns, hw.audit, hw.log]
    · exact cards_same hj.1 (Change.rely hc).returns (Change.rely hc).quarantine
    · exact cards_same hj.1 (Accepting.rely ha).returns (Accepting.rely ha).quarantine
  exact hboth.2

/-! What one step may do to an operation. -/

/-- A closed operation stays as it is, a refusal gives the card back as it was found, and the
end of a return puts the queue item back to work. -/
structure ReturnStep (w t : World) : Prop where
  settled : ∀ (id : Text) (o : ReturnOperation), w.store.returns[id]? = some o →
    o.phase = .done ∨ o.phase = .rejected → t.store.returns[id]? = some o
  refused : ∀ (id : Text) (o p : ReturnOperation), w.store.returns[id]? = some o →
    o.phase ≠ .rejected → t.store.returns[id]? = some p → p.phase = .rejected →
    ∃ c, (∀ d, Trace.began id d ∈ w.log ↔ d = c) ∧ t.store.quarantine[o.quarantineId]? = some c
  reactivated : ∀ (id : Text) (o p : ReturnOperation), w.store.returns[id]? = some o →
    o.phase ≠ .done → t.store.returns[id]? = some p → p.phase = .done →
    ∃ (q : QuarantineCard) (item : QueueItem) (now : Time),
      w.store.quarantine[o.quarantineId]? = some q ∧ w.store.queue[q.itemId]? = some item ∧
      t.store.queue[q.itemId]? = some (returnedItem q o now item) ∧
      (t.store.quarantine[o.quarantineId]?).map (·.returned) = some true

theorem returnStep_same {w t : World} (hreturns : t.store.returns = w.store.returns) :
    ReturnStep w t := by
  refine ⟨fun id o ho _ => hreturns ▸ ho, fun id o p ho hphase hp hd => ?_,
    fun id o p ho hphase hp hd => ?_⟩
  · rw [hreturns, ho] at hp
    cases hp
    exact absurd hd hphase
  · rw [hreturns, ho] at hp
    cases hp
    exact absurd hd hphase

theorem returnStep_put {w t : World} {k : Text} {b : ReturnOperation}
    (hreturns : t.store.returns = w.store.returns.insert k b)
    (hopen : ∀ o : ReturnOperation, w.store.returns[k]? = some o → pendingReturn o.phase = true)
    (hrefused : ∀ o : ReturnOperation, w.store.returns[k]? = some o → b.phase = .rejected →
      ∃ c, (∀ d, Trace.began k d ∈ w.log ↔ d = c) ∧ t.store.quarantine[o.quarantineId]? = some c)
    (hdone : ∀ o : ReturnOperation, w.store.returns[k]? = some o → b.phase = .done →
      ∃ (q : QuarantineCard) (item : QueueItem) (now : Time),
        w.store.quarantine[o.quarantineId]? = some q ∧ w.store.queue[q.itemId]? = some item ∧
        t.store.queue[q.itemId]? = some (returnedItem q o now item) ∧
        (t.store.quarantine[o.quarantineId]?).map (·.returned) = some true) : ReturnStep w t := by
  have hrow : ∀ (id : Text) (o p : ReturnOperation), w.store.returns[id]? = some o →
      t.store.returns[id]? = some p → k = id ∧ p = b ∨ p = o := by
    intro id o p ho hp
    rw [hreturns, get_put] at hp
    split at hp
    · rename_i hk
      exact .inl ⟨hk, (Option.some.inj hp).symm⟩
    · exact .inr (Option.some.inj (hp.symm.trans ho))
  refine ⟨fun id o ho hphase => ?_, fun id o p ho hphase hp hd => ?_,
    fun id o p ho hphase hp hd => ?_⟩
  · rw [hreturns, get_put, if_neg]
    · exact ho
    · rintro rfl
      have := hopen o ho
      rcases hphase with h | h <;> simp [pendingReturn, h] at this
  · rcases hrow id o p ho hp with ⟨rfl, rfl⟩ | rfl
    · exact hrefused o ho hd
    · exact absurd hd hphase
  · rcases hrow id o p ho hp with ⟨rfl, rfl⟩ | rfl
    · exact hdone o ho hd
    · exact absurd hd hphase

theorem card_restored {card : QuarantineCard} (hcan : card.canReturn = true)
    (hfree : card.recoveryOperationId = none) : { card with
      canReturn := true, recoveryOperationId := none } = card := by
  rw [← hcan, ← hfree]

theorem returnStep_effect {layout : Layout} {w t : World} (hw : Coherent w)
    (h : ∀ id, Course layout id w) (he : Effect layout w t) : ReturnStep w t := by
  cases he with
  | @began k request card expected hkey hcard hadmit hfree =>
    have hnone : ∀ o : ReturnOperation, w.store.returns[k]? ≠ some o := fun o ho =>
      by cases hfree.symm.trans ho
    exact returnStep_put rfl (fun o ho => absurd ho (hnone o)) (fun o ho => absurd ho (hnone o))
      fun o ho => absurd ho (hnone o)
  | @rejected o card ho hphase hmoved hcard =>
    have hk : card.quarantineId = o.quarantineId := hw.quarantine_key _ _ hcard
    refine returnStep_put rfl (fun p hp => ?_) (fun p hp _ => ?_) fun _ _ => by rintro ⟨⟩
    · obtain rfl : o = p := Option.some.inj (ho.symm.trans hp)
      simp [pendingReturn, hphase]
    · obtain rfl : o = p := Option.some.inj (ho.symm.trans hp)
      obtain ⟨c, hc, hcan, hnone, hlock⟩ := (h o.operationId).locked o ho hphase
      refine ⟨c, hc, ?_⟩
      obtain rfl := Option.some.inj (hcard.symm.trans hlock)
      rw [get_put, if_pos hk]
      exact congrArg some (card_restored hcan hnone)
  | @returnLocked k now o card ho hphase hcard =>
    have hkey : o.operationId = k := hw.returns_key k o ho
    subst hkey
    refine returnStep_put rfl (fun p hp => ?_) (fun _ _ => by rintro ⟨⟩) fun _ _ => by rintro ⟨⟩
    obtain rfl : o = p := Option.some.inj (ho.symm.trans hp)
    simp [pendingReturn, hphase]
  | @returned k o card item now ho hp hhome hcard hitem =>
    have hkey : o.operationId = k := hw.returns_key k o ho
    have hk : card.quarantineId = o.quarantineId := hw.quarantine_key _ _ hcard
    have hik : item.itemId = card.itemId := hw.queue_key _ _ hitem
    subst hkey
    refine returnStep_put rfl (fun p hp' => ?_) (fun _ _ => by rintro ⟨⟩) fun p hp' _ => ?_
    · obtain rfl : o = p := Option.some.inj (ho.symm.trans hp')
      exact hp
    · obtain rfl : o = p := Option.some.inj (ho.symm.trans hp')
      refine ⟨card, item, now, hcard, hitem, ?_, ?_⟩
      · simp only [returnedStore, get_put]
        exact if_pos hik
      · simp only [returnedStore, get_put]
        rw [if_pos hk]
        rfl
  | _ => exact returnStep_same rfl

theorem run_returnStep {P : World → World → Prop} {m n : Machine World Cmd Op Val Exn Reply}
    {e : Event Cmd Choice Env} (h : Run v P m) (hstep : (system v).step m e = some n) :
    ReturnStep m.state n.state := by
  rcases run_step h hstep with hsame | heffect | hchange | haccept
  · exact returnStep_same (by rw [hsame])
  · exact returnStep_effect (run_coherent h) (run_course h) heffect
  · exact returnStep_same (Change.rely hchange).returns
  · exact returnStep_same (accepted_keeps (run_coherent h) haccept).2.returns

/-! A call that answers with an occupied original path. -/

theorem require_error {V : Type} {t : Table V} {k : Text} {e : Exn} (h : require t k = .error e) :
    e = apiError .notFound := by
  unfold require at h
  split at h
  · cases h
  · exact (Except.error.inj h).symm

theorem finishReturn_error {id : Text} {now : Time} {s : Store} {e : Exn}
    (h : finishReturn id now s = .error e) : e ≠ apiError .originalPathOccupied := by
  rcases bind_eq_error.mp h with he | ⟨saved, _, h⟩
  · rw [require_error he]
    rintro ⟨⟩
  by_cases hd : saved.phase = .done
  · simp only [hd, if_true] at h
    cases hr : saved.result <;> simp only [hr] at h <;> cases h
    rintro ⟨⟩
  · simp only [hd, if_false] at h
    rcases bind_eq_error.mp h with he | ⟨card, _, h⟩
    · rw [require_error he]
      rintro ⟨⟩
    rcases bind_eq_error.mp h with he | ⟨item, _, h⟩
    · rw [require_error he]
      rintro ⟨⟩
    · cases h

theorem lockReturn_error {id : Text} {now : Time} {s : Store} {e : Exn}
    (h : lockReturn id now s = .error e) : e ≠ apiError .originalPathOccupied := by
  rcases bind_eq_error.mp h with he | ⟨saved, _, h⟩
  · rw [require_error he]
    rintro ⟨⟩
  by_cases hd : saved.phase = .recoveryRequired
  · simp only [hd, if_true] at h
    cases h
  · simp only [hd, if_false] at h
    rcases bind_eq_error.mp h with he | ⟨card, _, h⟩
    · rw [require_error he]
      rintro ⟨⟩
    · cases h

theorem rejectReturn_error {o : ReturnOperation} {s : Store} {e : Exn}
    (h : rejectReturn o s = .error e) : e ≠ apiError .originalPathOccupied := by
  rcases bind_eq_error.mp h with he | ⟨card, _, h⟩
  · rw [require_error he]
    rintro ⟨⟩
  · cases h

theorem fails_answer {o : Op} {w : World} {e : Exn}
    (h : ∀ x, answer v.layout x (noted w o) o = .error e → e ≠ apiError .originalPathOccupied)
    (he : fails v.layout o w e) : e ≠ apiError .originalPathOccupied := by
  rcases he with rfl | ⟨x, hx⟩
  · rintro ⟨⟩
  · exact h x hx

/-- Whoever is told that the original path is occupied finds the cards `q` in the store. -/
def Refused {α : Type} (q : Table QuarantineCard) (r : Except Exn α) (t : World) : Prop :=
  r = .error (apiError .originalPathOccupied) → ∀ k : Text, t.store.quarantine[k]? = q[k]?

theorem refused_never {α : Type} {q : Table QuarantineCard} {r : Except Exn α} {t : World}
    (h : r ≠ .error (apiError .originalPathOccupied)) : Refused q r t := fun hr => absurd hr h

theorem wp_resolvePending_answer {o : ReturnOperation} {w : World} {q : Table QuarantineCard}
    (ho : w.store.returns[o.operationId]? = some o) (hphase : pendingReturn o.phase = true) :
    (discipline v).wp (Quarantine.resolvePending o) (Refused q) w := by
  simp only [Quarantine.resolvePending, bind_eq]
  refine wp_bind.mpr (wp_attempt.mpr (wp_placement ho fun r t hreturns hhome => ?_))
  have hrow : ∀ u, Rely t u → u.store.returns[o.operationId]? = some o := by
    intro u hu
    rw [hu.returns, hreturns]
    exact ho
  simp only []
  split
  · rename_i hseen
    refine wp_call fun t₁ h₁ _ => ⟨⟨o, hrow t₁ h₁, hphase, ?_⟩, fun e he => ?_, ?_⟩
    · simpa only [returnedHome, h₁.log] using hhome hseen
    · refine refused_never fun heq => fails_answer (fun x hx => ?_) he (Except.error.inj heq)
      rcases bind_eq_error.mp hx with hx | ⟨_, _, hx⟩
      · exact finishReturn_error hx
      · cases hx
    · exact fun _ _ _ _ _ => refused_never (by rintro ⟨⟩)
  · refine wp_bind.mpr (wp_call fun t₁ h₁ _ => ⟨⟨o, hrow t₁ h₁, hphase⟩, fun e he => ?_, ?_⟩)
    · refine refused_never fun heq => fails_answer (fun x hx => ?_) he (Except.error.inj heq)
      rcases bind_eq_error.mp hx with hx | ⟨_, _, hx⟩
      · exact lockReturn_error hx
      · cases hx
    · exact fun _ _ _ _ _ => refused_never (by rintro ⟨⟩)

theorem wp_resolve_answer {o : ReturnOperation} {w : World} {q : Table QuarantineCard}
    (ho : w.store.returns[o.operationId]? = some o)
    (hclosed : o.phase = .rejected → ∀ k : Text, w.store.quarantine[k]? = q[k]?) :
    (discipline v).wp (Quarantine.resolve o) (Refused q) w := by
  unfold Quarantine.resolve
  cases hphase : o.phase with
  | intent => exact wp_resolvePending_answer ho (by rw [hphase]; rfl)
  | recoveryRequired => exact wp_resolvePending_answer ho (by rw [hphase]; rfl)
  | done => cases o.result <;> exact refused_never (by rintro ⟨⟩)
  | rejected =>
    cases o.error with
    | none => exact refused_never (by rintro ⟨⟩)
    | some code => exact fun _ => hclosed hphase

/-- A new operation whose target is occupied gives its card back. -/
theorem wp_conclude_answer {o : ReturnOperation} {r : Except Exn Unit} {w : World}
    {q : Table QuarantineCard} (card : QuarantineCard)
    (ho : w.store.returns[o.operationId]? = some o) (hphase : o.phase = .intent)
    (hquiet : r = .error .targetExists →
      ∀ s u e, Trace.moved (.returnOp o.operationId) s u e ∉ w.log)
    (hcard : q[o.quarantineId]? = some card) (hkey : card.quarantineId = o.quarantineId)
    (hcan : card.canReturn = true) (hfree : card.recoveryOperationId = none)
    (hlock : w.store.quarantine = q.insert o.quarantineId
      { card with canReturn := false, recoveryOperationId := some o.operationId }) :
    (discipline v).wp (Quarantine.conclude o r) (Refused q) w := by
  unfold Quarantine.conclude
  split
  · refine wp_bind.mpr (wp_call fun t ht _ => ⟨⟨?_, hphase, ?_⟩, fun e he => ?_, ?_⟩)
    · rw [ht.returns]
      exact ho
    · rw [ht.log]
      exact hquiet rfl
    · refine refused_never fun heq => fails_answer (fun x hx => ?_) he (Except.error.inj heq)
      rcases bind_eq_error.mp hx with hx | ⟨_, _, hx⟩
      · exact rejectReturn_error hx
      · cases hx
    · intro x _ u ha _ _ k
      obtain ⟨s, hs, rfl⟩ := commit_eq_ok ha
      obtain ⟨c, hc, rfl⟩ := rejectReturn_cases hs
      change t.store.quarantine[o.quarantineId]? = some c at hc
      rw [ht.quarantine, hlock, get_put, if_pos rfl] at hc
      cases hc
      change (t.store.quarantine.insert _ _)[k]? = _
      rw [ht.quarantine, hlock, get_put, get_put]
      by_cases hk : o.quarantineId = k
      · subst hk
        rw [if_pos hkey, hcard]
        exact congrArg some (card_restored hcan hfree)
      · rw [if_neg (hkey ▸ hk), if_neg hk]
  · exact wp_resolve_answer ho fun hr => by cases hphase.symm.trans hr

/-- Told that the original path is occupied, a caller has changed no card. -/
theorem wp_returnItem_answer (request : ReturnRequest) (w : World) :
    (discipline v).wp (Quarantine.returnItem request) (Refused w.store.quarantine) w := by
  simp only [Quarantine.returnItem, bind_eq]
  refine wp_bind.mpr (wp_call fun t ht hi => ⟨trivial, fun e _ _ k => ?_, fun x r u ha _ => ?_⟩)
  · exact congrArg (·[k]?) ht.quarantine
  obtain ⟨⟨⟨o, replayed⟩, s⟩, hs, hu⟩ := bind_eq_ok.mp ha
  cases hu
  obtain ⟨record, rfl, rfl, _, _, ho⟩ | ⟨card, expected, rfl, _, hcard, hadmit, hfree, rfl, rfl⟩ :=
    beginReturn_cases hs
  · have hkey : o.operationId = record.operationId := hi.returns_key _ o ho
    exact wp_resolve_answer (hkey ▸ ho) fun _ k => congrArg (·[k]?) ht.quarantine
  · obtain ⟨_, hlock, hcan⟩ := admitReturn_card hadmit
    have hkey : card.quarantineId = request.quarantineId := hi.quarantine_key _ _ hcard
    obtain ⟨hlog, hissued, hmoved⟩ := began_quiet hi hfree hcard
    refine wp_newReturn (o := newOperation x.fresh request card expected) ?_ rfl ?_ ?_
      fun r u hu hquiet => ?_
    · simp only [get_put]
      exact if_pos rfl
    · exact hissued
    · exact hmoved
    · refine wp_conclude_answer card ?_ rfl hquiet ?_ rfl hcan hlock ?_
      · rw [hu.returns]
        simp only [get_put]
        exact if_pos rfl
      · rw [← ht.quarantine]
        change t.store.quarantine[card.quarantineId]? = some card
        rw [hkey]
        exact hcard
      · rw [hu.quarantine, ← ht.quarantine]
        rfl

/-! Replays. -/

theorem held_run {m n : Machine World Cmd Op Val Exn Reply} (h : Run v anyStep m)
    (hh : Held (system v) m n) : Run v anyStep n := by
  induction hh with
  | refl => exact h
  | call _ hstep ih => exact .tail ih (allows_of_step fun _ _ => trivial) hstep
  | other _ hstep ih => exact .tail ih (allows_of_step fun _ _ => trivial) hstep

/-- The key of the request belongs to an operation with the same body. -/
structure Recorded (request : ReturnRequest) (o : ReturnOperation) (s : Store) : Prop where
  key : s.returnKey[request.key]? = some ⟨request.body, o.operationId⟩
  operation : s.returns[o.operationId]? = some o

/-- The call has not looked up its key yet, repeats the outcome, or the store has failed. -/
inductive Repeating (request : ReturnRequest) (o : ReturnOperation) : Program Reply → Prop where
  | looking : Repeating request o (body (.returnItem request))
  | done {result} : o.phase = .done → o.result = some result →
      Repeating request o (.pure (.returned result))
  | rejected : o.phase = .rejected →
      Repeating request o (.throw (apiError .originalPathOccupied))
  | failed : Repeating request o (.throw .failure)

theorem repeating_resolve {s : Store} {o : ReturnOperation} (request : ReturnRequest)
    (hcards : Cards s) (ho : s.returns[o.operationId]? = some o)
    (hended : o.phase = .done ∨ o.phase = .rejected) : Repeating request o
      ((Quarantine.resolve o).bind fun result => .pure (.returned result)) := by
  obtain ⟨hdone, hrejected⟩ := hcards.settled _ o ho
  unfold Quarantine.resolve
  rcases hended with h | h
  · rw [h]
    cases hr : o.result with
    | none => exact absurd hr (hdone h)
    | some result => exact .done h hr
  · rw [h, hrejected h]
    exact .rejected h

theorem repeating_call {request : ReturnRequest} {o : ReturnOperation} {x : Choice} {w : World}
    (hcards : Cards w.store) (hrecorded : Recorded request o w.store)
    (hended : o.phase = .done ∨ o.phase = .rejected) {c : Op}
    {k : Except Exn (Val c) → Program Reply} (h : Repeating request o (.call c k)) :
    (exec v.layout c x w).2 = w ∧ Repeating request o (k (exec v.layout c x w).1) := by
  have hbegin : beginReturn v.layout w.tree x.fresh request w.store = .ok ((o, true), w.store) := by
    simp [beginReturn, hrecorded.key, require, hrecorded.operation, bind, Except.bind, pure,
      Except.pure]
  generalize hp : Prog.call c k = p at h
  cases h with
  | looking =>
    simp only [body, Quarantine.returnItem, bind_eq, call, perform, Prog.bind] at hp
    cases hp
    cases hfault : x.fault with
    | true =>
      simp only [exec, hfault, if_true]
      exact ⟨rfl, .failed⟩
    | false =>
      simp only [exec, hfault, Bool.false_eq_true, if_false, noted, answer, hbegin]
      exact ⟨rfl, repeating_resolve request hcards hrecorded.operation hended⟩
  | _ => cases hp

theorem recorded_rely {request : ReturnRequest} {o : ReturnOperation} {w t : World}
    (h : Recorded request o w.store) (hrely : Rely w t) : Recorded request o t.store :=
  ⟨by rw [hrely.returnKey]; exact h.key, by rw [hrely.returns]; exact h.operation⟩

theorem repeating_held {m n : Machine World Cmd Op Val Exn Reply} {request : ReturnRequest}
    {o : ReturnOperation} (hrun : Run v anyStep m) (hrecorded : Recorded request o m.state.store)
    (hended : o.phase = .done ∨ o.phase = .rejected)
    (hm : m.holder = some (.returnItem request, body (.returnItem request)))
    (h : Held (system v) m n) : Recorded request o n.state.store ∧
      ∃ p, n.holder = some (.returnItem request, p) ∧ Repeating request o p := by
  induction h with
  | refl => exact ⟨hrecorded, _, hm, .looking⟩
  | @call n u x hn hstep ih =>
    obtain ⟨hrow, p, hp, hrepeat⟩ := ih
    have hcards := run_cards (held_run hrun hn)
    rcases System.step_cases hstep with ⟨_, hbad, _⟩ | ⟨y, c, op, k, hy, hholder, rfl⟩ |
      ⟨hbad | hbad, _⟩ | ⟨_, _, hbad, _⟩
    · cases hbad
    · cases hy
      obtain ⟨rfl, rfl⟩ : Cmd.returnItem request = c ∧ p = .call op k := by simpa [hp] using hholder
      obtain ⟨hsame, hnext⟩ := repeating_call (v := v) (x := x) hcards hrow hended hrepeat
      exact ⟨hsame.symm ▸ hrow, _, rfl, hnext⟩
    · cases hbad
    · cases hbad
    · cases hbad
  | @other n u e hn hstep ih =>
    obtain ⟨hrow, p, hp, hrepeat⟩ := ih
    have hw := run_coherent (held_run hrun hn)
    rcases System.step_cases hstep with ⟨_, hbad, _⟩ | ⟨_, _, _, _, hbad, _⟩ |
      ⟨hbad | hbad, _⟩ | ⟨env, t, henv, ht, rfl⟩
    · cases hbad
    · cases hbad
    · cases hbad
    · cases hbad
    · exact ⟨recorded_rely hrow ((discipline v).other_keeps hw ht).2, p, hp, hrepeat⟩

/-! The whole of it. -/

/-- What holds of a card and its operations in a state and in every step from it. -/
structure ReturnsOnce (v : Service) (m : Machine World Cmd Op Val Exn Reply) (k : Text) :
    Prop where
  single : ∀ (i j : Text) (o p : ReturnOperation), m.state.store.returns[i]? = some o →
    m.state.store.returns[j]? = some p → o.quarantineId = k → p.quarantineId = k →
    o.phase ≠ .rejected → p.phase ≠ .rejected → i = j
  issued : ∀ id : Text, m.state.log.countP (issuedFor id) ≤ 1
  closed : ∀ q : QuarantineCard, m.state.store.quarantine[k]? = some q → (q.returned = true ↔
    ∃ (id : Text) (o : ReturnOperation), m.state.store.returns[id]? = some o ∧
      o.quarantineId = k ∧ o.phase = .done)
  observed : ∀ (id : Text) (o : ReturnOperation), m.state.store.returns[id]? = some o →
    o.phase = .done → Observed v.layout id o m.state.log
  reactivated : ∀ (id : Text) (o : ReturnOperation), m.state.store.returns[id]? = some o →
    m.state.store.audit.countP (returnEvent id) = if o.phase = .done then 1 else 0
  step : ∀ e n, (system v).step m e = some n → ReturnStep m.state n.state
  /-- From the launch of a call to the answer that its target is occupied. -/
  refused : ∀ request m₁ n, (system v).step m (.launch (.returnItem request)) = some m₁ →
    Held (system v) m₁ n →
    n.holder = some (.returnItem request, .throw (apiError .originalPathOccupied)) →
    n.state.store.quarantine[k]? = m.state.store.quarantine[k]?
  /-- From the launch of a replay to its answer. -/
  replayed : ∀ request o m₁ n, Recorded request o m.state.store →
    o.phase = .done ∨ o.phase = .rejected →
    (system v).step m (.launch (.returnItem request)) = some m₁ → Held (system v) m₁ n →
    (∃ p, n.holder = some (.returnItem request, p) ∧ Repeating request o p) ∧
      ∀ x u, (system v).step n (.call x) = some u → u.state = n.state

theorem launch_cases {m n : Machine World Cmd Op Val Exn Reply} {c : Cmd}
    (h : (system v).step m (.launch c) = some n) : n = ⟨m.state, some (c, body c)⟩ := by
  rcases System.step_cases h with ⟨_, hc, _, rfl⟩ | ⟨_, _, _, _, hbad, _⟩ | ⟨hbad | hbad, _⟩ |
    ⟨_, _, hbad, _⟩
  · cases hc
    rfl
  · cases hbad
  · cases hbad
  · cases hbad
  · cases hbad

theorem refused_held {m n : Machine World Cmd Op Val Exn Reply} {request : ReturnRequest}
    (h : Run v anyStep m)
    (hn : Held (system v) ⟨m.state, some (.returnItem request, body (.returnItem request))⟩ n)
    (hanswer : n.holder = some (.returnItem request, .throw (apiError .originalPathOccupied)))
    (k : Text) : n.state.store.quarantine[k]? = m.state.store.quarantine[k]? := by
  have hwp : (discipline v).wp (body (.returnItem request))
      (Refused m.state.store.quarantine) m.state := by
    refine wp_bind.mpr (wp_mono (fun r t ht => ?_) (wp_returnItem_answer request m.state))
    cases r with
    | ok result => exact refused_never (by rintro ⟨⟩)
    | error e => exact fun he => ht (congrArg Except.error (Except.error.inj he))
  have hstable : ∀ (r : Except Exn Reply) (s t : World), Rely s t →
      Refused m.state.store.quarantine r s → Refused m.state.store.quarantine r t :=
    fun r s t hst hs hr j => by rw [hst.quarantine, hs hr j]
  obtain ⟨_, q, hq, hend⟩ := wp_held hstable (run_coherent h) hwp hn
  obtain rfl : q = .throw (apiError .originalPathOccupied) := by simpa [hanswer] using hq.symm
  exact hend rfl k

/-- A quarantine return happens at most once, in every run. -/
theorem quarantine_return {m : Machine World Cmd Op Val Exn Reply} (h : Run v anyStep m)
    (k : Text) : ReturnsOnce v m k := by
  have hcards := run_cards h
  refine ⟨fun i j o p ho hp hok hpk => ?_, fun id => (run_course h id).issued, fun q hq => ?_,
    fun id o ho => (run_course h id).observed o ho, fun id o ho => ?_,
    fun e n hstep => run_returnStep h hstep, fun request m₁ n hlaunch hn hanswer => ?_,
    fun request o m₁ n hrecorded hended hlaunch hn => ?_⟩
  · exact hcards.single i j o p ho hp (hok.trans hpk.symm)
  · refine ⟨hcards.returned k q hq, ?_⟩
    rintro ⟨id, o, ho, rfl, hd⟩
    exact hcards.done id o q ho hq hd
  · rw [(run_course h id).reactivated, ho]
    simp
  · rw [launch_cases hlaunch] at hn
    exact refused_held h hn hanswer k
  · have hm₁ := launch_cases hlaunch
    have hrun : Run v anyStep m₁ := .tail h (allows_of_step fun _ _ => trivial) hlaunch
    obtain ⟨hrow, p, hp, hrepeat⟩ :=
      repeating_held hrun (by rw [hm₁]; exact hrecorded) hended (by rw [hm₁]) hn
    refine ⟨⟨p, hp, hrepeat⟩, fun x u hu => ?_⟩
    rcases System.step_cases hu with ⟨_, hbad, _⟩ | ⟨y, c, op, q, hy, hholder, rfl⟩ |
      ⟨hbad | hbad, _⟩ | ⟨_, _, hbad, _⟩
    · cases hbad
    · obtain ⟨rfl, rfl⟩ : Cmd.returnItem request = c ∧ p = .call op q := by
        simpa [hp] using hholder
      exact (repeating_call (v := v) (run_cards (held_run hrun hn)) hrow hended hrepeat).1
    · cases hbad
    · cases hbad
    · cases hbad

/-- A file is quarantined and returned; the card is closed and its operation done. -/
theorem quarantine_return_small : ∃ m,
    (system small).run (checkStep small fun _ _ => true)
      (quarantinedFirst ++ commandEvents firstReturn ['r'] 70 (List.replicate 18 false))
      ⟨smallWorld true [("in/a.t", ⟨1, 7, 3, 0⟩)], none⟩ = some m ∧
    (m.state.store.returns[['r']]?).map (·.phase) = some .done ∧
    ReturnsOnce small m "quarantine-t0".toList := by
  have hrun : ((system small).run (checkStep small fun _ _ => true)
      (quarantinedFirst ++ commandEvents firstReturn ['r'] 70 (List.replicate 18 false))
      ⟨smallWorld true [("in/a.t", ⟨1, 7, 3, 0⟩)], none⟩).any
      (fun m => (m.state.store.returns[['r']]?).map (·.phase) = some .done) = true := by
    decide +kernel
  obtain ⟨m, hm, hdone⟩ := (Option.any_eq_true _ _).mp hrun
  exact ⟨m, hm, of_decide_eq_true hdone, quarantine_return
    (run_checked (fun _ _ _ => trivial) (smallWorld_start _ _) hm) _⟩

end QuarantineReturn
