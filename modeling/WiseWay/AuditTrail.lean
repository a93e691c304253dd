import WiseWay.DurableMove

/-! # The audit trail of an attempt

The events of an attempt are a start, the times it was locked and its end. It is locked
more than once only after a retry. -/
namespace AuditTrail

open Records Services AtomicProgram Calls Intake AttemptTransactions ReturnTransactions
open SortingSystem Effects Changes LockContract ReturnContract

variable {v : Service} {id : Text}

/-- The actions of the events that carry an attempt's identifier, oldest first. -/
def actionsOf (id : Text) (events : List AuditEvent) : List AuditAction :=
  (events.filter (·.attemptId = some id)).map (·.action)

def actions (id : Text) (w : World) : List AuditAction := actionsOf id w.store.audit

/-- At most one event of each kind, the start first, the end last and only for a done one. -/
structure Trail (id : Text) (w : World) : Prop where
  started_once : (actions id w).count .fileAttemptStarted ≤ 1
  recovery_once : (actions id w).count .recoveryRequired ≤ 1
  finished_once : (actions id w).count .fileAttemptFinished ≤ 1
  started_first : ∀ (i : ℕ) (x : AuditAction), (actions id w)[i]? = some x →
    x = .recoveryRequired ∨ x = .fileAttemptFinished →
    ∃ j, j < i ∧ (actions id w)[j]? = some .fileAttemptStarted
  finished_done : AuditAction.fileAttemptFinished ∈ actions id w ↔
    ∃ a, w.store.attempt[id]? = some a ∧ a.phase = .done
  finished_last : ∀ i : ℕ, (actions id w)[i]? = some .fileAttemptFinished →
    i + 1 = (actions id w).length

/-- The step does not lock an attempt again that has been put back to work before. -/
def NoRelock (id : Text) (w t : World) : Prop :=
  ∀ a b, Trace.retried id ∈ w.log → w.store.attempt[id]? = some a →
    t.store.attempt[id]? = some b → b.phase = .recoveryRequired → a.phase = .recoveryRequired

def started (a : Attempt) : Bool := a.outcome.startedAt.isSome || a.phase = .done

/-- The trail of an attempt that has been locked `n` times. -/
def expected (a : Attempt) (n : ℕ) : List AuditAction :=
  if started a then
    .fileAttemptStarted :: List.replicate n .recoveryRequired ++
      if a.phase = .done then [.fileAttemptFinished] else []
  else []

structure Recorded (id : Text) (w : World) (a : Attempt) (n : ℕ) : Prop where
  trail : actions id w = expected a n
  unstarted : started a = false → n = 0
  bound : n ≤ 1
  /-- A lock that is no longer in force has been answered by a retry. -/
  retried : n = 1 → a.phase = .recoveryRequired ∨ a.phase = .done ∨ Trace.retried id ∈ w.log

def Audited (id : Text) (w : World) : Prop :=
  (w.store.attempt[id]? = none → actions id w = []) ∧
    ∀ a, w.store.attempt[id]? = some a → ∃ n, Recorded id w a n

@[simp] theorem actionsOf_append (xs ys : List AuditEvent) :
    actionsOf id (xs ++ ys) = actionsOf id xs ++ actionsOf id ys := by
  simp [actionsOf]

theorem actionsOf_foreign (xs : List AuditEvent) {events : List AuditEvent}
    (h : ∀ e ∈ events, e.attemptId ≠ some id) :
    actionsOf id (xs ++ events) = actionsOf id xs := by
  simpa [actionsOf] using h

theorem Recorded.same {w t : World} {a b : Attempt} {n : ℕ} (h : Recorded id w a n)
    (haudit : actions id t = actions id w) (hlog : ∀ e ∈ w.log, e ∈ t.log)
    (hphase : b.phase = a.phase) (hstarted : b.outcome.startedAt = a.outcome.startedAt) :
    Recorded id t b n := by
  have hs : started b = started a := by simp [started, hphase, hstarted]
  refine ⟨?_, fun hb => h.unstarted (hs ▸ hb), h.bound, fun hn => ?_⟩
  · rw [haudit, h.trail]
    simp [expected, hs, hphase]
  · rw [hphase]
    exact (h.retried hn).imp_right (.imp_right (hlog _))

theorem Recorded.again {w t : World} {a b : Attempt} {n : ℕ} (h : Recorded id w a n)
    (haudit : actions id t = actions id w) (ha : a.phase ≠ .done) (hb : b.phase ≠ .done)
    (hstarted : b.outcome.startedAt = a.outcome.startedAt)
    (hretried : n = 1 → Trace.retried id ∈ t.log) : Recorded id t b n := by
  have hs : started b = started a := by simp [started, ha, hb, hstarted]
  refine ⟨?_, fun hn => h.unstarted (hs ▸ hn), h.bound, fun hn => .inr (.inr (hretried hn))⟩
  rw [haudit, h.trail]
  simp [expected, hs, ha, hb]

theorem audited_same {w t : World} (h : Audited id w)
    (hattempt : t.store.attempt[id]? = w.store.attempt[id]?)
    (haudit : actions id t = actions id w) (hlog : ∀ e ∈ w.log, e ∈ t.log) : Audited id t := by
  refine ⟨fun hnone => ?_, fun a ha => ?_⟩
  · rw [haudit]
    exact h.1 (hattempt ▸ hnone)
  · obtain ⟨n, hn⟩ := h.2 a (hattempt ▸ ha)
    exact ⟨n, hn.same haudit hlog rfl rfl⟩

theorem startAttempt_events (a : Attempt) (now : Time) (target : Option Location)
    (hkey : a.attemptId = id) : actionsOf id (startAttempt a now target).2 =
      if a.outcome.startedAt = none then [.fileAttemptStarted] else [] := by
  unfold startAttempt
  split <;> rename_i h <;> simp [actionsOf, startedEvent, hkey, h]

theorem startAttempt_foreign (a : Attempt) (now : Time) (target : Option Location)
    (hkey : a.attemptId ≠ id) : actionsOf id (startAttempt a now target).2 = [] := by
  unfold startAttempt
  split <;> simp [actionsOf, startedEvent, hkey]

theorem trail_start {w : World} {a : Attempt} {n : ℕ} (h : Recorded id w a n)
    (hd : a.phase ≠ .done) : actions id w ++
      (if a.outcome.startedAt = none then [.fileAttemptStarted] else []) =
        .fileAttemptStarted :: List.replicate n .recoveryRequired := by
  have hs : started a = a.outcome.startedAt.isSome := by simp [started, hd]
  rw [h.trail, expected, hs]
  cases hstart : a.outcome.startedAt with
  | none =>
    have hn : n = 0 := h.unstarted (by simp [hs, hstart])
    simp [hn]
  | some time => simp [hd]

theorem audited_put {w t : World} {k : Text} {a b : Attempt} (h : Audited id w)
    (ha : w.store.attempt[k]? = some a)
    (hput : t.store.attempt = w.store.attempt.insert k b)
    (hforeign : k ≠ id → actions id t = actions id w) (hlog : ∀ e ∈ w.log, e ∈ t.log)
    (hown : k = id → ∀ n, Recorded id w a n → ∃ n, Recorded id t b n) : Audited id t := by
  by_cases hk : k = id
  · subst hk
    obtain ⟨n, hn⟩ := h.2 a ha
    refine ⟨fun hnone => ?_, fun c hc => ?_⟩
    · rw [hput, get_put, if_pos rfl] at hnone
      cases hnone
    · rw [hput, get_put, if_pos rfl] at hc
      cases hc
      exact hown rfl n hn
  · refine audited_same h ?_ (hforeign hk) hlog
    rw [hput, get_put, if_neg hk]

theorem intendedAttempt_events (a : Attempt) (planned : Intent) (now : Time)
    (hkey : a.attemptId = id) : actionsOf id (intendedAttempt a planned now).2 =
      if a.outcome.startedAt = none then [.fileAttemptStarted] else [] := by
  unfold intendedAttempt
  exact startAttempt_events _ now _ (by exact hkey)

theorem intended_recorded {w : World} {t : World} {a : Attempt} {planned : Intent} {now : Time}
    {n : ℕ} (h : Recorded id w a n) (hkey : a.attemptId = id) (hphase : a.phase = .queued)
    (haudit : t.store.audit = w.store.audit ++ (intendedAttempt a planned now).2)
    (hlog : t.log = w.log) : Recorded id t (intendedAttempt a planned now).1 n := by
  have hd : a.phase ≠ .done := by simp [hphase]
  have hs : started (intendedAttempt a planned now).1 = true := by
    have := startAttempt_started { a with
      phase := .intent
      intent := some planned
      outcome := { a.outcome with state := .processing, reasonCode := none } } now
      (some planned.target)
    simp only [started, intendedAttempt, Bool.or_eq_true]
    exact .inl (Option.isSome_iff_ne_none.mpr this)
  refine ⟨?_, (fun hn => by cases hs.symm.trans hn), h.bound, fun hn => ?_⟩
  · have hstart := trail_start h hd
    simp only [actions, haudit, actionsOf_append] at hstart ⊢
    rw [intendedAttempt_events a planned now hkey, hstart, expected, if_pos hs]
    simp
  · rw [hlog]
    rcases h.retried hn with hr | hr | hr
    · simp [hphase] at hr
    · exact absurd hr hd
    · exact .inr (.inr hr)

theorem finished_recorded {w t : World} {a : Attempt} {item : QueueItem}
    {current : Option Fingerprint} {state : OutcomeState} {reason : Option Reason}
    {actual : Option Location} {now : Time} {n : ℕ} (h : Recorded id w a n)
    (hkey : a.attemptId = id) (hd : a.phase ≠ .done)
    (haudit : t.store.audit =
      (finishedStore id a item current state reason actual now w.store).audit) :
    Recorded id t (finishedAttempt a state reason actual now) n := by
  have hdone : (finishedAttempt a state reason actual now).phase = .done :=
    (finishedAttempt_frame a state reason actual now).2.2.1
  have hs : started (finishedAttempt a state reason actual now) = true := by
    simp [started]
  refine ⟨?_, (fun hn => by cases hs.symm.trans hn), h.bound, fun _ => .inr (.inl hdone)⟩
  have hstart := trail_start h hd
  simp only [actions] at hstart
  rw [expected, if_pos hs, if_pos hdone]
  simp only [actions, haudit, finishedStore, actionsOf_append]
  rw [startAttempt_events _ _ _ hkey, hstart]
  simp [actionsOf, finishedEvent]

theorem locked_recorded {w t : World} {a : Attempt} {item : QueueItem} {actual : Option Location}
    {now : Time} {n : ℕ} (h : Recorded id w a n) (hkey : a.attemptId = id)
    (hd : a.phase ≠ .done) (hfirst : n = 0)
    (haudit : t.store.audit = (lockedStore id a item actual now w.store).audit) :
    Recorded id t (lockedAttempt a actual now) 1 := by
  have hphase : (lockedAttempt a actual now).phase = .recoveryRequired :=
    (lockedAttempt_frame a actual now).2.2.1
  have hs : started (lockedAttempt a actual now) = true := by
    simp only [started, lockedAttempt, Bool.or_eq_true]
    exact .inl (Option.isSome_iff_ne_none.mpr (startAttempt_started a now a.intentTarget))
  refine ⟨?_, (fun hn => by cases hs.symm.trans hn), le_rfl, fun _ => .inl hphase⟩
  have hstart := trail_start h hd
  simp only [actions] at hstart
  rw [expected, if_pos hs, hphase]
  simp only [actions, haudit, lockedStore, actionsOf_append]
  rw [startAttempt_events _ _ _ hkey, hstart, hfirst]
  simp [actionsOf, recoveryEvent]

theorem audited_effect {layout : Layout} {w t : World} (hw : Coherent w) (h : Audited id w)
    (hP : NoRelock id w t) (he : Effect layout w t) : Audited id t := by
  cases he with
  | same => exact h
  | seen _ => exact audited_same h rfl rfl fun e he => .tail _ he
  | checked _ _ => exact audited_same h rfl rfl fun e he => .tail _ he
  | issued _ _ => exact audited_same h rfl rfl fun e he => .tail _ he
  | moved _ _ _ => exact audited_same h rfl rfl fun e he => .tail _ (.tail _ he)
  | @requeued k a ha hphase hintent =>
    refine audited_put h ha rfl (fun _ => rfl) (fun e he => .tail _ he) ?_
    rintro rfl n hn
    exact ⟨n, hn.again rfl (by simp [hphase]) (by rintro ⟨⟩) rfl fun _ => List.mem_cons_self ..⟩
  | @rearmed k a i ha hphase hi =>
    have hd : a.phase ≠ .done := by rcases hphase with h | h <;> simp [h]
    refine audited_put h ha rfl (fun _ => rfl) (fun e he => ?_) ?_
    · simp only
      split
      · exact .tail _ he
      · exact he
    rintro rfl n hn
    refine ⟨n, hn.again rfl hd (by rintro ⟨⟩) rfl fun hone => ?_⟩
    simp only
    rcases hn.retried hone with hr | hr | hr
    · rw [if_pos hr]
      exact List.mem_cons_self ..
    · exact absurd hr hd
    · split
      · exact .tail _ hr
      · exact hr
  | @intended k a planned now ha hphase =>
    have hkey := hw.attempt_key k a ha
    refine audited_put h ha rfl (fun hk => ?_) (fun e he => he) ?_
    · simp only [actions, actionsOf_append, intendedAttempt]
      rw [startAttempt_foreign _ _ _ (by simpa [hkey] using hk), List.append_nil]
    · rintro rfl n hn
      exact ⟨n, intended_recorded hn hkey hphase rfl rfl⟩
  | @quarantineIntended k a i target source tree older ha hphase =>
    refine audited_put h ha rfl (fun _ => rfl) (fun e he => he) ?_
    rintro rfl n hn
    exact ⟨n, hn.same rfl (fun e he => he) rfl rfl⟩
  | @finished k a item current state reason actual now ha hd hitem hend =>
    have hkey := hw.attempt_key k a ha
    refine audited_put h ha rfl (fun hk => ?_) (fun e he => he) ?_
    · simp only [actions, finishedStore, actionsOf_append]
      rw [startAttempt_foreign _ _ _ (by simpa [hkey] using hk)]
      simp [actionsOf, finishedEvent, hk]
    · rintro rfl n hn
      exact ⟨n, finished_recorded hn hkey hd rfl⟩
  | @locked k a item actual now ha hd hr hitem =>
    have hkey := hw.attempt_key k a ha
    refine audited_put h ha rfl (fun hk => ?_) (fun e he => he) ?_
    · simp only [actions, lockedStore, actionsOf_append]
      rw [startAttempt_foreign _ _ _ (by simpa [hkey] using hk)]
      simp [actionsOf, recoveryEvent, hk]
    · rintro rfl n hn
      refine ⟨1, locked_recorded hn hkey hd ?_ rfl⟩
      -- A second lock would have to follow a retry, which the run excludes.
      by_contra hzero
      have hone : n = 1 := by have := hn.bound; omega
      rcases hn.retried hone with hlocked | hdone | hretried
      · exact hr hlocked
      · exact hd hdone
      · refine hr (hP a (lockedAttempt a actual now) hretried ha ?_ ?_)
        · simp [lockedStore]
        · exact (lockedAttempt_frame a actual now).2.2.1
  | began => exact audited_same h rfl rfl fun e he => .tail _ he
  | rejected => exact audited_same h rfl rfl fun e he => he
  | returnLocked =>
    refine audited_same h rfl ?_ fun e he => he
    simp [actions, actionsOf, returnRecoveryEvent]
  | returned =>
    refine audited_same h rfl ?_ fun e he => he
    simp [actions, returnedStore, actionsOf, returnedEvent]

theorem audited_change {w t : World} (h : Audited id w) (hc : Change v w t) : Audited id t := by
  cases hc with
  | dictionaries hevents =>
    refine audited_same h rfl ?_ fun e he => he
    refine actionsOf_foreign _ fun e he => ?_
    have := hevents e he
    simp only [dictionaryEvent, decide_eq_true_eq] at this
    simp [this.1]
  | _ => exact audited_same h rfl rfl fun e he => he

theorem audited_new {w t : World} {k : Text} {b : Attempt} (h : Audited id w)
    (hfree : w.store.attempt[k]? = none) (hput : t.store.attempt = w.store.attempt.insert k b)
    (hforeign : k ≠ id → actions id t = actions id w) (hlog : ∀ e ∈ w.log, e ∈ t.log)
    (hown : k = id → actions id w = [] → Recorded id t b 0) : Audited id t := by
  by_cases hk : k = id
  · subst hk
    refine ⟨fun hnone => ?_, fun c hc => ?_⟩
    · rw [hput, get_put, if_pos rfl] at hnone
      cases hnone
    · rw [hput, get_put, if_pos rfl] at hc
      cases hc
      exact ⟨0, hown rfl (h.1 hfree)⟩
  · refine audited_same h ?_ (hforeign hk) hlog
    rw [hput, get_put, if_neg hk]

theorem audited_accepting {w t : World} (h : Audited id w) (ha : Accepting w t) :
    Audited id t := by
  cases ha with
  | opened hnone =>
    refine audited_same h rfl ?_ fun e he => he
    simp [actions, actionsOf, hnone]
  | @skipped a saved row claim k hfree =>
    refine audited_new h hfree rfl (fun hk => ?_) (fun e he => he) ?_
    · exact actionsOf_foreign _ (by simp [occupiedEvents, hk])
    · rintro rfl hempty
      have hs : started (acceptedAttempt a k true saved row) = true := rfl
      refine ⟨?_, by rintro ⟨⟩, Nat.zero_le _, by rintro ⟨⟩⟩
      rw [expected, if_pos hs]
      simp only [actions, actionsOf_append] at hempty ⊢
      rw [hempty]
      simp [actionsOf, occupiedEvents, acceptedAttempt]
  | @claimed a saved row item k hfree =>
    refine audited_new h hfree rfl (fun _ => rfl) (fun e he => he) ?_
    rintro rfl hempty
    exact ⟨hempty, fun _ => rfl, Nat.zero_le _, by rintro ⟨⟩⟩
  | launched => exact audited_same h rfl rfl fun e he => he

theorem run_audited {m : Machine World Cmd Op Val Exn Reply} (h : Run v (NoRelock id) m) :
    Audited id m.state := by
  refine invariant ?_ (fun _ _ => audited_effect) (fun _ _ _ hj _ hc => audited_change hj hc)
    (fun _ _ _ => audited_accepting) h
  intro w hw
  refine ⟨fun _ => ?_, fun a ha => ?_⟩
  · simp [actions, actionsOf, hw.audit]
  · simp [hw.attempt] at ha

/-- The trails an attempt can have, before its end and after it. -/
def openTrails : List (List AuditAction) :=
  [[], [.fileAttemptStarted], [.fileAttemptStarted, .recoveryRequired]]

def closedTrails : List (List AuditAction) :=
  [[.fileAttemptStarted, .fileAttemptFinished],
    [.fileAttemptStarted, .recoveryRequired, .fileAttemptFinished]]

theorem Recorded.shape {w : World} {a : Attempt} {n : ℕ} (h : Recorded id w a n) :
    a.phase ≠ .done ∧ actions id w ∈ openTrails ∨
      a.phase = .done ∧ actions id w ∈ closedTrails := by
  have hn : n = 0 ∨ n = 1 := by have := h.bound; omega
  rw [h.trail, expected]
  by_cases hd : a.phase = .done
  · have hs : started a = true := by simp [started, hd]
    rcases hn with rfl | rfl <;> simp [hs, hd, closedTrails]
  · cases hs : started a with
    | false => simp [hd, openTrails]
    | true => rcases hn with rfl | rfl <;> simp [hd, openTrails]

theorem trail_of_actions {w : World}
    (h : (¬∃ a, w.store.attempt[id]? = some a ∧ a.phase = .done) ∧ actions id w ∈ openTrails ∨
      (∃ a, w.store.attempt[id]? = some a ∧ a.phase = .done) ∧ actions id w ∈ closedTrails) :
    Trail id w := by
  have hfirst : ∀ l ∈ openTrails ++ closedTrails, ∀ i < l.length,
      l[i]? = some .recoveryRequired ∨ l[i]? = some .fileAttemptFinished →
      0 < i ∧ l[0]? = some .fileAttemptStarted := by decide
  have hlast : ∀ l ∈ openTrails ++ closedTrails, ∀ i < l.length,
      l[i]? = some .fileAttemptFinished → i + 1 = l.length := by decide
  have hmem : actions id w ∈ openTrails ++ closedTrails := by
    rcases h with ⟨_, h⟩ | ⟨_, h⟩
    · exact List.mem_append_left _ h
    · exact List.mem_append_right _ h
  have hcount : ∀ l ∈ openTrails ++ closedTrails, l.count .fileAttemptStarted ≤ 1 ∧
      l.count .recoveryRequired ≤ 1 ∧ l.count .fileAttemptFinished ≤ 1 := by decide
  obtain ⟨hstart, hlock, hfinish⟩ := hcount _ hmem
  have hbound : ∀ {i : ℕ} {x : AuditAction}, (actions id w)[i]? = some x →
      i < (actions id w).length := fun hx => (List.getElem?_eq_some_iff.mp hx).1
  refine ⟨hstart, hlock, hfinish, fun i x hx hkind => ⟨0, hfirst _ hmem i (hbound hx) ?_⟩, ?_,
    fun i hx => hlast _ hmem i (hbound hx) hx⟩
  · rw [hx]
    exact hkind.imp (congrArg some) (congrArg some)
  have hopen : ∀ l ∈ openTrails, AuditAction.fileAttemptFinished ∉ l := by decide
  have hclosed : ∀ l ∈ closedTrails, AuditAction.fileAttemptFinished ∈ l := by decide
  rcases h with ⟨hdone, h⟩ | ⟨hdone, h⟩
  · exact iff_of_false (hopen _ h) hdone
  · exact iff_of_true (hclosed _ h) hdone

/-- The trail is as promised in every run in which no attempt is locked again after a retry. -/
theorem audit_trail {m : Machine World Cmd Op Val Exn Reply} (h : Run v (NoRelock id) m) :
    Trail id m.state := by
  obtain ⟨hnone, hsome⟩ := run_audited h
  cases ha : m.state.store.attempt[id]? with
  | none =>
    refine trail_of_actions (.inl ⟨by simp [ha], ?_⟩)
    rw [hnone ha]
    decide
  | some a =>
    obtain ⟨n, hn⟩ := hsome a ha
    exact trail_of_actions (by simpa [ha] using hn.shape)

/-- A file is accepted, its first two runs cannot read it, and each of them locks it. -/
def lockedTwice : List (Event Cmd Choice Env) :=
  [.other (.scan "in".toList 0 [⟨"a.t".toList, ⟨1, 7, 3, 0⟩, "queue-1".toList⟩]),
    .other (.scan "in".toList 20 [⟨"a.t".toList, ⟨1, 7, 3, 0⟩, "queue-1".toList⟩])] ++
  acceptEvents ['s'] ['b'] ['t'] 20 [("queue-in-1-7".toList, 1)] ++
  commandEvents .runOnce [] 30 [false, false, false, true, false] ++
  commandEvents .runOnce [] 40 [false, false, false, false, false, false, false, false, true, false]

theorem locked_twice : ∃ m,
    (system small).run (checkStep small fun _ _ => true) lockedTwice
      ⟨smallWorld true [("in/a.t", ⟨1, 7, 3, 0⟩)], none⟩ = some m ∧
    Run small anyStep m ∧ ¬Trail "t0".toList m.state := by
  have hrun : ((system small).run (checkStep small fun _ _ => true) lockedTwice
      ⟨smallWorld true [("in/a.t", ⟨1, 7, 3, 0⟩)], none⟩).any
      (fun m => actions "t0".toList m.state =
        [.fileAttemptStarted, .recoveryRequired, .recoveryRequired]) = true := by decide +kernel
  obtain ⟨m, hm, hactions⟩ := (Option.any_eq_true _ _).mp hrun
  refine ⟨m, hm, run_checked (fun _ _ _ => trivial) (smallWorld_start _ _) hm, fun h => ?_⟩
  have honce := h.recovery_once
  rw [of_decide_eq_true hactions] at honce
  exact absurd honce (by decide)

/-- `NoRelock`, for concrete runs. -/
def locksOnce (id : Text) (w t : World) : Bool :=
  !(w.log.any fun | .retried k => k = id | _ => false) ||
    (t.store.attempt[id]?).all fun b => b.phase ≠ .recoveryRequired ||
      (w.store.attempt[id]?).all (·.phase = .recoveryRequired)

theorem locksOnce_noRelock {w t : World} (h : locksOnce id w t = true) : NoRelock id w t := by
  intro a b hretried ha hb hlocked
  have hlog : (w.log.any fun | .retried k => k = id | _ => false) = true :=
    List.any_eq_true.mpr ⟨_, hretried, by simp⟩
  simpa [locksOnce, hlog, ha, hb, hlocked] using h

/-- The file that could not be read once is moved by the next run. -/
def lockedOnce : List (Event Cmd Choice Env) :=
  lockedTwice.take 11 ++ commandEvents .runOnce [] 40 (List.replicate 26 false)

theorem audit_trail_locked_once : ∃ m,
    (system small).run (checkStep small (locksOnce "t0".toList)) lockedOnce
      ⟨smallWorld true [("in/a.t", ⟨1, 7, 3, 0⟩)], none⟩ = some m ∧
    actions "t0".toList m.state =
      [.fileAttemptStarted, .recoveryRequired, .fileAttemptFinished] ∧
    Trail "t0".toList m.state := by
  have hrun : ((system small).run (checkStep small (locksOnce "t0".toList)) lockedOnce
      ⟨smallWorld true [("in/a.t", ⟨1, 7, 3, 0⟩)], none⟩).any
      (fun m => actions "t0".toList m.state =
        [.fileAttemptStarted, .recoveryRequired, .fileAttemptFinished]) = true := by decide +kernel
  obtain ⟨m, hm, hactions⟩ := (Option.any_eq_true _ _).mp hrun
  exact ⟨m, hm, of_decide_eq_true hactions, audit_trail
    (run_checked (fun _ _ => locksOnce_noRelock) (smallWorld_start _ _) hm)⟩

end AuditTrail
