import WiseWay.SortingSystem

/-! # What one step can do

`permit` is what the programs guarantee at each of their calls. Under it a call has one
of a few effects, and a step of the others is one of a few changes: every invariant of
the system is proved over these two lists. -/
namespace Effects

open Records Services Calls AttemptTransactions ReturnTransactions SortingSystem

section Permits

variable (layout : Layout) (w : World)

def ownerKnown : Owner → Prop
  | .attempt id => ∃ a, w.store.attempt[id]? = some a
  | .returnOp id => ∃ o, w.store.returns[id]? = some o

/-- The recorded place and identity of the file an owner is to move. -/
def recordedSource (path : Text) (expected : Fingerprint) : Owner → Prop
  | .attempt id => ∃ a, w.store.attempt[id]? = some a ∧ a.item.fingerprint = expected ∧
      Services.physical layout a.item.source = .ok path
  | .returnOp id => ∃ o, w.store.returns[id]? = some o ∧ o.fingerprint = expected ∧
      Services.physical layout o.source = .ok path

/-- The durable intent behind a rename. -/
def intended (source target : Text) : Owner → Prop
  | .attempt id => ∃ a i, w.store.attempt[id]? = some a ∧ a.phase = .intent ∧
      a.intent = some i ∧ Services.physical layout a.item.source = .ok source ∧
      Services.physical layout i.target = .ok target
  | .returnOp id => ∃ o, w.store.returns[id]? = some o ∧ o.phase = .intent ∧
      Services.physical layout o.source = .ok source ∧
      Services.physical layout o.target = .ok target ∧
      ∀ s t, Trace.issued (.returnOp id) s t ∉ w.log

/-- The last call saw the recorded file at the target, after it was seen to have left the
source or was moved by the attempt itself. -/
def arrived (attemptId : Text) (a : Attempt) (i : Intent) : Prop :=
  ∃ source target tree older,
    Services.physical layout a.item.source = .ok source ∧
    Services.physical layout i.target = .ok target ∧
    w.log = .seen (.attempt attemptId) target tree :: older ∧
    fileAt tree target = some a.item.fingerprint ∧
    ((∃ before rest, older = .seen (.attempt attemptId) source before :: rest ∧
        fileAt before source ≠ some a.item.fingerprint) ∨
      ∃ s t e, Trace.moved (.attempt attemptId) s t e ∈ older)

/-- An attempt ends without a move, or with the one it intended. -/
def concluded (attemptId : Text) (a : Attempt) (state : OutcomeState) (reason : Option Reason)
    (actual : Option Location) : Prop :=
  state = .skipped ∨ state = .requiresDecision ∨
    ∃ i, a.intent = some i ∧ state = i.state.outcome ∧ reason = i.reason ∧
      actual = some i.target ∧ arrived layout w attemptId a i

/-- The last two calls found nothing at the quarantine path and the file at the original. -/
def returnedHome (o : ReturnOperation) : Prop :=
  ∃ source target tree before older,
    Services.physical layout o.source = .ok source ∧
    Services.physical layout o.target = .ok target ∧
    w.log = .seen (.returnOp o.operationId) target tree ::
      .seen (.returnOp o.operationId) source before :: older ∧
    fileAt tree target = some o.fingerprint ∧ fileAt before source = none

def permit : Op → Prop
  | .requeue id => ∃ a, w.store.attempt[id]? = some a ∧ a.phase = .recoveryRequired ∧
      a.intent = none
  | .rearm id => ∃ a i, w.store.attempt[id]? = some a ∧
      (a.phase = .intent ∨ a.phase = .recoveryRequired) ∧ a.intent = some i
  | .intent id _ => ∃ a, w.store.attempt[id]? = some a ∧ a.phase = .queued
  | .quarantineIntent id target => ∃ a i source tree older, w.store.attempt[id]? = some a ∧
      a.phase = .intent ∧ a.intent = some i ∧ quarantineTarget layout a = .ok target ∧
      Services.physical layout a.item.source = .ok source ∧
      w.log = .seen (.attempt id) source tree :: older ∧
      fileAt tree source = some a.item.fingerprint
  | .finish id state reason actual => ∃ a, w.store.attempt[id]? = some a ∧
      concluded layout w id a state reason actual
  | .stat owner _ => ownerKnown w owner
  | .verifySource owner path expected => recordedSource layout w path expected owner
  | .renameExclusive owner source target => intended layout w source target owner ∧
      ∃ older, w.log = .checked owner :: older
  | .rejectReturn o => w.store.returns[o.operationId]? = some o ∧ o.phase = .intent ∧
      ∀ s t e, Trace.moved (.returnOp o.operationId) s t e ∉ w.log
  | .lockReturn id => ∃ o, w.store.returns[id]? = some o ∧ pendingReturn o.phase
  | .finishReturn id => ∃ o, w.store.returns[id]? = some o ∧ pendingReturn o.phase ∧
      returnedHome layout w o
  | _ => True

end Permits

/-- Everything a permitted call can do to the world. -/
inductive Effect (layout : Layout) (w : World) : World → Prop where
  | same : Effect layout w w
  | seen {owner path} : ownerKnown w owner →
      Effect layout w { w with log := .seen owner path w.tree :: w.log }
  | checked {owner path expected} : recordedSource layout w path expected owner →
      fileAt w.tree path = some expected →
      Effect layout w { w with log := .checked owner :: w.log }
  | issued {owner source target older} : intended layout w source target owner →
      w.log = .checked owner :: older →
      Effect layout w { w with log := .issued owner source target :: w.log }
  | moved {owner source target older entry tree} : intended layout w source target owner →
      w.log = .checked owner :: older →
      moveEntry w.tree source target = .ok (entry, tree) →
      Effect layout w { w with
        tree := tree
        log := .moved owner source target entry :: .issued owner source target :: w.log }
  | requeued {id : Text} {a} : w.store.attempt[id]? = some a → a.phase = .recoveryRequired →
      a.intent = none →
      Effect layout w { w with
        store := { w.store with attempt := w.store.attempt.insert id { a with
          phase := .queued
          outcome := { a.outcome with
            state := .pending, reasonCode := none, actualLocation := none, finishedAt := none } } }
        log := .retried id :: w.log }
  | rearmed {id : Text} {a i} : w.store.attempt[id]? = some a →
      (a.phase = .intent ∨ a.phase = .recoveryRequired) → a.intent = some i →
      Effect layout w { w with
        store := { w.store with attempt := w.store.attempt.insert id { a with phase := .intent } }
        log := if a.phase = .recoveryRequired then .retried id :: w.log else w.log }
  | intended {id : Text} {a planned now} : w.store.attempt[id]? = some a → a.phase = .queued →
      Effect layout w { w with store := { w.store with
        attempt := w.store.attempt.insert id (intendedAttempt a planned now).1
        audit := w.store.audit ++ (intendedAttempt a planned now).2 } }
  | quarantineIntended {id : Text} {a i target source tree older} : w.store.attempt[id]? = some a →
      a.phase = .intent → a.intent = some i → quarantineTarget layout a = .ok target →
      Services.physical layout a.item.source = .ok source →
      w.log = .seen (.attempt id) source tree :: older →
      fileAt tree source = some a.item.fingerprint →
      Effect layout w { w with store := { w.store with
        attempt := w.store.attempt.insert id { a with
          intent := some ⟨target, .quarantined, some .technicalError⟩ } } }
  | finished {id : Text} {a item current state reason actual now} : w.store.attempt[id]? = some a →
      a.phase ≠ .done → w.store.queue[a.item.itemId]? = some item →
      concluded layout w id a state reason actual →
      Effect layout w { w with
        store := finishedStore id a item current state reason actual now w.store }
  | locked {id : Text} {a item actual now} : w.store.attempt[id]? = some a → a.phase ≠ .done →
      a.phase ≠ .recoveryRequired → w.store.queue[a.item.itemId]? = some item →
      Effect layout w { w with store := lockedStore id a item actual now w.store }
  | began {id : Text} {request card expected} : w.store.returnKey[request.key]? = none →
      w.store.quarantine[request.quarantineId]? = some card →
      admitReturn layout w.tree request card = .ok expected → w.store.returns[id]? = none →
      Effect layout w { w with
        store := { w.store with
          returns := w.store.returns.insert id (newOperation id request card expected)
          returnKey := w.store.returnKey.insert request.key ⟨request.body, id⟩
          quarantine := w.store.quarantine.insert card.quarantineId { card with
            canReturn := false, recoveryOperationId := some id } }
        log := .began id card :: w.log }
  | rejected {o : ReturnOperation} {card : QuarantineCard} :
      w.store.returns[o.operationId]? = some o → o.phase = .intent →
      (∀ s t e, Trace.moved (.returnOp o.operationId) s t e ∉ w.log) →
      w.store.quarantine[o.quarantineId]? = some card →
      Effect layout w { w with store := { w.store with
        quarantine := w.store.quarantine.insert card.quarantineId { card with
          canReturn := true, recoveryOperationId := none }
        returns := w.store.returns.insert o.operationId { o with
          phase := .rejected, error := some .originalPathOccupied } } }
  | returnLocked {id : Text} {now} {o : ReturnOperation} {card : QuarantineCard} :
      w.store.returns[id]? = some o → o.phase = .intent →
      w.store.quarantine[o.quarantineId]? = some card →
      Effect layout w { w with store := { w.store with
        returns := w.store.returns.insert o.operationId { o with phase := .recoveryRequired }
        quarantine := w.store.quarantine.insert card.quarantineId { card with
          revision := card.revision + 1 }
        audit := w.store.audit ++ [returnRecoveryEvent o card now] } }
  | returned {id : Text} {o card item now} : w.store.returns[id]? = some o → pendingReturn o.phase →
      returnedHome layout w o → w.store.quarantine[o.quarantineId]? = some card →
      w.store.queue[card.itemId]? = some item →
      Effect layout w { w with store := returnedStore o card item now w.store }

theorem commit_eq_ok {w : World} {r : Except Exn Store} {v : Unit} {u : World}
    (h : commit w r = .ok (v, u)) : ∃ s, r = .ok s ∧ u = { w with store := s } := by
  obtain ⟨s, hs, hu⟩ := bind_eq_ok.mp h
  cases hu
  exact ⟨s, hs, rfl⟩

theorem verifiedSource_ok {tree : FileTree} {path : Text} {expected : Fingerprint}
    (h : verifiedSource tree path expected = .ok ()) : fileAt tree path = some expected := by
  unfold verifiedSource at h
  split at h
  · cases h
  · rename_i observed hobserved
    split at h
    · rename_i heq
      exact fileAt_eq_some.mpr (heq ▸ hobserved)
    · cases h
  · cases h

theorem moveEntry_ok {tree next : FileTree} {source target : Text} {entry : Entry}
    (h : moveEntry tree source target = .ok (entry, next)) :
    tree source = some entry ∧ tree target = none ∧ source ≠ target ∧
      next = Function.update (Function.update tree source none) target (some entry) := by
  unfold moveEntry at h
  split at h
  · cases h
  · cases h
  · rename_i hs ht
    cases h
    refine ⟨hs, ht, ?_, rfl⟩
    rintro rfl
    rw [hs] at ht
    cases ht

theorem answer_effect {layout : Layout} {x : Choice} {w u : World} {o : Op} {v : Val o}
    (hp : permit layout w o) (ho : ∀ owner s t, o ≠ .renameExclusive owner s t)
    (h : answer layout x w o = .ok (v, u)) : Effect layout w u := by
  cases o with
  | pendingAttempts => cases h; exact .same
  | getAttempt id => cases h; exact .same
  | requireAttempt id => obtain ⟨_, _, hu⟩ := bind_eq_ok.mp h; cases hu; exact .same
  | physical loc => obtain ⟨_, _, hu⟩ := bind_eq_ok.mp h; cases hu; exact .same
  | manualTarget a => obtain ⟨_, _, hu⟩ := bind_eq_ok.mp h; cases hu; exact .same
  | quarantineTarget a => obtain ⟨_, _, hu⟩ := bind_eq_ok.mp h; cases hu; exact .same
  | requeue id =>
    obtain ⟨⟨⟨⟩, u₁⟩, hu₁, hu⟩ := bind_eq_ok.mp h
    obtain ⟨s, hs, rfl⟩ := commit_eq_ok hu₁
    obtain ⟨a, ha, rfl⟩ := requeue_cases hs
    cases hu
    obtain ⟨a', ha', hphase, hintent⟩ := hp
    obtain rfl : a = a' := Option.some.inj (ha.symm.trans ha')
    have hlog : retryLog id w = .retried id :: w.log := by simp [retryLog, ha, hphase]
    rw [hlog]
    exact .requeued ha hphase hintent
  | rearm id =>
    obtain ⟨⟨⟨⟩, u₁⟩, hu₁, hu⟩ := bind_eq_ok.mp h
    obtain ⟨s, hs, rfl⟩ := commit_eq_ok hu₁
    obtain ⟨a, ha, rfl⟩ := rearm_cases hs
    cases hu
    obtain ⟨a', i, ha', hphase, hintent⟩ := hp
    obtain rfl : a = a' := Option.some.inj (ha.symm.trans ha')
    have hlog : retryLog id w =
        if a.phase = .recoveryRequired then .retried id :: w.log else w.log := by
      simp [retryLog, ha]
    rw [hlog]
    exact .rearmed ha hphase hintent
  | intent id planned =>
    obtain ⟨s, hs, rfl⟩ := commit_eq_ok h
    obtain ⟨a, ha, ⟨hq, rfl⟩ | ⟨hq, rfl⟩⟩ := intent_cases hs
    · exact .same
    · exact .intended ha hq
  | quarantineIntent id target =>
    obtain ⟨s, hs, rfl⟩ := commit_eq_ok h
    obtain ⟨a, ha, rfl⟩ := quarantineIntent_cases hs
    obtain ⟨a', i, source, tree, older, ha', hphase, hi, ht, hsource, hlog, hfile⟩ := hp
    obtain rfl : a = a' := Option.some.inj (ha.symm.trans ha')
    exact .quarantineIntended ha hphase hi ht hsource hlog hfile
  | finish id state reason actual =>
    obtain ⟨s, hs, rfl⟩ := commit_eq_ok h
    obtain ⟨a, ha, ⟨_, rfl⟩ | ⟨hd, item, current, hitem, rfl⟩⟩ := finish_cases hs
    · exact .same
    · obtain ⟨a', ha', hend⟩ := hp
      obtain rfl : a = a' := Option.some.inj (ha.symm.trans ha')
      exact .finished ha hd hitem hend
  | recoveryRequired id actual =>
    obtain ⟨⟨b, s⟩, hs, hu⟩ := bind_eq_ok.mp h
    cases hu
    obtain ⟨a, ha, ⟨_, rfl⟩ | ⟨hd, hr, item, hitem, rfl⟩⟩ := recoveryRequired_cases hs
    · exact .same
    · exact .locked ha hd hr hitem
  | stat owner path => obtain ⟨_, _, hu⟩ := bind_eq_ok.mp h; cases hu; exact .seen hp
  | exists_ path => obtain ⟨_, _, hu⟩ := bind_eq_ok.mp h; cases hu; exact .same
  | probe => cases h; exact .same
  | openParent path =>
    obtain ⟨ps, _, hu⟩ := bind_eq_ok.mp h
    split at hu
    · cases hu; exact .same
    · cases hu
  | verifySource owner path expected =>
    obtain ⟨⟨⟩, hsource, hu⟩ := bind_eq_ok.mp h
    cases hu
    exact .checked hp (verifiedSource_ok hsource)
  | renameExclusive owner s t => exact absurd rfl (ho owner s t)
  | verifyTarget path expected =>
    simp only [answer] at h
    split at h
    · cases h; exact .same
    · cases h
  | fsync path => cases h; exact .same
  | beginReturn request =>
    obtain ⟨⟨⟨op, replayed⟩, s⟩, hs, hu⟩ := bind_eq_ok.mp h
    cases hu
    obtain ⟨record, rfl, rfl, _⟩ | ⟨card, expected, rfl, hkey, hcard, hadmit, hfree, rfl, rfl⟩ :=
      beginReturn_cases hs
    · exact .same
    · have hlog : beginLog x.fresh request false w = .began x.fresh card :: w.log := by
        simp [beginLog, hcard]
      rw [hlog]
      exact .began hkey hcard hadmit hfree
  | rejectReturn op =>
    obtain ⟨s, hs, rfl⟩ := commit_eq_ok h
    obtain ⟨card, hcard, rfl⟩ := rejectReturn_cases hs
    exact .rejected hp.1 hp.2.1 hp.2.2 hcard
  | lockReturn id =>
    obtain ⟨s, hs, rfl⟩ := commit_eq_ok h
    obtain ⟨op, hop, ⟨_, rfl⟩ | ⟨hr, card, hcard, rfl⟩⟩ := lockReturn_cases hs
    · exact .same
    · obtain ⟨op', hop', hpending⟩ := hp
      obtain rfl : op = op' := Option.some.inj (hop.symm.trans hop')
      have hintent : op.phase = .intent := by simpa [pendingReturn, hr] using hpending
      exact .returnLocked hop hintent hcard
  | finishReturn id =>
    obtain ⟨⟨result, s⟩, hs, hu⟩ := bind_eq_ok.mp h
    cases hu
    obtain ⟨op, hop, ⟨_, _, rfl⟩ | ⟨hd, card, item, hcard, hitem, _, rfl⟩⟩ := finishReturn_cases hs
    · exact .same
    · obtain ⟨op', hop', hpending, hhome⟩ := hp
      obtain rfl : op = op' := Option.some.inj (hop.symm.trans hop')
      exact .returned hop hpending hhome hcard hitem
  | pendingReturns => cases h; exact .same

theorem exec_effect {layout : Layout} {o : Op} {x : Choice} {w : World}
    (hp : permit layout w o) : Effect layout w (exec layout o x w).2 := by
  rcases exec_cases layout o x w with ⟨e, _, he⟩ | ⟨v, u, ha, he⟩
  · rw [he]
    cases o with
    | renameExclusive owner s t =>
      obtain ⟨hintended, older, hlog⟩ := hp
      exact .issued hintended hlog
    | _ => exact .same
  · rw [he]
    cases o with
    | renameExclusive owner s t =>
      obtain ⟨hintended, older, hlog⟩ := hp
      obtain ⟨⟨entry, tree⟩, hmove, hu⟩ := bind_eq_ok.mp ha
      cases hu
      exact .moved hintended hlog hmove
    | _ => exact answer_effect hp (by simp) ha

end Effects
