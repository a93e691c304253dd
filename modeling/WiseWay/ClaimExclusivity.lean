import WiseWay.AuditTrail

/-! # Claim exclusivity

Acceptance, the worker, the scanner and the quarantine return all write the queue. The
first three respect a claim; the return does not look for one. -/
namespace ClaimExclusivity

open Records Services AtomicProgram Calls Intake AttemptTransactions ReturnTransactions
open SortingSystem Effects Changes LockContract ReturnContract

variable {v : Service}

def Working (s : Store) (itemId id : Text) : Prop :=
  ∃ a, s.attempt[id]? = some a ∧ a.item.itemId = itemId ∧ a.phase ≠ .done

/-- What a claim promises about its item, and what its absence does. -/
structure Exclusive (s : Store) (itemId : Text) : Prop where
  claimed : (∃ c, s.claim[itemId]? = some c) ↔ ∃! id, Working s itemId id
  named : ∀ c, s.claim[itemId]? = some c → Working s itemId c.attemptId
  held : ∀ c, s.claim[itemId]? = some c → ∃ q, s.queue[itemId]? = some q ∧
    q.activeAttemptId = some c.attemptId ∧
    (q.status = .processing ∨ q.status = .recoveryRequired) ∧ q.selectable = false
  free : s.claim[itemId]? = none → ∀ q, s.queue[itemId]? = some q → q.activeAttemptId = none

/-- No return completes for an item that is claimed. -/
def ReturnsUnclaimed (w t : World) : Prop :=
  ∀ (id : Text) o o' card, w.store.returns[id]? = some o → o.phase ≠ .done →
    t.store.returns[id]? = some o' → o'.phase = .done →
    w.store.quarantine[o.quarantineId]? = some card → w.store.claim[card.itemId]? = none

def heldBy (id : Text) (q : QueueItem) : Prop :=
  q.activeAttemptId = some id ∧ (q.status = .processing ∨ q.status = .recoveryRequired) ∧
    q.selectable = false

/-- The claims and the working attempts name each other. -/
structure Owned (s : Store) : Prop where
  named : ∀ (k : Text) c, s.claim[k]? = some c → Working s k c.attemptId
  covered : ∀ (k id : Text), Working s k id → ∃ c, s.claim[k]? = some c ∧ c.attemptId = id

structure Marked (s : Store) : Prop where
  held : ∀ (k : Text) c, s.claim[k]? = some c → ∃ q, s.queue[k]? = some q ∧ heldBy c.attemptId q
  free : ∀ (k : Text) q, s.claim[k]? = none → s.queue[k]? = some q → q.activeAttemptId = none

theorem exclusive_of_marked {s : Store} (h : Owned s) (hm : Marked s) (k : Text) :
    Exclusive s k := by
  refine ⟨⟨?_, ?_⟩, h.named k, fun c hc => ?_, fun hnone q hq => hm.free k q hnone hq⟩
  · rintro ⟨c, hc⟩
    refine ⟨c.attemptId, h.named k c hc, fun id hid => ?_⟩
    obtain ⟨c', hc', rfl⟩ := h.covered k id hid
    rw [Option.some.inj (hc'.symm.trans hc)]
  · rintro ⟨id, hid, _⟩
    obtain ⟨c, hc, _⟩ := h.covered k id hid
    exact ⟨c, hc⟩
  · obtain ⟨q, hq, hheld⟩ := hm.held k c hc
    exact ⟨q, hq, hheld⟩

/-! Who works on an item. -/

theorem Owned.unique {s : Store} (h : Owned s) {k i j : Text} (hi : Working s k i)
    (hj : Working s k j) : i = j := by
  obtain ⟨c, hc, rfl⟩ := h.covered k i hi
  obtain ⟨d, hd, rfl⟩ := h.covered k j hj
  rw [Option.some.inj (hc.symm.trans hd)]

theorem working_put {s t : Store} {id : Text} {a b : Attempt} (ha : s.attempt[id]? = some a)
    (hd : a.phase ≠ .done) (hput : t.attempt = s.attempt.insert id b) (hitem : b.item = a.item)
    (hb : b.phase ≠ .done) (k j : Text) : Working t k j ↔ Working s k j := by
  unfold Working
  rw [hput]
  by_cases hj : id = j
  · subst hj
    simp [ha, hitem, hd, hb]
  · simp [hj]

theorem Owned.keep {s t : Store} (h : Owned s) (hwork : ∀ k j, Working t k j ↔ Working s k j)
    (hclaim : t.claim = s.claim) : Owned t := by
  refine ⟨fun k c hc => ?_, fun k id hid => ?_⟩
  · rw [hclaim] at hc
    exact (hwork k _).mpr (h.named k c hc)
  · rw [hclaim]
    exact h.covered k id ((hwork k id).mp hid)

theorem working_finished {id : Text} {a : Attempt} {item : QueueItem}
    {current : Option Fingerprint} {state : OutcomeState} {reason : Option Reason}
    {actual : Option Location} {now : Time} {s : Store} (k j : Text) :
    Working (finishedStore id a item current state reason actual now s) k j ↔
      j ≠ id ∧ Working s k j := by
  have hdone := (finishedAttempt_frame a state reason actual now).2.2.1
  unfold Working
  by_cases hj : id = j
  · subst hj
    simp [finishedStore]
  · simp [finishedStore, hj, Ne.symm hj]

theorem owned_finished {s : Store} {id : Text} {a : Attempt} {item : QueueItem}
    {current : Option Fingerprint} {state : OutcomeState} {reason : Option Reason}
    {actual : Option Location} {now : Time} (h : Owned s) (ha : s.attempt[id]? = some a)
    (hd : a.phase ≠ .done) (hitem : item.itemId = a.item.itemId) :
    Owned (finishedStore id a item current state reason actual now s) := by
  refine ⟨fun k c hc => ?_, fun k j hj => ?_⟩
  · simp only [finishedStore, get_delete] at hc
    split at hc
    · cases hc
    · rename_i hk
      have hnamed := h.named k c hc
      refine (working_finished k _).mpr ⟨?_, hnamed⟩
      rintro rfl
      obtain ⟨b, hb, hbk, _⟩ := hnamed
      obtain rfl : a = b := Option.some.inj (ha.symm.trans hb)
      exact hk (hitem.trans hbk)
  · obtain ⟨hne, hj⟩ := (working_finished k j).mp hj
    obtain ⟨c, hc, rfl⟩ := h.covered k j hj
    refine ⟨c, ?_, rfl⟩
    simp only [finishedStore, get_delete]
    rw [if_neg]
    · exact hc
    · rintro rfl
      exact hne (h.unique hj (hitem ▸ ⟨a, ha, rfl, hd⟩))

theorem owned_effect {layout : Layout} {w t : World} (hw : Coherent w) (h : Owned w.store)
    (he : Effect layout w t) : Owned t.store := by
  cases he with
  | requeued ha hphase => exact h.keep (working_put ha (by simp [hphase]) rfl rfl nofun) rfl
  | rearmed ha hphase =>
    exact h.keep (working_put ha (by rcases hphase with h | h <;> simp [h]) rfl rfl nofun) rfl
  | intended ha hphase =>
    exact h.keep (working_put ha (by simp [hphase]) rfl (by simp) (by simp)) rfl
  | quarantineIntended ha hphase =>
    exact h.keep (working_put ha (by simp [hphase]) rfl rfl (by simp [hphase])) rfl
  | finished ha hd hitem _ => exact owned_finished h ha hd (hw.queue_key _ _ hitem)
  | @locked id a item actual now ha hd =>
    obtain ⟨_, hitem, _, _⟩ := lockedAttempt_frame a actual now
    exact h.keep (working_put ha hd rfl hitem (by simp)) rfl
  | _ => exact h.keep (fun _ _ => .rfl) rfl

theorem owned_change {w t : World} (h : Owned w.store) (hc : Change v w t) : Owned t.store := by
  cases hc <;> exact h.keep (fun _ _ => .rfl) rfl

theorem working_accepted {s t : Store} {a : Acceptance} {id : Text} {saved : QueueItem}
    {row : PlanRow} {occupied : Bool} (hfree : s.attempt[id]? = none)
    (hput : t.attempt = s.attempt.insert id (acceptedAttempt a id occupied saved row))
    (k j : Text) :
    Working t k j ↔ (occupied = false ∧ j = id ∧ k = saved.itemId) ∨ Working s k j := by
  unfold Working
  rw [hput]
  by_cases hj : id = j
  · subst hj
    cases occupied <;> simp [acceptedAttempt, hfree, eq_comm]
  · simp [hj, Ne.symm hj]

theorem owned_accepting {w t : World} (h : Owned w.store) (ha : Accepting w t) :
    Owned t.store := by
  cases ha with
  | opened => exact h.keep (fun _ _ => .rfl) rfl
  | launched => exact h.keep (fun _ _ => .rfl) rfl
  | skipped hfree =>
    exact h.keep (fun k j => (working_accepted hfree rfl k j).trans (by simp)) rfl
  | @claimed a saved row item id hfree hclaim _ _ =>
    refine ⟨fun k c hc => ?_, fun k j hj => ?_⟩
    · simp only [get_put] at hc
      split at hc
      · rename_i hk
        cases hc
        exact (working_accepted hfree rfl k _).mpr (.inl ⟨rfl, rfl, hk.symm⟩)
      · exact (working_accepted hfree rfl k _).mpr (.inr (h.named k c hc))
    · simp only [get_put]
      rcases (working_accepted hfree rfl k j).mp hj with ⟨_, rfl, rfl⟩ | hj
      · exact ⟨_, if_pos rfl, rfl⟩
      · rw [if_neg]
        · exact h.covered k j hj
        · rintro rfl
          obtain ⟨c, hc, _⟩ := h.covered _ j hj
          cases hclaim.symm.trans hc

theorem run_owned {P : World → World → Prop} {m : Machine World Cmd Op Val Exn Reply}
    (h : Run v P m) : Owned m.state.store := by
  refine invariant (J := fun w => Owned w.store) ?_ (fun _ _ hw hj _ he => owned_effect hw hj he)
    (fun _ _ _ hj _ hc => owned_change hj hc) (fun _ _ _ hj ha => owned_accepting hj ha) h
  intro w hw
  constructor <;> simp [hw.claim, Working, hw.attempt]

/-! What the queue says about it. -/

theorem Marked.keep {s t : Store} (h : Marked s) (hclaim : t.claim = s.claim)
    (hqueue : ∀ (k : Text) q, s.queue[k]? = some q → ∃ q', t.queue[k]? = some q' ∧
      (∀ id, heldBy id q → heldBy id q'))
    (hback : ∀ (k : Text) q', t.queue[k]? = some q' → q'.activeAttemptId = none ∨
      ∃ q, s.queue[k]? = some q ∧ q'.activeAttemptId = q.activeAttemptId) : Marked t := by
  refine ⟨fun k c hc => ?_, fun k q hnone hq => ?_⟩
  · rw [hclaim] at hc
    obtain ⟨q, hq, hheld⟩ := h.held k c hc
    obtain ⟨q', hq', hkeep⟩ := hqueue k q hq
    exact ⟨q', hq', hkeep _ hheld⟩
  · rw [hclaim] at hnone
    rcases hback k q hq with hfree | ⟨b, hb, hsame⟩
    · exact hfree
    · rw [hsame]
      exact h.free k b hnone hb

theorem Marked.same {s t : Store} (h : Marked s) (hclaim : t.claim = s.claim)
    (hqueue : t.queue = s.queue) : Marked t :=
  h.keep hclaim (fun _ q hq => ⟨q, hqueue ▸ hq, fun _ h => h⟩)
    fun _ q hq => .inr ⟨q, hqueue ▸ hq, rfl⟩

theorem marked_finished {s : Store} {id : Text} {a : Attempt} {item : QueueItem}
    {current : Option Fingerprint} {state : OutcomeState} {reason : Option Reason}
    {actual : Option Location} {now : Time} (h : Marked s) :
    Marked (finishedStore id a item current state reason actual now s) := by
  have hkey := finishedItem_ids state reason current now item
  refine ⟨fun k c hc => ?_, fun k q hnone hq => ?_⟩
  · simp only [finishedStore, get_delete, get_put] at hc ⊢
    split at hc
    · cases hc
    · rename_i hk
      simp only [if_neg hk]
      exact h.held k c hc
  · simp only [finishedStore, get_delete, get_put] at hnone hq
    split at hq
    · cases hq
      exact hkey.2.2
    · rename_i hk
      rw [if_neg hk] at hnone
      exact h.free k q hnone hq

theorem marked_locked {s : Store} {id : Text} {a : Attempt} {item : QueueItem}
    {actual : Option Location} {now : Time} (h : Marked s)
    (hrow : s.queue[item.itemId]? = some item) : Marked (lockedStore id a item actual now s) := by
  refine h.keep rfl (fun k q hq => ?_) fun k q hq => ?_
  · simp only [lockedStore, get_put]
    by_cases hk : item.itemId = k
    · subst hk
      obtain rfl : item = q := Option.some.inj (hrow.symm.trans hq)
      rw [if_pos rfl]
      exact ⟨_, rfl, fun _ hheld => ⟨hheld.1, .inr rfl, rfl⟩⟩
    · rw [if_neg hk]
      exact ⟨q, hq, fun _ h => h⟩
  · simp only [lockedStore, get_put] at hq
    split at hq
    · rename_i hk
      cases hq
      exact .inr ⟨item, hk ▸ hrow, rfl⟩
    · exact .inr ⟨q, hq, rfl⟩

theorem marked_returned {s : Store} {o : ReturnOperation} {card : QuarantineCard}
    {item : QueueItem} {now : Time} (h : Marked s) (hitem : item.itemId = card.itemId)
    (hfree : s.claim[card.itemId]? = none) : Marked (returnedStore o card item now s) := by
  refine ⟨fun k c hc => ?_, fun k q hnone hq => ?_⟩
  · have hk : item.itemId ≠ k := by
      rintro rfl
      rw [hitem] at hc
      cases hfree.symm.trans hc
    simp only [returnedStore, get_put, if_neg hk]
    exact h.held k c hc
  · simp only [returnedStore, get_put] at hq
    split at hq
    · cases hq
      rfl
    · exact h.free k q hnone hq

theorem marked_effect {layout : Layout} {w t : World} (hw : Coherent w) (h : Marked w.store)
    (hP : ReturnsUnclaimed w t) (he : Effect layout w t) : Marked t.store := by
  cases he with
  | finished => exact marked_finished h
  | locked ha hd _ hitem => exact marked_locked h (row_under_key hw.queue_key hitem)
  | @returned id o card item now ho hp _ hcard hitem =>
    have hkey : o.operationId = id := hw.returns_key id o ho
    have hd : o.phase ≠ .done := by
      intro hd
      simp [pendingReturn, hd] at hp
    have hdone : (returnedStore o card item now w.store).returns[id]? = some { o with
        phase := .done
        result := some (returnResult o (returnedItem card o now item)) } := by
      simp [returnedStore, hkey]
    exact marked_returned h (hw.queue_key _ _ hitem) (hP id o _ card ho hd hdone rfl hcard)
  | _ => exact h.same rfl rfl

theorem rescan_held {p : Pass} {k id : Text} {q : QueueItem} {after : Option QueueItem}
    (h : Rescan v p k (some q) after) (hheld : heldBy id q) : after = some q := by
  have hlocked : locked q = true := by
    rcases hheld.2.1 with hs | hs <;> simp [locked, hs]
  cases h with
  | kept => rfl
  | same hfree => cases hlocked.symm.trans hfree
  | changed hfree => cases hlocked.symm.trans hfree
  | missing _ hp hr => exact absurd hheld.2.1 (not_or.mpr ⟨hp, hr⟩)

theorem rescan_active {p : Pass} {k : Text} {before after : Option QueueItem} {q : QueueItem}
    (h : Rescan v p k before after) (hq : after = some q) : q.activeAttemptId = none ∨
      ∃ b, before = some b ∧ q.activeAttemptId = b.activeAttemptId := by
  cases h with
  | kept => exact .inr ⟨q, hq, rfl⟩
  | same =>
    cases hq
    refine .inr ⟨_, rfl, ?_⟩
    simp only [Pass.sameItem]
    split
    · rfl
    · split <;> rfl
  | changed => cases hq; exact .inr ⟨_, rfl, rfl⟩
  | missing =>
    cases hq
    refine .inr ⟨_, rfl, ?_⟩
    unfold missingItem
    split <;> rfl
  | found => cases hq; exact .inl rfl

theorem marked_change {w t : World} (h : Marked w.store) (hc : Change v w t) :
    Marked t.store := by
  cases hc with
  | @scanned p queue hrows =>
    refine ⟨fun k c hc => ?_, fun k q hnone hq => ?_⟩
    · obtain ⟨q, hq, hheld⟩ := h.held k c hc
      have hrow := hrows k
      rw [hq] at hrow
      exact ⟨q, rescan_held hrow hheld, hheld⟩
    · rcases rescan_active (hrows k) hq with hfree | ⟨b, hb, hsame⟩
      · exact hfree
      · rw [hsame]
        exact h.free k b hnone hb
  | _ => exact h.same rfl rfl

theorem marked_accepting {w t : World} (hw : Coherent w) (h : Marked w.store)
    (ha : Accepting w t) : Marked t.store := by
  cases ha with
  | @claimed a saved row item id hfree hclaim hitem _ =>
    have hkey : item.itemId = saved.itemId := hw.queue_key _ _ hitem
    refine ⟨fun k c hc => ?_, fun k q hnone hq => ?_⟩
    · simp only [get_put] at hc ⊢
      rw [hkey]
      split at hc
      · rename_i hk
        cases hc
        rw [if_pos hk]
        exact ⟨_, rfl, rfl, .inl rfl, rfl⟩
      · rename_i hk
        rw [if_neg hk]
        exact h.held k c hc
    · simp only [get_put] at hnone hq
      rw [hkey] at hq
      split at hnone
      · cases hnone
      · rename_i hk
        rw [if_neg hk] at hq
        exact h.free k q hnone hq
  | _ => exact h.same rfl rfl

theorem run_marked {m : Machine World Cmd Op Val Exn Reply} (h : Run v ReturnsUnclaimed m) :
    Marked m.state.store := by
  refine invariant (J := fun w => Marked w.store) ?_ (fun _ _ => marked_effect)
    (fun _ _ _ hj _ hc => marked_change hj hc) (fun _ _ => marked_accepting) h
  intro w hw
  constructor <;> simp [hw.claim, hw.queue]

/-- The claims are exclusive in every run in which no return completes for a claimed item. -/
theorem claim_exclusivity {m : Machine World Cmd Op Val Exn Reply}
    (h : Run v ReturnsUnclaimed m) (itemId : Text) : Exclusive m.state.store itemId :=
  exclusive_of_marked (run_owned h) (run_marked h) itemId

/-- A second file takes the path and the identifier of the first, is accepted and disappears;
then the first one is returned. -/
def returnedUnderClaim : List (Event Cmd Choice Env) :=
  quarantinedFirst ++
  [.other (.files (smallTree [("in/a.t", ⟨1, 8, 5, 9⟩), ("qr/C/t0_a.t", ⟨1, 7, 3, 0⟩)])),
    .other (.scan "in".toList 40 [⟨"a.t".toList, ⟨1, 8, 5, 9⟩, "queue-2".toList⟩]),
    .other (.scan "in".toList 60 [⟨"a.t".toList, ⟨1, 8, 5, 9⟩, "queue-2".toList⟩])] ++
  acceptEvents "s2".toList ['c'] ['x'] 60 [("queue-in-1-7".toList, 2)] ++
  [.other (.files (smallTree [("qr/C/t0_a.t", ⟨1, 7, 3, 0⟩)]))] ++
  commandEvents firstReturn ['r'] 70 (List.replicate 18 false)

theorem returned_under_claim : ∃ m,
    (system small).run (checkStep small fun _ _ => true) returnedUnderClaim
      ⟨smallWorld true [("in/a.t", ⟨1, 7, 3, 0⟩)], none⟩ = some m ∧
    Run small anyStep m ∧ ¬Exclusive m.state.store "queue-in-1-7".toList := by
  have hrun : ((system small).run (checkStep small fun _ _ => true) returnedUnderClaim
      ⟨smallWorld true [("in/a.t", ⟨1, 7, 3, 0⟩)], none⟩).any
      (fun m => (m.state.store.claim["queue-in-1-7".toList]?).isSome ∧
        (m.state.store.queue["queue-in-1-7".toList]?).all (·.activeAttemptId = none)) = true := by
    decide +kernel
  obtain ⟨m, hm, hrow⟩ := (Option.any_eq_true _ _).mp hrun
  obtain ⟨hclaim, hqueue⟩ := of_decide_eq_true hrow
  refine ⟨m, hm, run_checked (fun _ _ _ => trivial) (smallWorld_start _ _) hm, fun h => ?_⟩
  obtain ⟨c, hc⟩ := Option.isSome_iff_exists.mp hclaim
  obtain ⟨q, hq, hactive, _⟩ := h.held c hc
  rw [hq] at hqueue
  simp [hactive] at hqueue

/-- `ReturnsUnclaimed`, for concrete runs. -/
def returnsUnclaimed (w t : World) : Bool :=
  w.store.returns.toList.all fun (id, o) =>
    o.phase = .done || (t.store.returns[id]?).all fun o' => o'.phase ≠ .done ||
      (w.store.quarantine[o.quarantineId]?).all fun card =>
        (w.store.claim[card.itemId]?).isNone

theorem returnsUnclaimed_sound {w t : World} (h : returnsUnclaimed w t = true) :
    ReturnsUnclaimed w t := by
  intro id o o' card ho hd ho' hd' hcard
  have hmem : (id, o) ∈ w.store.returns.toList :=
    Std.ExtTreeMap.mem_toList_iff_getElem?_eq_some.mpr ho
  simpa [hd, ho', hd', hcard] using List.all_eq_true.mp h _ hmem

theorem claim_exclusivity_returned : ∃ m,
    (system small).run (checkStep small returnsUnclaimed)
      (quarantinedFirst ++ commandEvents firstReturn ['r'] 70 (List.replicate 18 false))
      ⟨smallWorld true [("in/a.t", ⟨1, 7, 3, 0⟩)], none⟩ = some m ∧
    Exclusive m.state.store "queue-in-1-7".toList := by
  have hrun : ((system small).run (checkStep small returnsUnclaimed)
      (quarantinedFirst ++ commandEvents firstReturn ['r'] 70 (List.replicate 18 false))
      ⟨smallWorld true [("in/a.t", ⟨1, 7, 3, 0⟩)], none⟩).isSome = true := by decide +kernel
  obtain ⟨m, hm⟩ := Option.isSome_iff_exists.mp hrun
  exact ⟨m, hm, claim_exclusivity
    (run_checked (fun _ _ => returnsUnclaimed_sound) (smallWorld_start _ _) hm) _⟩

end ClaimExclusivity
