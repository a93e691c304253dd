import WiseWay.PlannedBatch
import WiseWay.Reconciliation

/-! # The history of a queue item

A step outside a scan leaves a row of the queue as it is, claims it, or ends the attempt or
the return that concerns it. Revisions date a row: while the revision is the same, so is the
path. -/
namespace ItemHistory

open Records Services AtomicProgram Calls Intake AttemptTransactions ReturnTransactions
open SortingSystem Effects Changes LockContract ReturnContract ClaimExclusivity QueueStates
open Reconciliation PlannedBatch

variable {v : Service} {layout : Layout}

/-- A row that stays as it is, or that an attempt claims. -/
inductive Kept (s t : Store) (k : Text) : Prop where
  | same : t.queue[k]? = s.queue[k]? → Kept s t k
  | claimed {q : QueueItem} {id : Text} : s.queue[k]? = some q →
      t.queue[k]? = some (claimedItem id q) → Kept s t k

theorem Kept.trans {s t u : Store} {k : Text} (h : Kept s t k) (h' : Kept t u k) :
    Kept s u k := by
  cases h with
  | same hst =>
    cases h' with
    | same htu => exact .same (htu.trans hst)
    | claimed hq hu => exact .claimed (hst ▸ hq) hu
  | claimed hq ht =>
    cases h' with
    | same htu => exact .claimed hq (htu.trans ht)
    | claimed hq' hu =>
      obtain rfl := Option.some.inj (ht.symm.trans hq')
      exact .claimed hq hu

theorem kept_accepting {w t : World} (hw : Coherent w) (h : Accepting w t) (k : Text) :
    Kept w.store t.store k := by
  cases h with
  | @claimed a saved row item id hfree hclaim hitem _ =>
    have hkey : item.itemId = saved.itemId := hw.queue_key _ _ hitem
    by_cases hk : item.itemId = k
    · subst hk
      rw [← hkey] at hitem
      refine @Kept.claimed _ _ _ _ id hitem ?_
      simp
    · refine .same ?_
      rw [get_put]
      exact if_neg hk
  | _ => exact .same rfl

theorem kept_accepted {w t : World} (hw : Coherent w) (h : Relation.ReflTransGen Accepting w t)
    (k : Text) : Coherent t ∧ Kept w.store t.store k := by
  induction h with
  | refl => exact ⟨hw, .same rfl⟩
  | tail _ hstep ih =>
    exact ⟨Accepting.keeps_coherent ih.1 hstep, ih.2.trans (kept_accepting ih.1 hstep k)⟩

/-- A transaction of a party without the lock, a scan apart. -/
theorem kept_other {e : Env} {w t : World} (hw : Coherent w)
    (hscan : ∀ rootId now found, e ≠ .scan rootId now found) (h : other v e w = some t)
    (k : Text) : Kept w.store t.store k := by
  cases e with
  | files tree => cases h; exact .same rfl
  | storage rootId mode => cases h; exact .same rfl
  | dictionaries dictionary version events =>
    simp only [other] at h
    split at h
    · cases h
      exact .same rfl
    · cases h
  | select selectionId actor now request =>
    simp only [other] at h
    split at h
    · cases h
    · obtain ⟨s, hs, rfl⟩ := stored_eq_some h
      obtain ⟨created, _, rfl⟩ := selection_frame hs
      exact .same rfl
  | preview previewId actor selectionId now =>
    simp only [other] at h
    split at h
    · cases h
    · obtain ⟨s, hs, rfl⟩ := stored_eq_some h
      obtain ⟨created, rfl⟩ := preview_frame hs
      exact .same rfl
  | accept drawn now actor requestId request =>
    obtain ⟨s, hs, rfl⟩ := stored_eq_some h
    exact (kept_accepted hw (accept_accepting hw.queue_key hs) k).2
  | scan rootId now found => exact absurd rfl (hscan rootId now found)

/-! Calls. -/

/-- `finish_cases` with the file that was looked at. -/
theorem finish_reads {tree : FileTree} {attemptId : Text} {state : OutcomeState}
    {reason : Option Reason} {actual : Option Location} {now : Time} {s t : Store}
    (h : finish layout tree attemptId state reason actual now s = .ok t) :
    t = s ∨ ∃ a item current, s.attempt[attemptId]? = some a ∧ a.phase ≠ .done ∧
      s.queue[a.item.itemId]? = some item ∧ currentSource layout tree a state reason = .ok current ∧
      t = finishedStore attemptId a item current state reason actual now s := by
  obtain ⟨a, ha, ht⟩ := bind_eq_ok.mp h
  by_cases hd : a.phase = .done
  · simp only [hd, if_true] at ht
    cases ht
    exact .inl rfl
  · simp only [hd, if_false] at ht
    obtain ⟨item, hitem, ht⟩ := bind_eq_ok.mp ht
    obtain ⟨current, hcurrent, ht⟩ := bind_eq_ok.mp ht
    cases ht
    exact .inr ⟨a, item, current, require_eq_ok.mp ha, hd, require_eq_ok.mp hitem, hcurrent, rfl⟩

inductive CallRow (layout : Layout) (x : Choice) (o : Op) (w t : World) (k : Text) : Prop where
  | same : t.store.queue[k]? = w.store.queue[k]? → CallRow layout x o w t k
  | finished {id state reason actual} {a : Attempt} {q current} :
      o = .finish id state reason actual → w.store.attempt[id]? = some a → a.phase ≠ .done →
      a.item.itemId = k → w.store.queue[k]? = some q →
      currentSource layout w.tree a state reason = .ok current →
      t.store.queue[k]? = some (finishedItem state reason current x.now q) →
      CallRow layout x o w t k
  | locked {q} : w.store.queue[k]? = some q → t.store.queue[k]? = some { q with
      status := .recoveryRequired, selectable := false, reasonCode := some .recoveryRequired } →
      CallRow layout x o w t k
  | returned {id} {r : ReturnOperation} {card : QuarantineCard} {q} : o = .finishReturn id →
      w.store.returns[id]? = some r → r.phase ≠ .done →
      w.store.quarantine[r.quarantineId]? = some card → card.itemId = k →
      w.store.queue[k]? = some q →
      t.store.queue[k]? = some (returnedItem card r x.now q) →
      t.store = returnedStore r card q x.now w.store → CallRow layout x o w t k

theorem answer_row {x : Choice} {w u : World} {o : Op} {r : Val o} (hw : Coherent w)
    (h : answer layout x w o = .ok (r, u)) (k : Text) : CallRow layout x o w u k := by
  cases o with
  | pendingAttempts => cases h; exact .same rfl
  | getAttempt id => cases h; exact .same rfl
  | requireAttempt id => obtain ⟨_, _, hu⟩ := bind_eq_ok.mp h; cases hu; exact .same rfl
  | physical loc => obtain ⟨_, _, hu⟩ := bind_eq_ok.mp h; cases hu; exact .same rfl
  | manualTarget a => obtain ⟨_, _, hu⟩ := bind_eq_ok.mp h; cases hu; exact .same rfl
  | quarantineTarget a => obtain ⟨_, _, hu⟩ := bind_eq_ok.mp h; cases hu; exact .same rfl
  | requeue id =>
    obtain ⟨⟨⟨⟩, u₁⟩, hu₁, hu⟩ := bind_eq_ok.mp h
    obtain ⟨s, hs, rfl⟩ := commit_eq_ok hu₁
    obtain ⟨a, _, rfl⟩ := requeue_cases hs
    cases hu
    exact .same rfl
  | rearm id =>
    obtain ⟨⟨⟨⟩, u₁⟩, hu₁, hu⟩ := bind_eq_ok.mp h
    obtain ⟨s, hs, rfl⟩ := commit_eq_ok hu₁
    obtain ⟨a, _, rfl⟩ := rearm_cases hs
    cases hu
    exact .same rfl
  | intent id planned =>
    obtain ⟨s, hs, rfl⟩ := commit_eq_ok h
    obtain ⟨a, _, ⟨_, rfl⟩ | ⟨_, rfl⟩⟩ := intent_cases hs
    · exact .same rfl
    · exact .same rfl
  | quarantineIntent id target =>
    obtain ⟨s, hs, rfl⟩ := commit_eq_ok h
    obtain ⟨a, _, rfl⟩ := quarantineIntent_cases hs
    exact .same rfl
  | finish id state reason actual =>
    obtain ⟨s, hs, rfl⟩ := commit_eq_ok h
    rcases finish_reads hs with rfl | ⟨a, item, current, ha, hd, hitem, hcurrent, rfl⟩
    · exact .same rfl
    · have hkey : item.itemId = a.item.itemId := hw.queue_key _ _ hitem
      by_cases hk : a.item.itemId = k
      · subst hk
        refine .finished rfl ha hd rfl hitem hcurrent ?_
        simp only [finishedStore, get_put]
        exact if_pos hkey
      · refine .same ?_
        simp only [finishedStore, get_put]
        exact if_neg (hkey ▸ hk)
  | recoveryRequired id actual =>
    obtain ⟨⟨b, s⟩, hs, hu⟩ := bind_eq_ok.mp h
    cases hu
    obtain ⟨a, ha, ⟨_, rfl⟩ | ⟨_, _, item, hitem, rfl⟩⟩ := recoveryRequired_cases hs
    · exact .same rfl
    · by_cases hk : item.itemId = k
      · subst hk
        refine .locked (row_under_key hw.queue_key hitem) ?_
        simp only [lockedStore, get_put, if_true]
      · refine .same ?_
        simp only [lockedStore, get_put]
        exact if_neg hk
  | stat owner path => obtain ⟨_, _, hu⟩ := bind_eq_ok.mp h; cases hu; exact .same rfl
  | exists_ path => obtain ⟨_, _, hu⟩ := bind_eq_ok.mp h; cases hu; exact .same rfl
  | probe => cases h; exact .same rfl
  | openParent path =>
    obtain ⟨ps, _, hu⟩ := bind_eq_ok.mp h
    split at hu
    · cases hu; exact .same rfl
    · cases hu
  | verifySource owner path expected =>
    obtain ⟨⟨⟩, _, hu⟩ := bind_eq_ok.mp h
    cases hu
    exact .same rfl
  | renameExclusive owner s t =>
    obtain ⟨⟨entry, tree⟩, _, hu⟩ := bind_eq_ok.mp h
    cases hu
    exact .same rfl
  | verifyTarget path expected =>
    simp only [answer] at h
    split at h
    · cases h; exact .same rfl
    · cases h
  | fsync path => cases h; exact .same rfl
  | beginReturn request =>
    obtain ⟨⟨⟨op, replayed⟩, s⟩, hs, hu⟩ := bind_eq_ok.mp h
    cases hu
    obtain ⟨record, _, rfl, _⟩ | ⟨card, expected, _, _, _, _, _, _, rfl⟩ := beginReturn_cases hs
    · exact .same rfl
    · exact .same rfl
  | rejectReturn op =>
    obtain ⟨s, hs, rfl⟩ := commit_eq_ok h
    obtain ⟨card, _, rfl⟩ := rejectReturn_cases hs
    exact .same rfl
  | lockReturn id =>
    obtain ⟨s, hs, rfl⟩ := commit_eq_ok h
    obtain ⟨op, _, ⟨_, rfl⟩ | ⟨_, card, _, rfl⟩⟩ := lockReturn_cases hs
    · exact .same rfl
    · exact .same rfl
  | finishReturn id =>
    obtain ⟨⟨result, s⟩, hs, hu⟩ := bind_eq_ok.mp h
    cases hu
    obtain ⟨op, hop, ⟨_, _, rfl⟩ | ⟨hd, card, item, hcard, hitem, _, rfl⟩⟩ := finishReturn_cases hs
    · exact .same rfl
    · have hkey : item.itemId = card.itemId := hw.queue_key _ _ hitem
      by_cases hk : card.itemId = k
      · subst hk
        refine .returned rfl hop hd hcard rfl hitem ?_ rfl
        simp only [returnedStore, get_put]
        exact if_pos hkey
      · refine .same ?_
        simp only [returnedStore, get_put]
        exact if_neg (hkey ▸ hk)
  | pendingReturns => cases h; exact .same rfl

theorem exec_row {x : Choice} {w : World} {o : Op} (hw : Coherent w) (k : Text) :
    CallRow layout x o w (exec layout o x w).2 k := by
  rcases exec_cases layout o x w with ⟨e, _, he⟩ | ⟨r, u, ha, he⟩
  · rw [he]
    refine .same ?_
    cases o <;> rfl
  · rw [he]
    cases o with
    | renameExclusive owner s t =>
      obtain ⟨⟨entry, tree⟩, _, hu⟩ := bind_eq_ok.mp ha
      cases hu
      exact .same rfl
    | _ => exact answer_row hw ha k

/-- What a step of a run does to one row, if it is not a scan. -/
inductive RowStep (v : Service) (m : Machine World Cmd Op Val Exn Reply)
    (e : Event Cmd Choice Env) (n : Machine World Cmd Op Val Exn Reply) (k : Text) : Prop where
  | kept : Kept m.state.store n.state.store k → RowStep v m e n k
  | call {x : Choice} {c : Cmd} {o : Op} {next : Except Exn (Val o) → Program Reply} :
      e = .call x → m.holder = some (c, .call o next) →
      CallRow v.layout x o m.state n.state k → RowStep v m e n k

theorem row_step {P : World → World → Prop} {m n : Machine World Cmd Op Val Exn Reply}
    {e : Event Cmd Choice Env} (h : Run v P m) (hstep : (system v).step m e = some n)
    (hscan : ∀ rootId now found, e ≠ .other (.scan rootId now found)) (k : Text) :
    RowStep v m e n k := by
  rcases System.step_cases hstep with ⟨_, _, _, rfl⟩ | ⟨x, c, o, next, rfl, hm, rfl⟩ | ⟨_, rfl⟩ |
    ⟨e, t, rfl, ht, rfl⟩
  · exact .kept (.same rfl)
  · exact .call rfl hm (exec_row (run_coherent h) k)
  · exact .kept (.same rfl)
  · refine .kept (kept_other (run_coherent h) ?_ ht k)
    intro rootId now found heq
    exact hscan rootId now found (by rw [heq])

/-! Revisions date the path. -/

/-- A later state of a row: a row with the same revision has the same path. -/
structure Since (q q' : QueueItem) : Prop where
  grows : q.itemRevision ≤ q'.itemRevision
  path : q'.itemRevision = q.itemRevision → q'.source.relativePath = q.source.relativePath

theorem Since.refl (q : QueueItem) : Since q q := ⟨le_rfl, fun _ => rfl⟩

theorem Since.trans {a b c : QueueItem} (h : Since a b) (h' : Since b c) : Since a c := by
  have hab := h.grows
  have hbc := h'.grows
  refine ⟨hab.trans hbc, fun heq => ?_⟩
  have hb : b.itemRevision = a.itemRevision := by omega
  exact (h'.path (by omega)).trans (h.path hb)

theorem Since.of_lt {q q' : QueueItem} (h : q.itemRevision < q'.itemRevision) : Since q q' :=
  ⟨h.le, fun heq => by omega⟩

theorem since_revised {q q' : QueueItem} (h : Revised q q') : Since q q' := by
  refine ⟨h.grows, fun heq => ?_⟩
  by_contra hne
  have := h.moved (.inl hne)
  omega

theorem since_finished (state : OutcomeState) (reason : Option Reason)
    (current : Option Fingerprint) (now : Time) (q : QueueItem) :
    Since q (finishedItem state reason current now q) := by
  unfold finishedItem
  split
  · exact ⟨le_rfl, fun _ => rfl⟩
  · exact ⟨le_rfl, fun _ => rfl⟩
  · split
    · exact ⟨le_rfl, fun _ => rfl⟩
    · exact .of_lt (Nat.lt_succ_self _)
  · exact ⟨le_rfl, fun _ => rfl⟩

theorem kept_since {s t : Store} {k : Text} {q : QueueItem} (h : Kept s t k)
    (hq : s.queue[k]? = some q) : ∃ q', t.queue[k]? = some q' ∧ Since q q' := by
  cases h with
  | same hrow => exact ⟨q, hrow.trans hq, .refl q⟩
  | claimed hq' ht =>
    obtain rfl := Option.some.inj (hq.symm.trans hq')
    exact ⟨_, ht, le_rfl, fun _ => rfl⟩

theorem call_since {x : Choice} {o : Op} {w t : World} {k : Text} {q : QueueItem}
    (h : CallRow layout x o w t k) (hq : w.store.queue[k]? = some q) :
    ∃ q', t.store.queue[k]? = some q' ∧ Since q q' := by
  cases h with
  | same hrow => exact ⟨q, hrow.trans hq, .refl q⟩
  | finished _ _ _ _ hq' _ ht =>
    obtain rfl := Option.some.inj (hq.symm.trans hq')
    exact ⟨_, ht, since_finished _ _ _ _ _⟩
  | locked hq' ht =>
    obtain rfl := Option.some.inj (hq.symm.trans hq')
    exact ⟨_, ht, le_rfl, fun _ => rfl⟩
  | returned _ _ _ _ _ hq' ht _ =>
    obtain rfl := Option.some.inj (hq.symm.trans hq')
    exact ⟨_, ht, .of_lt (Nat.lt_succ_self _)⟩

theorem step_since {P : World → World → Prop} {m n : Machine World Cmd Op Val Exn Reply}
    {e : Event Cmd Choice Env} (h : Run v P m) (hstep : (system v).step m e = some n) {k : Text}
    {q : QueueItem} (hq : m.state.store.queue[k]? = some q) :
    ∃ q', n.state.store.queue[k]? = some q' ∧ Since q q' := by
  by_cases hscan : ∃ rootId now found, e = .other (.scan rootId now found)
  · obtain ⟨rootId, now, found, rfl⟩ := hscan
    obtain ⟨p, _, hreconciled⟩ := scan_reconciled (run_any h) hstep
    obtain ⟨q', hq', hrevised⟩ := hreconciled.revised k q hq
    exact ⟨q', hq', since_revised hrevised⟩
  · have hother : ∀ rootId now found, e ≠ .other (.scan rootId now found) :=
      fun rootId now found heq => hscan ⟨rootId, now, found, heq⟩
    cases row_step h hstep hother k with
    | kept hkept => exact kept_since hkept hq
    | call _ _ hrow => exact call_since hrow hq

/-! Selections name stored rows. -/

/-- Each item that a selection names is stored, in the state it had then or a later one. -/
def Dated (s : Store) : Prop :=
  ∀ (id : Text) found, s.selection[id]? = some found → ∀ saved ∈ found.items,
    ∃ q, s.queue[saved.itemId]? = some q ∧ Since saved q

theorem explicitItems_stored {s : Store} {companyId : Text} (hqueue : Keyed (·.itemId) s.queue) :
    ∀ (items : List (Text × ℕ)) {seen : List Text} {found : List QueueItem},
      explicitItems s companyId items seen = .ok found →
        ∀ q ∈ found, s.queue[q.itemId]? = some q
  | [], seen, found, h => by
    cases h
    simp
  | (itemId, revision) :: items, seen, found, h => by
    unfold explicitItems at h
    split at h
    · cases h
    · rename_i item hitem
      split at h
      · cases h
      · obtain ⟨rest, hrest, h⟩ := bind_eq_ok.mp h
        cases h
        intro q hq
        rcases List.mem_cons.mp hq with rfl | hq
        · exact row_under_key hqueue hitem
        · exact explicitItems_stored hqueue items hrest q hq

theorem selectedItems_stored {casefold : Text → Text} {request : SelectionRequest} {s : Store}
    {found : List QueueItem} (hqueue : Keyed (·.itemId) s.queue)
    (h : selectedItems casefold request s = .ok found) :
    ∀ q ∈ found, s.queue[q.itemId]? = some q := by
  unfold selectedItems at h
  split at h
  · exact explicitItems_stored hqueue _ h
  · dsimp only at h
    split at h
    · cases h
    · cases h
      intro q hq
      have hq := (List.perm_insertionSort _ _).mem_iff.mp (List.mem_filter.mp hq).1
      obtain ⟨k, hk⟩ := mem_list.mp (List.mem_filter.mp (List.mem_filter.mp hq).1).1
      exact row_under_key hqueue hk

theorem selection_stored {casefold : Text → Text} {settings : Settings}
    {selectionId actor : Text} {now : Time} {request : SelectionRequest} {s t : Store}
    (hqueue : Keyed (·.itemId) s.queue)
    (h : selection layout casefold settings selectionId actor now request s = .ok t) :
    ∃ created, (∀ q ∈ created.items, s.queue[q.itemId]? = some q) ∧
      t = { s with selection := s.selection.insert selectionId created } := by
  obtain ⟨⟨⟩, _, h⟩ := bind_eq_ok.mp h
  obtain ⟨items, hitems, h⟩ := bind_eq_ok.mp h
  by_cases hempty : items = []
  · simp [hempty, bind, Except.bind] at h
  by_cases hlimit : settings.maxBatchItems < items.length
  · simp [hempty, hlimit, bind, Except.bind] at h
  · simp only [hempty, hlimit, if_false] at h
    cases h
    exact ⟨_, selectedItems_stored hqueue hitems, rfl⟩

theorem effect_selection {w t : World} (he : Effect layout w t) :
    t.store.selection = w.store.selection := by
  cases he <;> rfl

/-- A selection after a step: its items were selected before, or are the rows of now. -/
theorem step_selection {P : World → World → Prop} {m n : Machine World Cmd Op Val Exn Reply}
    {e : Event Cmd Choice Env} (h : Run v P m) (hstep : (system v).step m e = some n) {id : Text}
    {found : Selection} (hfound : n.state.store.selection[id]? = some found) :
    (∃ (k : Text) (earlier : Selection), m.state.store.selection[k]? = some earlier ∧
      found.items = earlier.items) ∨
    ∀ q ∈ found.items, m.state.store.queue[q.itemId]? = some q := by
  have hsame : n.state.store.selection = m.state.store.selection →
      ∃ (k : Text) (earlier : Selection), m.state.store.selection[k]? = some earlier ∧
        found.items = earlier.items := fun heq => ⟨id, found, heq ▸ hfound, rfl⟩
  rcases System.step_cases hstep with ⟨_, _, _, rfl⟩ | ⟨x, c, o, next, rfl, hm, rfl⟩ | ⟨_, rfl⟩ |
    ⟨e, t, rfl, ht, rfl⟩
  · exact .inl (hsame rfl)
  · exact .inl (hsame (effect_selection (exec_effect (run_permit h hm))))
  · exact .inl (hsame rfl)
  · have hw := run_coherent h
    cases e with
    | files tree => cases ht; exact .inl (hsame rfl)
    | storage rootId mode => cases ht; exact .inl (hsame rfl)
    | dictionaries dictionary version events =>
      simp only [system, other] at ht
      split at ht
      · cases ht; exact .inl (hsame rfl)
      · cases ht
    | select selectionId actor now request =>
      simp only [system, other] at ht
      split at ht
      · cases ht
      · obtain ⟨s, hs, rfl⟩ := stored_eq_some ht
        obtain ⟨created, hcreated, rfl⟩ := selection_stored hw.queue_key hs
        simp only [get_put] at hfound
        split at hfound
        · cases hfound
          exact .inr hcreated
        · exact .inl ⟨id, found, hfound, rfl⟩
    | preview previewId actor selectionId now =>
      simp only [system, other] at ht
      split at ht
      · cases ht
      · obtain ⟨s, hs, rfl⟩ := stored_eq_some ht
        obtain ⟨created, rfl⟩ := preview_frame hs
        exact .inl (hsame rfl)
    | accept drawn now actor requestId request =>
      obtain ⟨s, hs, rfl⟩ := stored_eq_some ht
      obtain ⟨chosen, b, hchosen, _, _, _, _, _, hselection, _⟩ := accept_spec hs
      simp only [hselection, get_put] at hfound
      split at hfound
      · cases hfound
        exact .inl ⟨_, chosen, hchosen, rfl⟩
      · exact .inl ⟨id, found, hfound, rfl⟩
    | scan rootId now files =>
      simp only [system, other] at ht
      split at ht
      · rename_i hfresh
        obtain ⟨s, hs, rfl⟩ := Option.map_eq_some_iff.mp ht
        obtain ⟨_, _, hframe, _⟩ := scan_spec hw hfresh hs
        rw [hframe] at hfound
        exact .inl ⟨id, found, hfound, rfl⟩
      · cases ht

theorem run_dated {P : World → World → Prop} {m : Machine World Cmd Op Val Exn Reply}
    (h : Run v P m) : Dated m.state.store := by
  induction h with
  | init hw =>
    intro id found hfound
    simp [hw.selection] at hfound
  | tail hprev _ hstep ih =>
    intro id found hfound saved hsaved
    rcases step_selection hprev hstep hfound with ⟨k, earlier, hearlier, hitems⟩ | hrows
    · obtain ⟨q, hq, hsince⟩ := ih k earlier hearlier saved (hitems ▸ hsaved)
      obtain ⟨q', hq', hnext⟩ := step_since hprev hstep hq
      exact ⟨q', hq', hsince.trans hnext⟩
    · exact step_since hprev hstep (hrows saved hsaved)

/-! Working attempts are at home. -/

/-- The item of an attempt that has not ended is where the attempt is to find its file. -/
def AtHome (s : Store) : Prop :=
  ∀ (id : Text) a, s.attempt[id]? = some a → a.phase ≠ .done → ∀ q,
    s.queue[a.item.itemId]? = some q → q.source.relativePath = a.item.source.relativePath

/-- Rows that keep their paths. -/
def PathsKept (s t : Store) : Prop :=
  ∀ (k : Text) q', t.queue[k]? = some q' → ∃ q, s.queue[k]? = some q ∧
    q'.source.relativePath = q.source.relativePath

theorem PathsKept.same {s t : Store} (h : t.queue = s.queue) : PathsKept s t :=
  fun _ q hq => ⟨q, h ▸ hq, rfl⟩

theorem PathsKept.put {s t : Store} {k : Text} {q q' : QueueItem} (hq : s.queue[k]? = some q)
    (hput : t.queue = s.queue.insert k q')
    (hpath : q'.source.relativePath = q.source.relativePath) : PathsKept s t := by
  intro j b hb
  rw [hput, get_put] at hb
  split at hb
  · rename_i hk
    cases hb
    exact ⟨q, hk ▸ hq, hpath⟩
  · exact ⟨b, hb, rfl⟩

theorem AtHome.keep {s t : Store} (h : AtHome s)
    (hattempt : ∀ (id : Text) b, t.attempt[id]? = some b → b.phase ≠ .done →
      ∃ a, s.attempt[id]? = some a ∧ a.phase ≠ .done ∧ b.item = a.item)
    (hqueue : PathsKept s t) : AtHome t := by
  intro id b hb hd q' hq'
  obtain ⟨a, ha, hda, hitem⟩ := hattempt id b hb hd
  rw [hitem] at hq' ⊢
  obtain ⟨q, hq, hpath⟩ := hqueue _ q' hq'
  exact hpath.trans (h id a ha hda q hq)

theorem attempt_kept {s t : Store} (h : t.attempt = s.attempt) (id : Text) (b : Attempt)
    (hb : t.attempt[id]? = some b) (hd : b.phase ≠ .done) :
    ∃ a, s.attempt[id]? = some a ∧ a.phase ≠ .done ∧ b.item = a.item :=
  ⟨b, h ▸ hb, hd, rfl⟩

theorem attempt_put {s t : Store} {k : Text} {a a' : Attempt} (ha : s.attempt[k]? = some a)
    (hd : a.phase ≠ .done) (hput : t.attempt = s.attempt.insert k a') (hitem : a'.item = a.item)
    (id : Text) (b : Attempt) (hb : t.attempt[id]? = some b) (hdb : b.phase ≠ .done) :
    ∃ c, s.attempt[id]? = some c ∧ c.phase ≠ .done ∧ b.item = c.item := by
  rw [hput, get_put] at hb
  split at hb
  · rename_i hk
    cases hb
    exact ⟨a, hk ▸ ha, hd, hitem⟩
  · exact ⟨b, hb, hdb, rfl⟩

theorem finishedItem_source (state : OutcomeState) (reason : Option Reason)
    (current : Option Fingerprint) (now : Time) (q : QueueItem) :
    (finishedItem state reason current now q).source = q.source := by
  unfold finishedItem
  split
  · rfl
  · rfl
  · split <;> rfl
  · rfl

theorem home_effect {w t : World} (hw : Coherent w) (ho : Owned w.store) (h : AtHome w.store)
    (hP : ReturnsUnclaimed w t) (he : Effect layout w t) : AtHome t.store := by
  cases he with
  | requeued ha hphase => exact h.keep (attempt_put ha (by simp [hphase]) rfl rfl) (.same rfl)
  | rearmed ha hphase =>
    exact h.keep (attempt_put ha (by rcases hphase with h | h <;> simp [h]) rfl rfl) (.same rfl)
  | intended ha hphase => exact h.keep (attempt_put ha (by simp [hphase]) rfl (by simp)) (.same rfl)
  | quarantineIntended ha hphase =>
    exact h.keep (attempt_put ha (by simp [hphase]) rfl rfl) (.same rfl)
  | @finished id a item current state reason actual now ha hd hitem _ =>
    refine h.keep (attempt_put ha hd rfl (by simp)) (.put (row_under_key hw.queue_key hitem) rfl ?_)
    rw [finishedItem_source]
  | @locked id a item actual now ha hd _ hitem =>
    exact h.keep (attempt_put ha hd rfl (by simp)) (.put (row_under_key hw.queue_key hitem) rfl rfl)
  | @returned id o card item now hop hp _ hcard hitem =>
    have hkey : o.operationId = id := hw.returns_key id o hop
    have hitemKey : item.itemId = card.itemId := hw.queue_key _ _ hitem
    have hd : o.phase ≠ .done := by
      intro hd
      simp [pendingReturn, hd] at hp
    have hdone : (returnedStore o card item now w.store).returns[id]? = some { o with
        phase := .done
        result := some (returnResult o (returnedItem card o now item)) } := by
      simp [returnedStore, hkey]
    have hfree := hP id o _ card hop hd hdone rfl hcard
    intro i a ha hda q hq
    have hother : item.itemId ≠ a.item.itemId := by
      intro heq
      obtain ⟨c, hc, _⟩ := ho.covered card.itemId i ⟨a, ha, heq.symm.trans hitemKey, hda⟩
      cases hfree.symm.trans hc
    simp only [returnedStore, get_put, if_neg hother] at hq
    exact h i a ha hda q hq
  | _ => exact h.keep (attempt_kept rfl) (.same rfl)

/-- Unclaimed entries of an acceptance are where their files were selected. -/
def Matched (entries : List ((QueueItem × PlanRow) × Text)) (s : Store) : Prop :=
  ∀ e ∈ entries, s.claim[e.1.1.itemId]? = none → ∀ q, s.queue[e.1.1.itemId]? = some q →
    q.source.relativePath = e.1.1.source.relativePath

theorem home_acceptOne {a : Acceptance} {s t : Store} {entry : (QueueItem × PlanRow) × Text}
    {entries : List ((QueueItem × PlanRow) × Text)} (hqueue : Keyed (·.itemId) s.queue)
    (h : AtHome s) (hmatched : Matched (entry :: entries) s) (ht : acceptOne a s entry = .ok t) :
    AtHome t ∧ Keyed (·.itemId) t.queue ∧ Matched entries t := by
  have hrest : Matched entries s := fun e he => hmatched e (List.mem_cons_of_mem _ he)
  obtain ⟨⟨saved, row⟩, id⟩ := entry
  obtain ⟨attempts, hnew, ht⟩ := bind_eq_ok.mp ht
  obtain ⟨hfree, rfl⟩ := insertNew_eq_ok.mp hnew
  cases hclaim : s.claim[saved.itemId]? with
  | some claim =>
    simp only [hclaim, Option.isSome_some, if_true] at ht
    cases ht
    refine ⟨h.keep (fun i b hb hd => ?_) (.same rfl), hqueue, hrest⟩
    simp only [get_put] at hb
    split at hb
    · cases hb
      simp [acceptedAttempt] at hd
    · exact ⟨b, hb, hd, rfl⟩
  | none =>
    simp only [hclaim, Option.isSome_none, Bool.false_eq_true, if_false] at ht
    obtain ⟨item, hitem, ht⟩ := bind_eq_ok.mp ht
    cases ht
    have hitem := require_eq_ok.mp hitem
    have hpath := hmatched _ (List.mem_cons_self ..) hclaim item hitem
    have hkept : PathsKept s { s with
        attempt := s.attempt.insert id (acceptedAttempt a id false saved row)
        claim := s.claim.insert saved.itemId ⟨id, a.batchId⟩
        queue := s.queue.insert item.itemId (claimedItem id item) } :=
      .put (row_under_key hqueue hitem) rfl rfl
    refine ⟨fun i b hb hd q' hq' => ?_, hqueue.put rfl, fun e he hnone q' hq' => ?_⟩
    · obtain ⟨q, hq, hsame⟩ := hkept _ q' hq'
      simp only [get_put] at hb
      split at hb
      · cases hb
        obtain rfl : item = q := Option.some.inj (hitem.symm.trans hq)
        exact hsame.trans hpath
      · exact hsame.trans (h i b hb hd q hq)
    · obtain ⟨q, hq, hsame⟩ := hkept _ q' hq'
      simp only [get_put] at hnone
      split at hnone
      · cases hnone
      · exact hsame.trans (hrest e he hnone q hq)

theorem home_acceptAll {a : Acceptance} : ∀ (entries : List ((QueueItem × PlanRow) × Text))
    {s t : Store}, Keyed (·.itemId) s.queue → AtHome s → Matched entries s →
      entries.foldlM (acceptOne a) s = .ok t → AtHome t
  | [], _, _, _, h, _, ht => by
    cases ht
    exact h
  | entry :: entries, s, t, hqueue, h, hmatched, ht => by
    rw [List.foldlM_cons] at ht
    obtain ⟨u, hu, ht⟩ := bind_eq_ok.mp ht
    obtain ⟨hhome, hkeys, hrest⟩ := home_acceptOne hqueue h hmatched hu
    exact home_acceptAll entries hkeys hhome hrest ht

theorem home_accept {casefold : Text → Text} {drawn : Draws} {now : Time} {tree : FileTree}
    {actor requestId : Text} {request : BatchRequest} {s t : Store}
    (hqueue : Keyed (·.itemId) s.queue) (hdated : Dated s) (h : AtHome s)
    (ht : accept layout casefold tree drawn now actor requestId request s = .ok t) : AtHome t := by
  obtain ⟨chosen, rows, a, hsteps⟩ := accept_acceptable ht
  obtain ⟨id, hchosen⟩ := hsteps.found
  obtain ⟨s₁, u, hattempt, hclaim, hsame, hu, hresult⟩ := hsteps.entered
  have hmatched : Matched (drawnEntries drawn chosen.items rows) s₁ := by
    intro e he hnone q hq
    rw [hclaim] at hnone
    rw [hsame] at hq
    have hsaved := drawnEntries_item he
    obtain ⟨b, hb, hrevision, _⟩ := checkItem_ok (hsteps.checked _ hsaved) hnone
    obtain rfl := Option.some.inj (hb.symm.trans hq)
    obtain ⟨c, hc, hsince⟩ := hdated id chosen hchosen _ hsaved
    obtain rfl := Option.some.inj (hb.symm.trans hc)
    exact hsince.path hrevision
  have hstart : AtHome s₁ := h.keep (attempt_kept hattempt) (.same hsame)
  have hend := home_acceptAll _ (hsame ▸ hqueue) hstart hmatched hu
  rw [hresult]
  exact hend.keep (attempt_kept rfl) (.same rfl)

theorem working_held {s : Store} (ho : Owned s) (hm : Marked s) {id : Text} {a : Attempt}
    (ha : s.attempt[id]? = some a) (hd : a.phase ≠ .done) :
    ∃ q, s.queue[a.item.itemId]? = some q ∧ locked q = true := by
  obtain ⟨c, hc, _⟩ := ho.covered a.item.itemId id ⟨a, ha, rfl, hd⟩
  obtain ⟨q, hq, hactive, _, _⟩ := hm.held _ c hc
  exact ⟨q, hq, by simp [locked, hactive]⟩

/-- In runs without a return under a claim every working attempt finds its file's item at the
path where it was selected. -/
theorem run_home {m : Machine World Cmd Op Val Exn Reply} (h : Run v ReturnsUnclaimed m) :
    AtHome m.state.store := by
  induction h with
  | init hw =>
    intro id a ha
    simp [hw.attempt] at ha
  | @tail m n e hprev hallow hstep ih =>
    have hw := run_coherent hprev
    rcases System.step_cases hstep with ⟨_, _, _, rfl⟩ | ⟨x, c, o, next, rfl, hm, rfl⟩ | ⟨_, rfl⟩ |
      ⟨e, t, rfl, ht, rfl⟩
    · exact ih
    · exact home_effect hw (run_owned hprev) ih (hallow c o next hm)
        (exec_effect (run_permit hprev hm))
    · exact ih
    · cases e with
      | files tree => cases ht; exact ih
      | storage rootId mode => cases ht; exact ih.keep (attempt_kept rfl) (.same rfl)
      | dictionaries dictionary version events =>
        simp only [system, other] at ht
        split at ht
        · cases ht; exact ih.keep (attempt_kept rfl) (.same rfl)
        · cases ht
      | select selectionId actor now request =>
        simp only [system, other] at ht
        split at ht
        · cases ht
        · obtain ⟨s, hs, rfl⟩ := stored_eq_some ht
          obtain ⟨created, _, rfl⟩ := selection_frame hs
          exact ih.keep (attempt_kept rfl) (.same rfl)
      | preview previewId actor selectionId now =>
        simp only [system, other] at ht
        split at ht
        · cases ht
        · obtain ⟨s, hs, rfl⟩ := stored_eq_some ht
          obtain ⟨created, rfl⟩ := preview_frame hs
          exact ih.keep (attempt_kept rfl) (.same rfl)
      | accept drawn now actor requestId request =>
        obtain ⟨s, hs, rfl⟩ := stored_eq_some ht
        exact home_accept hw.queue_key (run_dated hprev) ih hs
      | scan rootId now found =>
        obtain ⟨p, _, hreconciled⟩ := scan_reconciled (run_any hprev) hstep
        have hattempt : t.store.attempt = m.state.store.attempt := by
          simp only [system, other] at ht
          split at ht
          · rename_i hfresh
            obtain ⟨s, hs, rfl⟩ := Option.map_eq_some_iff.mp ht
            obtain ⟨_, _, hframe, _⟩ := scan_spec hw hfresh hs
            rw [hframe]
          · cases ht
        intro id a ha hd q' hq'
        rw [hattempt] at ha
        obtain ⟨q, hq, hlocked⟩ := working_held (run_owned hprev) (run_marked hprev) ha hd
        have hsame := hreconciled.held _ q hq hlocked
        obtain rfl := Option.some.inj (hsame.symm.trans hq')
        exact ih id a ha hd q hq

end ItemHistory
