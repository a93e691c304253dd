import WiseWay.ClaimExclusivity

/-! # The search outbox of sorted files

A sorted file is filed under the identifier of its queue item. The record is the last one of
that identifier as long as the item, once departed, is not brought back for another file. -/
namespace SearchOutbox

open Records Services AtomicProgram Calls Intake AttemptTransactions ReturnTransactions
open SortingSystem Effects Changes LockContract ReturnContract ClaimExclusivity

variable {v : Service} {layout : Layout} {rootId id : Text}

/-- The records of one root, applied in their order to a map by item. -/
def documents (rootId : Text) (rows : List OutboxRow) : Table OutboxRow :=
  (rows.filter (·.rootId = rootId)).foldl (fun t row => t.insert row.itemId row) ∅

def SortedAt (s : Store) (id : Text) (a : Attempt) (loc : Location) : Prop :=
  s.attempt[id]? = some a ∧ a.phase = .done ∧ a.outcome.state = .sorted ∧
    a.outcome.actualLocation = some loc

/-- The file of the attempt, known by its inode, is at the location. -/
def InPlace (layout : Layout) (tree : FileTree) (a : Attempt) (loc : Location) : Prop :=
  ∃ path fp, Services.physical layout loc = .ok path ∧ fileAt tree path = some fp ∧
    inode fp = inode a.item.fingerprint

/-- The step finds the sorted file of the attempt in its place and leaves it there. -/
def Unmoved (layout : Layout) (id : Text) (w t : World) : Prop :=
  ∀ a loc, (SortedAt w.store id a loc → InPlace layout w.tree a loc) ∧
    (SortedAt t.store id a loc → InPlace layout t.tree a loc)

def Searched (rootId : Text) (w _ : World) : Prop := w.store.storage[rootId]? = some .opensearch

/-- The step does not bring back an item whose sorted file is still in its place. -/
def NotRevived (layout : Layout) (w t : World) : Prop :=
  ∀ (k : Text) q q', w.store.queue[k]? = some q → q.departed = true →
    t.store.queue[k]? = some q' → q'.departed = false →
    ∀ id a loc, SortedAt w.store id a loc → a.item.itemId = k → ¬InPlace layout w.tree a loc

/-- What the runs are about: two attempts, whose files are not moved again, and a root. -/
def About (layout : Layout) (rootId x y : Text) (w t : World) : Prop :=
  Searched rootId w t ∧ Unmoved layout x w t ∧ Unmoved layout y w t

/-- A record of the root leads to the location. -/
def Recorded (rootId : Text) (s : Store) (loc : Location) : Prop :=
  ∃ (k : Text) (row : OutboxRow), (documents rootId s.outbox)[k]? = some row ∧
    row.relativePath = loc.relativePath

/-- Files that two attempts sorted to different places of the root are both on record. -/
def BothRecorded (rootId x y : Text) (s : Store) : Prop :=
  ∀ a b la lb, SortedAt s x a la → SortedAt s y b lb → la.rootId = rootId → lb.rootId = rootId →
    la ≠ lb → Recorded rootId s la ∧ Recorded rootId s lb

theorem documents_append (rows : List OutboxRow) (row : OutboxRow) :
    documents rootId (rows ++ [row]) =
      if row.rootId = rootId then (documents rootId rows).insert row.itemId row
      else documents rootId rows := by
  by_cases h : row.rootId = rootId <;> simp [documents, List.filter_append, h]

/-! Departed items. -/

/-- A departed item cannot be selected and nobody works on it. -/
def Left (s : Store) : Prop :=
  ∀ (k : Text) q, s.queue[k]? = some q → q.departed = true →
    q.selectable = false ∧ q.status = .missing ∧ ∀ id, ¬Working s k id

theorem Left.same {s t : Store} (h : Left s) (hwork : ∀ k j, Working t k j ↔ Working s k j)
    (hqueue : t.queue = s.queue) : Left t := by
  intro k q hq hd
  rw [hqueue] at hq
  obtain ⟨hs, hm, hw⟩ := h k q hq hd
  exact ⟨hs, hm, fun id hid => hw id ((hwork k id).mp hid)⟩

theorem Left.put {s t : Store} {k : Text} {b : QueueItem} (h : Left s)
    (hwork : ∀ j id, k ≠ j → Working t j id → Working s j id)
    (hqueue : t.queue = s.queue.insert k b)
    (hb : b.departed = true → b.selectable = false ∧ b.status = .missing ∧
      ∀ id, ¬Working t k id) : Left t := by
  intro j q hq hd
  rw [hqueue, get_put] at hq
  split at hq
  · rename_i hk
    cases hq
    exact hk ▸ hb hd
  · rename_i hk
    obtain ⟨hs, hm, hw⟩ := h j q hq hd
    exact ⟨hs, hm, fun id hid => hw id (hwork j id hk hid)⟩

theorem Left.working {s : Store} (h : Left s) {k j : Text} {q : QueueItem}
    (hq : s.queue[k]? = some q) (hj : Working s k j) : q.departed = false := by
  by_contra hd
  exact (h k q hq (by simpa using hd)).2.2 j hj

theorem finishedItem_departed {state : OutcomeState} {reason : Option Reason}
    {current : Option Fingerprint} {now : Time} {item : QueueItem} (hitem : item.departed = false)
    (h : (finishedItem state reason current now item).departed = true) :
    (finishedItem state reason current now item).selectable = false ∧
    (finishedItem state reason current now item).status = .missing := by
  unfold finishedItem at h ⊢
  split at h
  · simp [hitem] at h
  · simp [hitem] at h
  · split at h <;> simp [hitem] at h
  · exact ⟨rfl, rfl⟩

theorem left_effect {w t : World} (hw : Coherent w) (ho : Owned w.store) (h : Left w.store)
    (he : Effect layout w t) : Left t.store := by
  cases he with
  | requeued ha hphase =>
    exact h.same (working_put ha (by simp [hphase]) rfl rfl (by rintro ⟨⟩)) rfl
  | rearmed ha hphase =>
    refine h.same (working_put ha ?_ rfl rfl (by rintro ⟨⟩)) rfl
    rcases hphase with h | h <;> simp [h]
  | intended ha hphase =>
    exact h.same (working_put ha (by simp [hphase]) rfl (by simp) (by simp)) rfl
  | quarantineIntended ha hphase =>
    exact h.same (working_put ha (by simp [hphase]) rfl rfl (by simp [hphase])) rfl
  | @finished id a item current state reason actual now ha hd hitem hend =>
    have hkey : item.itemId = a.item.itemId := hw.queue_key _ _ hitem
    have hworking : Working w.store item.itemId id := ⟨a, ha, hkey.symm, hd⟩
    have hlive := h.working (row_under_key hw.queue_key hitem) hworking
    refine h.put (fun j i _ hi => ((working_finished j i).mp hi).2) rfl fun hdeparted => ?_
    obtain ⟨hs, hm⟩ := finishedItem_departed hlive hdeparted
    refine ⟨hs, hm, fun i hi => ?_⟩
    obtain ⟨hne, hi⟩ := (working_finished _ i).mp hi
    exact hne (ho.unique hi hworking)
  | @locked id a item actual now ha hd hr hitem =>
    obtain ⟨_, hframe, _, _⟩ := lockedAttempt_frame a actual now
    have hkey : item.itemId = a.item.itemId := hw.queue_key _ _ hitem
    have hwork := working_put (t := lockedStore id a item actual now w.store) ha hd rfl hframe
      (by simp)
    refine h.put (fun j i _ hi => (hwork j i).mp hi) rfl fun hdeparted => ?_
    have hlive := h.working (row_under_key hw.queue_key hitem) ⟨a, ha, hkey.symm, hd⟩
    cases hlive.symm.trans hdeparted
  | returned => exact h.put (fun _ _ _ hi => hi) rfl (by rintro ⟨⟩)
  | _ => exact h.same (fun _ _ => .rfl) rfl

theorem left_change {w t : World} (h : Left w.store) (hc : Change v w t) : Left t.store := by
  cases hc with
  | @scanned p queue hrows =>
    intro k q hq hd
    have hrow := hrows k
    change queue[k]? = some q at hq
    rw [hq] at hrow
    generalize hbefore : w.store.queue[k]? = before at hrow
    cases hrow with
    | kept => exact h k q hbefore hd
    | @same b file hfree hstatus =>
      have hdeparted : (p.sameItem v.casefold v.settings b file).departed = b.departed := by
        unfold Pass.sameItem
        dsimp only
        split
        · rfl
        · split <;> rfl
      exact absurd (h k b hbefore (hdeparted ▸ hd)).2.1 hstatus
    | changed => cases hd
    | @missing b hb =>
      have hdeparted : (missingItem b).departed = b.departed := by
        unfold missingItem
        split <;> rfl
      rw [hdeparted, hb] at hd
      cases hd
    | found => cases hd
  | _ => exact h.same (fun _ _ => .rfl) rfl

theorem left_accepting {w t : World} (hw : Coherent w) (h : Left w.store)
    (ha : Accepting w t) : Left t.store := by
  cases ha with
  | opened => exact h.same (fun _ _ => .rfl) rfl
  | launched => exact h.same (fun _ _ => .rfl) rfl
  | skipped hfree =>
    exact h.same (fun k j => (working_accepted hfree rfl k j).trans (by simp)) rfl
  | @claimed a saved row item id hfree hclaim hitem hselectable =>
    have hkey : item.itemId = saved.itemId := hw.queue_key _ _ hitem
    refine h.put (fun j i hj hi => ?_) rfl fun hd => ?_
    · rcases (working_accepted hfree rfl j i).mp hi with ⟨_, _, rfl⟩ | hi
      · exact absurd hkey hj
      · exact hi
    · have := (h _ item hitem hd).1
      cases hselectable.symm.trans this

/-! Recorded moves. -/

/-- Only attempts that have ended are on record. -/
def Closed (s : Store) : Prop :=
  ∀ row ∈ s.outbox, ∃ a, s.attempt[row.eventKey]? = some a ∧ a.phase = .done

/-- A sorted file of the root has the last record of its item, which has departed. -/
def Filed (rootId id : Text) (s : Store) : Prop :=
  ∀ a loc, SortedAt s id a loc → loc.rootId = rootId →
    (∃ row, (documents rootId s.outbox)[a.item.itemId]? = some row ∧
      row.relativePath = loc.relativePath) ∧
    ∃ q, s.queue[a.item.itemId]? = some q ∧ q.departed = true

theorem Closed.same {s t : Store} (h : Closed s) (hattempt : t.attempt = s.attempt)
    (houtbox : t.outbox = s.outbox) : Closed t := by
  intro row hrow
  rw [houtbox] at hrow
  rw [hattempt]
  exact h row hrow

theorem Closed.put {s t : Store} {k : Text} {b : Attempt} (h : Closed s)
    (hopen : ∀ a, s.attempt[k]? = some a → a.phase ≠ .done)
    (hattempt : t.attempt = s.attempt.insert k b)
    (houtbox : ∀ row ∈ t.outbox, row ∈ s.outbox ∨ row.eventKey = k ∧ b.phase = .done) :
    Closed t := by
  intro row hrow
  rw [hattempt, get_put]
  rcases houtbox row hrow with hrow | ⟨rfl, hb⟩
  · obtain ⟨a, ha, hd⟩ := h row hrow
    rw [if_neg]
    · exact ⟨a, ha, hd⟩
    · rintro rfl
      exact hopen a ha hd
  · exact ⟨b, if_pos rfl, hb⟩

theorem enqueueMove_rows {eventKey itemId : Text} {loc : Location} {fingerprint : Fingerprint}
    {s : Store} {row : OutboxRow} (h : row ∈ enqueueMove eventKey itemId loc fingerprint s) :
    row ∈ s.outbox ∨ row.eventKey = eventKey := by
  unfold enqueueMove at h
  split at h
  · exact .inl h
  · split at h
    · exact .inl h
    · rcases List.mem_append.mp h with h | h
      · exact .inl h
      · rw [List.mem_singleton.mp h]
        exact .inr rfl

theorem closed_effect {w t : World} (h : Closed w.store) (he : Effect layout w t) :
    Closed t.store := by
  have hopen : ∀ {k : Text} {a : Attempt}, w.store.attempt[k]? = some a → a.phase ≠ .done →
      ∀ b, w.store.attempt[k]? = some b → b.phase ≠ .done := by
    intro k a ha hd b hb
    rwa [← Option.some.inj (ha.symm.trans hb)]
  cases he with
  | requeued ha hphase =>
    exact h.put (hopen ha (by simp [hphase])) rfl fun _ hrow => .inl hrow
  | rearmed ha hphase =>
    exact h.put (hopen ha (by rcases hphase with h | h <;> simp [h])) rfl fun _ hrow => .inl hrow
  | intended ha hphase =>
    exact h.put (hopen ha (by simp [hphase])) rfl fun _ hrow => .inl hrow
  | quarantineIntended ha hphase =>
    exact h.put (hopen ha (by simp [hphase])) rfl fun _ hrow => .inl hrow
  | @finished k a item current state reason actual now ha hd hitem hend =>
    have hdone := (finishedAttempt_frame a state reason actual now).2.2.1
    refine h.put (hopen ha hd) rfl fun row hrow => ?_
    simp only [finishedStore] at hrow
    split at hrow
    · exact (enqueueMove_rows hrow).imp_right fun hk => ⟨hk, hdone⟩
    · exact .inl hrow
  | locked ha hd => exact h.put (hopen ha hd) rfl fun _ hrow => .inl hrow
  | _ => exact h.same rfl rfl

theorem closed_change {w t : World} (h : Closed w.store) (hc : Change v w t) :
    Closed t.store := by
  cases hc <;> exact h.same rfl rfl

theorem closed_accepting {w t : World} (h : Closed w.store) (ha : Accepting w t) :
    Closed t.store := by
  have hnew : ∀ {k : Text}, w.store.attempt[k]? = none → ∀ b : Attempt,
      w.store.attempt[k]? = some b → b.phase ≠ .done := fun hfree b hb =>
    by cases hfree.symm.trans hb
  cases ha with
  | opened => exact h.same rfl rfl
  | launched => exact h.same rfl rfl
  | skipped hfree => exact h.put (hnew hfree) rfl fun _ hrow => .inl hrow
  | claimed hfree => exact h.put (hnew hfree) rfl fun _ hrow => .inl hrow

/-! The record of a sorted file stays the last one of its item. -/

theorem queue_stays {queue : Table QueueItem} {k j : Text} {b q : QueueItem}
    (hq : queue[j]? = some q) : ∃ q', (queue.insert k b)[j]? = some q' := by
  rw [get_put]
  split
  · exact ⟨b, rfl⟩
  · exact ⟨q, hq⟩

theorem sorted_put {s t : Store} {k : Text} {b : Attempt} {a : Attempt} {loc : Location}
    (hattempt : t.attempt = s.attempt.insert k b)
    (hb : k = id → b.phase ≠ .done ∨ b.outcome.state ≠ .sorted) (h : SortedAt t id a loc) :
    SortedAt s id a loc := by
  obtain ⟨ha, hd, hs, hloc⟩ := h
  rw [hattempt, get_put] at ha
  split at ha
  · rename_i hk
    cases ha
    rcases hb hk with hne | hne
    · exact absurd hd hne
    · exact absurd hs hne
  · exact ⟨ha, hd, hs, hloc⟩

theorem departed_stays {w t : World} (hunmoved : Unmoved layout id w t)
    (hrevived : NotRevived layout w t)
    (hrows : ∀ (k : Text) q, w.store.queue[k]? = some q → ∃ q', t.store.queue[k]? = some q')
    {a : Attempt} {loc : Location} {q : QueueItem} (ha : SortedAt w.store id a loc)
    (hq : w.store.queue[a.item.itemId]? = some q) (hd : q.departed = true) :
    ∃ q', t.store.queue[a.item.itemId]? = some q' ∧ q'.departed = true := by
  obtain ⟨q', hq'⟩ := hrows _ q hq
  refine ⟨q', hq', ?_⟩
  by_contra hlive
  exact hrevived _ q q' hq hd hq' (by simpa using hlive) id a loc ha rfl ((hunmoved a loc).1 ha)

theorem Filed.step {s t : Store} (h : Filed rootId id s)
    (hsorted : ∀ a loc, SortedAt t id a loc → SortedAt s id a loc)
    (hstays : ∀ a loc q, SortedAt s id a loc → s.queue[a.item.itemId]? = some q →
      q.departed = true → ∃ q', t.queue[a.item.itemId]? = some q' ∧ q'.departed = true)
    (houtbox : ∀ a loc q, SortedAt s id a loc → s.queue[a.item.itemId]? = some q →
      q.departed = true → (documents rootId t.outbox)[a.item.itemId]? =
        (documents rootId s.outbox)[a.item.itemId]?) : Filed rootId id t := by
  intro a loc ha hroot
  obtain ⟨hrow, q, hq, hd⟩ := h a loc (hsorted a loc ha) hroot
  rw [houtbox a loc q (hsorted a loc ha) hq hd]
  exact ⟨hrow, hstays a loc q (hsorted a loc ha) hq hd⟩

theorem filed_finished {w : World} {k : Text} {a : Attempt} {item : QueueItem}
    {current : Option Fingerprint} {state : OutcomeState} {reason : Option Reason}
    {actual : Option Location} {now : Time} (hw : Coherent w) (hleft : Left w.store)
    (hclosed : Closed w.store) (h : Filed rootId id w.store)
    (hunmoved : Unmoved layout id w { w with
      store := finishedStore k a item current state reason actual now w.store })
    (hrevived : NotRevived layout w { w with
      store := finishedStore k a item current state reason actual now w.store })
    (hsearched : w.store.storage[rootId]? = some .opensearch) (ha : w.store.attempt[k]? = some a)
    (hd : a.phase ≠ .done) (hitem : w.store.queue[a.item.itemId]? = some item) :
    Filed rootId id (finishedStore k a item current state reason actual now w.store) := by
  obtain ⟨_, hframe, _, _, hstate, hactual⟩ := finishedAttempt_frame a state reason actual now
  have hkey : item.itemId = a.item.itemId := hw.queue_key _ _ hitem
  by_cases hk : k = id
  · subst hk
    rintro b loc ⟨hb, _, hs, hloc⟩ rfl
    simp only [finishedStore, get_put, if_true] at hb
    cases hb
    rw [hstate] at hs
    rw [hactual] at hloc
    subst hs hloc
    rw [hframe, ← hkey]
    have hnew : w.store.outbox.any (·.eventKey = k) = false := by
      refine List.any_eq_false.mpr fun row hrow heq => ?_
      obtain ⟨b, hb, hdone⟩ := hclosed row hrow
      rw [of_decide_eq_true heq] at hb
      exact hd (Option.some.inj (ha.symm.trans hb) ▸ hdone)
    refine ⟨⟨⟨k, loc.rootId, item.itemId, loc.relativePath, a.item.fingerprint.size,
      a.item.fingerprint.mtimeNs⟩, ?_, rfl⟩, ?_⟩
    · simp [finishedStore, enqueueMove, hsearched, hnew, documents_append]
    · simp [finishedStore, finishedItem]
  · refine h.step (fun b loc hb => sorted_put rfl (fun heq => absurd heq hk) hb)
      (fun _ _ _ => departed_stays hunmoved hrevived fun _ _ hq => queue_stays hq)
      fun b loc q hb hq hq' => ?_
    -- The ended attempt worked on an item that had not departed.
    have hother : item.itemId ≠ b.item.itemId := by
      intro heq
      have hlive := hleft.working hq (j := k) ⟨a, ha, hkey.symm.trans heq, hd⟩
      cases hlive.symm.trans hq'
    simp only [finishedStore]
    split
    · unfold enqueueMove
      split
      · rfl
      · split
        · rfl
        · rw [documents_append]
          split
          · rw [get_put, if_neg hother]
          · rfl
    · rfl

theorem filed_effect {w t : World} (hw : Coherent w) (hleft : Left w.store)
    (hclosed : Closed w.store) (h : Filed rootId id w.store)
    (hsearched : Searched rootId w t) (hunmoved : Unmoved layout id w t)
    (hrevived : NotRevived layout w t) (he : Effect layout w t) : Filed rootId id t.store := by
  cases he with
  | requeued ha hphase =>
    exact h.step (fun _ _ => sorted_put rfl fun _ => .inl (by rintro ⟨⟩))
      (fun _ _ _ => departed_stays hunmoved hrevived fun _ q hq => ⟨q, hq⟩) fun _ _ _ _ _ _ => rfl
  | rearmed ha hphase =>
    exact h.step (fun _ _ => sorted_put rfl fun _ => .inl (by rintro ⟨⟩))
      (fun _ _ _ => departed_stays hunmoved hrevived fun _ q hq => ⟨q, hq⟩) fun _ _ _ _ _ _ => rfl
  | intended ha hphase =>
    exact h.step (fun _ _ => sorted_put rfl fun _ => .inl (by simp))
      (fun _ _ _ => departed_stays hunmoved hrevived fun _ q hq => ⟨q, hq⟩) fun _ _ _ _ _ _ => rfl
  | quarantineIntended ha hphase =>
    exact h.step (fun _ _ => sorted_put rfl fun _ => .inl (by simp [hphase]))
      (fun _ _ _ => departed_stays hunmoved hrevived fun _ q hq => ⟨q, hq⟩) fun _ _ _ _ _ _ => rfl
  | finished ha hd hitem _ =>
    exact filed_finished hw hleft hclosed h hunmoved hrevived hsearched ha hd hitem
  | locked =>
    exact h.step (fun _ _ => sorted_put rfl fun _ => .inl (by simp))
      (fun _ _ _ => departed_stays hunmoved hrevived fun _ _ hq => queue_stays hq)
      fun _ _ _ _ _ _ => rfl
  | returned =>
    exact h.step (fun _ _ hb => hb)
      (fun _ _ _ => departed_stays hunmoved hrevived fun _ _ hq => queue_stays hq)
      fun _ _ _ _ _ _ => rfl
  | _ =>
    exact h.step (fun _ _ hb => hb)
      (fun _ _ _ => departed_stays hunmoved hrevived fun _ q hq => ⟨q, hq⟩) fun _ _ _ _ _ _ => rfl

theorem rescan_stays {p : Pass} {k : Text} {before after : Option QueueItem} {q : QueueItem}
    (h : Rescan v p k before after) (hq : before = some q) : ∃ q', after = some q' := by
  cases h with
  | kept => exact ⟨q, hq⟩
  | same => exact ⟨_, rfl⟩
  | changed => exact ⟨_, rfl⟩
  | missing => exact ⟨_, rfl⟩
  | found => cases hq

theorem filed_change {w t : World} (h : Filed rootId id w.store)
    (hunmoved : Unmoved layout id w t) (hrevived : NotRevived layout w t)
    (hc : Change v w t) : Filed rootId id t.store := by
  cases hc with
  | scanned hrows =>
    exact h.step (fun _ _ hb => hb) (fun _ _ _ => departed_stays hunmoved hrevived
      fun k _ hq => rescan_stays (hrows k) hq) fun _ _ _ _ _ _ => rfl
  | _ =>
    exact h.step (fun _ _ hb => hb)
      (fun _ _ _ => departed_stays hunmoved hrevived fun _ q hq => ⟨q, hq⟩) fun _ _ _ _ _ _ => rfl

theorem filed_accepting {w t : World} (hw : Coherent w) (hleft : Left w.store)
    (h : Filed rootId id w.store) (ha : Accepting w t) : Filed rootId id t.store := by
  cases ha with
  | opened =>
    exact h.step (fun _ _ hb => hb) (fun _ _ q _ hq hd => ⟨q, hq, hd⟩) fun _ _ _ _ _ _ => rfl
  | launched =>
    exact h.step (fun _ _ hb => hb) (fun _ _ q _ hq hd => ⟨q, hq, hd⟩) fun _ _ _ _ _ _ => rfl
  | skipped =>
    exact h.step (fun _ _ => sorted_put rfl fun _ => .inr (by rintro ⟨⟩))
      (fun _ _ q _ hq hd => ⟨q, hq, hd⟩) fun _ _ _ _ _ _ => rfl
  | @claimed a saved row item k hfree hclaim hitem hselectable =>
    have hkey : item.itemId = saved.itemId := hw.queue_key _ _ hitem
    refine h.step (fun _ _ => sorted_put rfl fun _ => .inl (by rintro ⟨⟩)) (fun b _ q _ hq hd => ?_)
      fun _ _ _ _ _ _ => rfl
    refine ⟨q, ?_, hd⟩
    rw [get_put, if_neg]
    · exact hq
    · intro heq
      rw [← heq, hkey, hitem] at hq
      cases hq
      cases hselectable.symm.trans (hleft _ item hitem hd).1

theorem run_filed {m : Machine World Cmd Op Val Exn Reply}
    (h : Run v (fun w t => Searched rootId w t ∧ Unmoved v.layout id w t ∧
      NotRevived v.layout w t) m) : Filed rootId id m.state.store := by
  have hall : (Owned m.state.store ∧ Left m.state.store ∧ Closed m.state.store) ∧
      Filed rootId id m.state.store := by
    refine invariant (J := fun w => (Owned w.store ∧ Left w.store ∧ Closed w.store) ∧
      Filed rootId id w.store) ?_
      (fun _ _ hw ⟨⟨ho, hl, hc⟩, hf⟩ ⟨hs, hu, hr⟩ he =>
        ⟨⟨owned_effect hw ho he, left_effect hw ho hl he, closed_effect hc he⟩,
          filed_effect hw hl hc hf hs hu hr he⟩)
      (fun _ _ _ ⟨⟨ho, hl, hc⟩, hf⟩ ⟨_, hu, hr⟩ he =>
        ⟨⟨owned_change ho he, left_change hl he, closed_change hc he⟩, filed_change hf hu hr he⟩)
      (fun _ _ hw ⟨⟨ho, hl, hc⟩, hf⟩ he =>
        ⟨⟨owned_accepting ho he, left_accepting hw hl he, closed_accepting hc he⟩,
          filed_accepting hw hl hf he⟩) h
    intro w hw
    refine ⟨⟨by constructor <;> simp [hw.claim, Working, hw.attempt], fun k q hq => ?_,
      fun row hrow => ?_⟩, fun a loc ⟨ha, _⟩ => ?_⟩
    · simp [hw.queue] at hq
    · simp [hw.outbox] at hrow
    · simp [hw.attempt] at ha
  exact hall.2

theorem run_mono {P Q : World → World → Prop} (hPQ : ∀ w t, P w t → Q w t)
    {m : Machine World Cmd Op Val Exn Reply} (h : Run v P m) : Run v Q m := by
  induction h with
  | init hs => exact .init hs
  | @tail m n e _ hallow hstep ih =>
    refine .tail ih ?_ hstep
    cases e with
    | call x => exact fun c o k hm => hPQ _ _ (hallow c o k hm)
    | other e => exact fun t ht => hPQ _ _ (hallow t ht)
    | _ => trivial

/-- Both records are there in every run that does not bring back an item whose sorted file is
still in its place. -/
theorem both_recorded {rootId x y : Text} {m : Machine World Cmd Op Val Exn Reply}
    (h : Run v (fun w t => About v.layout rootId x y w t ∧ NotRevived v.layout w t) m) :
    BothRecorded rootId x y m.state.store := by
  have hx : Filed rootId x m.state.store :=
    run_filed (run_mono (fun _ _ ⟨⟨hs, hx, _⟩, hr⟩ => ⟨hs, hx, hr⟩) h)
  have hy : Filed rootId y m.state.store :=
    run_filed (run_mono (fun _ _ ⟨⟨hs, _, hy⟩, hr⟩ => ⟨hs, hy, hr⟩) h)
  intro a b la lb ha hb hla hlb _
  obtain ⟨⟨row, hrow, hpath⟩, _⟩ := hx a la ha hla
  obtain ⟨⟨row', hrow', hpath'⟩, _⟩ := hy b lb hb hlb
  exact ⟨⟨_, row, hrow, hpath⟩, _, row', hrow', hpath'⟩

/-! Two files, at one path or at two. -/

/-- A file of the small service is scanned until it is ready, accepted and sorted. -/
def delivered (name : String) (fingerprint : Fingerprint) (now : Time) (item : Text × ℕ)
    (selectionId batch attempt : Text) : List (Event Cmd Choice Env) :=
  [.other (.scan "in".toList now [⟨name.toList, fingerprint, "queue-1".toList⟩]),
    .other (.scan "in".toList (now + 20) [⟨name.toList, fingerprint, "queue-1".toList⟩])] ++
  acceptEvents selectionId batch attempt (now + 20) [item] ++
  commandEvents .runOnce [] (now + 30) (List.replicate 21 false)

/-- The rule of the small service with another target name. -/
def renamedRule : Env :=
  .dictionaries ((∅ : Table Dictionary).insert ['d'] smallDictionary)
    ((∅ : Table DictionaryVersion).insert ['v'] { smallVersion with
      rules := [{ smallRule with targetStem := ['u'] }] }) []

/-- After a file has been sorted a second one comes to the given name. -/
def deliveredTwice (name : String) (item : Text × ℕ) : List (Event Cmd Choice Env) :=
  delivered "a.t" ⟨1, 7, 3, 0⟩ 0 ("queue-in-1-7".toList, 1) ['s'] ['b'] ['t'] ++
  [.other renamedRule,
    .other (.files (smallTree [("in/" ++ name, ⟨1, 8, 5, 9⟩), ("ar/x/s.t", ⟨1, 7, 3, 0⟩)]))] ++
  delivered name ⟨1, 8, 5, 9⟩ 40 item "s2".toList ['c'] ['y']

def inPlace (layout : Layout) (tree : FileTree) (a : Attempt) (loc : Location) : Bool :=
  match Services.physical layout loc with
  | .ok path => (fileAt tree path).any fun fp => inode fp = inode a.item.fingerprint
  | .error _ => false

theorem inPlace_iff {tree : FileTree} {a : Attempt} {loc : Location} :
    inPlace layout tree a loc = true ↔ InPlace layout tree a loc := by
  unfold inPlace InPlace
  cases Services.physical layout loc with
  | error e => simp
  | ok path => simp [Option.any_eq_true]

def sortedPlaces (a : Attempt) : List Location :=
  if a.phase = .done ∧ a.outcome.state = .sorted then a.outcome.actualLocation.toList else []

theorem mem_sortedPlaces {s : Store} {a : Attempt} {loc : Location} :
    SortedAt s id a loc ↔ s.attempt[id]? = some a ∧ loc ∈ sortedPlaces a := by
  unfold SortedAt sortedPlaces
  split <;> simp_all

/-- `About`, for concrete runs. -/
def about (layout : Layout) (rootId x y : Text) (w t : World) : Bool :=
  decide (w.store.storage[rootId]? = some .opensearch) &&
    [x, y].all fun id => [w, t].all fun u => (u.store.attempt[id]?).all fun a =>
      (sortedPlaces a).all (inPlace layout u.tree a)

theorem about_sound {x y : Text} {w t : World} (h : about layout rootId x y w t = true) :
    About layout rootId x y w t := by
  simp only [about, Bool.and_eq_true, decide_eq_true_eq] at h
  obtain ⟨hsearched, h⟩ := h
  have hkept : ∀ id ∈ [x, y], ∀ u ∈ [w, t], ∀ a loc, SortedAt u.store id a loc →
      InPlace layout u.tree a loc := by
    intro id hid u hu a loc hsorted
    obtain ⟨ha, hloc⟩ := mem_sortedPlaces.mp hsorted
    have hrow := List.all_eq_true.mp (List.all_eq_true.mp h id hid) u hu
    rw [ha] at hrow
    exact inPlace_iff.mp (List.all_eq_true.mp hrow loc hloc)
  exact ⟨hsearched,
    fun a loc => ⟨hkept x (by simp) w (by simp) a loc, hkept x (by simp) t (by simp) a loc⟩,
    fun a loc => ⟨hkept y (by simp) w (by simp) a loc, hkept y (by simp) t (by simp) a loc⟩⟩

/-- `NotRevived`, for concrete runs. -/
def notRevived (layout : Layout) (w t : World) : Bool :=
  w.store.queue.toList.all fun (k, q) => !q.departed || (t.store.queue[k]?).all fun q' =>
    q'.departed || w.store.attempt.toList.all fun (_, a) => a.item.itemId ≠ k ||
      (sortedPlaces a).all fun loc => !inPlace layout w.tree a loc

theorem notRevived_sound {w t : World} (h : notRevived layout w t = true) :
    NotRevived layout w t := by
  intro k q q' hq hd hq' hlive id a loc hsorted hitem hplace
  obtain ⟨ha, hloc⟩ := mem_sortedPlaces.mp hsorted
  have hrow := List.all_eq_true.mp h (k, q)
    (Std.ExtTreeMap.mem_toList_iff_getElem?_eq_some.mpr hq)
  simp only [hd, hq', hlive, Bool.not_true, Bool.false_or, Option.all_some] at hrow
  have hattempt := List.all_eq_true.mp hrow (id, a)
    (Std.ExtTreeMap.mem_toList_iff_getElem?_eq_some.mpr ha)
  simp only [hitem, ne_eq, not_true_eq_false, decide_false, Bool.false_or] at hattempt
  simpa [inPlace_iff.mpr hplace] using List.all_eq_true.mp hattempt loc hloc

theorem sorted_over : ∃ m,
    (system small).run
      (checkStep small (about smallLayout "archive".toList "t0".toList "y0".toList))
      (deliveredTwice "a.t" ("queue-in-1-7".toList, 2))
      ⟨smallWorld true [("in/a.t", ⟨1, 7, 3, 0⟩)], none⟩ = some m ∧
    Run small (About smallLayout "archive".toList "t0".toList "y0".toList) m ∧
    ¬BothRecorded "archive".toList "t0".toList "y0".toList m.state.store := by
  have hrun : ((system small).run
      (checkStep small (about smallLayout "archive".toList "t0".toList "y0".toList))
      (deliveredTwice "a.t" ("queue-in-1-7".toList, 2))
      ⟨smallWorld true [("in/a.t", ⟨1, 7, 3, 0⟩)], none⟩).any
      (fun m =>
        ((m.state.store.attempt["t0".toList]?).map sortedPlaces =
          some [⟨"archive".toList, "x/s.t".toList, "D:/ar/x/s.t".toList⟩] ∧
        (m.state.store.attempt["y0".toList]?).map sortedPlaces =
          some [⟨"archive".toList, "x/u.t".toList, "D:/ar/x/u.t".toList⟩]) ∧
        (documents "archive".toList m.state.store.outbox).toList.all
          (·.2.relativePath ≠ "x/s.t".toList)) = true := by decide +kernel
  obtain ⟨m, hm, hend⟩ := (Option.any_eq_true _ _).mp hrun
  obtain ⟨⟨hx, hy⟩, hrows⟩ := of_decide_eq_true hend
  refine ⟨m, hm, run_checked (fun _ _ => about_sound) (smallWorld_start _ _) hm, fun h => ?_⟩
  obtain ⟨a, ha, hla⟩ := Option.map_eq_some_iff.mp hx
  obtain ⟨b, hb, hlb⟩ := Option.map_eq_some_iff.mp hy
  obtain ⟨⟨k, row, hrow, hpath⟩, _⟩ := h a b _ _
    (mem_sortedPlaces.mpr ⟨ha, by rw [hla]; exact List.mem_singleton.mpr rfl⟩)
    (mem_sortedPlaces.mpr ⟨hb, by rw [hlb]; exact List.mem_singleton.mpr rfl⟩) rfl rfl (by decide)
  have hne := List.all_eq_true.mp hrows (k, row)
    (Std.ExtTreeMap.mem_toList_iff_getElem?_eq_some.mpr hrow)
  exact of_decide_eq_true hne hpath

theorem both_recorded_apart : ∃ m,
    (system small).run (checkStep small fun w t =>
        about smallLayout "archive".toList "t0".toList "y0".toList w t &&
          notRevived smallLayout w t)
      (deliveredTwice "b.t" ("queue-in-1-8".toList, 1))
      ⟨smallWorld true [("in/a.t", ⟨1, 7, 3, 0⟩)], none⟩ = some m ∧
    m.state.store.outbox.length = 2 ∧
    BothRecorded "archive".toList "t0".toList "y0".toList m.state.store := by
  have hrun : ((system small).run (checkStep small fun w t =>
        about smallLayout "archive".toList "t0".toList "y0".toList w t &&
          notRevived smallLayout w t)
      (deliveredTwice "b.t" ("queue-in-1-8".toList, 1))
      ⟨smallWorld true [("in/a.t", ⟨1, 7, 3, 0⟩)], none⟩).any
      (fun m => m.state.store.outbox.length = 2) = true := by decide +kernel
  obtain ⟨m, hm, hlength⟩ := (Option.any_eq_true _ _).mp hrun
  refine ⟨m, hm, of_decide_eq_true hlength, both_recorded (run_checked (fun w t h => ?_)
    (smallWorld_start _ _) hm)⟩
  rw [Bool.and_eq_true] at h
  exact ⟨about_sound h.1, notRevived_sound h.2⟩

end SearchOutbox
