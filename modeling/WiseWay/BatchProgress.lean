import WiseWay.ItemHistory
import WiseWay.PlannedBatch
import WiseWay.Requests

/-! # The progress of a batch

The value of a batch is counted from the outcomes of its attempts, while the worker goes by
their phases: the two agree in every reachable state, and a finished attempt stays as it is. -/
namespace BatchProgress

open Records Services AtomicProgram Calls Intake AttemptTransactions Requests
open SortingSystem Effects Changes LockContract ReturnContract PlannedBatch

variable {v : Service} {layout : Layout}

/-! Phases and outcomes. -/

/-- The states that `completed_count` counts. -/
def ended : OutcomeState → Bool
  | .sorted | .manualReview | .requiresDecision | .quarantined | .skipped => true
  | .pending | .processing | .recoveryRequired => false

structure Agrees (a : Attempt) : Prop where
  ended : a.phase = .done ↔ ended a.outcome.state = true
  finished : a.phase = .done → a.outcome.finishedAt ≠ none
  named : a.outcome.itemId = a.item.itemId ∧ a.outcome.itemRevision = a.item.itemRevision

def AllAgree (s : Store) : Prop := ∀ (id : Text) a, s.attempt[id]? = some a → Agrees a

theorem AllAgree.same {s t : Store} (h : AllAgree s) (hattempt : t.attempt = s.attempt) :
    AllAgree t := fun id a ha => h id a (hattempt ▸ ha)

theorem AllAgree.put {s t : Store} {id : Text} {b : Attempt} (h : AllAgree s)
    (hput : t.attempt = s.attempt.insert id b) (hb : Agrees b) : AllAgree t := by
  intro k a ha
  rw [hput, get_put] at ha
  split at ha
  · cases ha
    exact hb
  · exact h k a ha

theorem startAttempt_outcome (a : Attempt) (now : Time) (target : Option Location) :
    (startAttempt a now target).1.outcome.state = a.outcome.state ∧
      (startAttempt a now target).1.outcome.itemId = a.outcome.itemId ∧
      (startAttempt a now target).1.outcome.itemRevision = a.outcome.itemRevision := by
  unfold startAttempt
  split
  · exact ⟨rfl, rfl, rfl⟩
  · exact ⟨rfl, rfl, rfl⟩

theorem ended_concluded {w : World} {id : Text} {a : Attempt} {state : OutcomeState}
    {reason : Option Reason} {actual : Option Location}
    (h : concluded layout w id a state reason actual) : ended state = true := by
  rcases h with rfl | rfl | ⟨i, _, rfl, _⟩
  · rfl
  · rfl
  · cases i.state <;> rfl

theorem agrees_finished {a : Attempt} {state : OutcomeState} {reason : Option Reason}
    {actual : Option Location} {now : Time} (h : Agrees a) (hstate : ended state = true) :
    Agrees (finishedAttempt a state reason actual now) := by
  obtain ⟨_, hid, hrevision⟩ := startAttempt_outcome a now a.intentTarget
  have hitem := (startAttempt_attempt a now a.intentTarget).2.1
  constructor
  · exact iff_of_true rfl hstate
  · exact fun _ => Option.some_ne_none now
  · constructor
    · exact hid.trans (h.named.1.trans (congrArg (·.itemId) hitem.symm))
    · exact hrevision.trans (h.named.2.trans (congrArg (·.itemRevision) hitem.symm))

theorem agrees_locked {a : Attempt} {actual : Option Location} {now : Time} (h : Agrees a) :
    Agrees (lockedAttempt a actual now) := by
  obtain ⟨_, hid, hrevision⟩ := startAttempt_outcome a now a.intentTarget
  have hitem := (startAttempt_attempt a now a.intentTarget).2.1
  constructor
  · exact iff_of_false (by simp [lockedAttempt]) (by simp [lockedAttempt, BatchProgress.ended])
  · intro hdone
    simp [lockedAttempt] at hdone
  · constructor
    · exact hid.trans (h.named.1.trans (congrArg (·.itemId) hitem.symm))
    · exact hrevision.trans (h.named.2.trans (congrArg (·.itemRevision) hitem.symm))

theorem agrees_intended {a : Attempt} {planned : Intent} {now : Time} (h : Agrees a) :
    Agrees (intendedAttempt a planned now).1 := by
  have hframe := intendedAttempt_frame a planned now
  have hstart := startAttempt_outcome { a with
    phase := .intent, intent := some planned
    outcome := { a.outcome with state := .processing, reasonCode := none } } now
    (some planned.target)
  obtain ⟨hstate, hid, hrevision⟩ := hstart
  have hphase : (intendedAttempt a planned now).1.phase ≠ .done := by simp
  have hstate : (intendedAttempt a planned now).1.outcome.state = .processing := hstate
  constructor
  · exact iff_of_false hphase (by simp [hstate, BatchProgress.ended])
  · exact fun hdone => absurd hdone hphase
  · constructor
    · exact hid.trans (h.named.1.trans (congrArg (·.itemId) hframe.2.1.symm))
    · exact hrevision.trans (h.named.2.trans (congrArg (·.itemRevision) hframe.2.1.symm))

theorem agrees_accepted (a : Acceptance) (id : Text) (occupied : Bool) (saved : QueueItem)
    (row : PlanRow) : Agrees (acceptedAttempt a id occupied saved row) := by
  cases occupied with
  | true => exact ⟨iff_of_true rfl rfl, fun _ => Option.some_ne_none a.now, rfl, rfl⟩
  | false => exact ⟨iff_of_false (by simp [acceptedAttempt]) (by simp [acceptedAttempt,
      acceptedOutcome, BatchProgress.ended]), by simp [acceptedAttempt], rfl, rfl⟩

theorem Agrees.open {a : Attempt} (h : Agrees a) (hphase : a.phase ≠ .done) :
    BatchProgress.ended a.outcome.state = false := by
  by_contra hended
  exact hphase (h.ended.mpr (by simpa using hended))

theorem agree_effect {w t : World} (h : AllAgree w.store) (he : Effect layout w t) :
    AllAgree t.store := by
  cases he with
  | @requeued id a ha _ _ =>
    refine h.put rfl ⟨iff_of_false (by simp) (by simp [BatchProgress.ended]), by simp, ?_⟩
    exact (h id a ha).named
  | @rearmed id a i ha hphase _ =>
    have hopen := (h id a ha).open (by rcases hphase with hp | hp <;> simp [hp])
    exact h.put rfl ⟨iff_of_false (by simp) (by simp [hopen]), by simp, (h id a ha).named⟩
  | intended ha => exact h.put rfl (agrees_intended (h _ _ ha))
  | quarantineIntended ha =>
    exact h.put rfl ⟨(h _ _ ha).ended, (h _ _ ha).finished, (h _ _ ha).named⟩
  | finished ha _ _ hend => exact h.put rfl (agrees_finished (h _ _ ha) (ended_concluded hend))
  | locked ha => exact h.put rfl (agrees_locked (h _ _ ha))
  | _ => exact h.same rfl

theorem run_agree {P : World → World → Prop} {m : Machine World Cmd Op Val Exn Reply}
    (h : Run v P m) : AllAgree m.state.store := by
  refine invariant (J := fun w => AllAgree w.store) ?_ ?_ ?_ ?_ h
  · intro w hw id a ha
    simp [hw.attempt] at ha
  · exact fun w t _ hj _ he => agree_effect hj he
  · intro w t _ hj _ hc
    cases hc <;> exact hj.same rfl
  · intro w t _ hj ha
    cases ha with
    | opened _ _ => exact hj.same rfl
    | skipped _ _ => exact hj.put rfl (agrees_accepted ..)
    | claimed _ _ _ _ => exact hj.put rfl (agrees_accepted ..)
    | launched => exact hj.same rfl

/-! The attempts of a batch move on. -/

/-- What may have become of the batch `k`: its attempts are the same, the finished ones as they
were. -/
structure Advances (s t : Store) (k : Text) : Prop where
  batch : t.batch[k]? = s.batch[k]?
  forward : ∀ (id : Text) a, s.attempt[id]? = some a → a.batchId = k →
    ∃ b, t.attempt[id]? = some b ∧ b.batchId = k ∧ b.item = a.item ∧ (a.phase = .done → b = a)
  back : ∀ (id : Text) b, t.attempt[id]? = some b → b.batchId = k →
    ∃ a, s.attempt[id]? = some a ∧ a.batchId = k

theorem Advances.refl (s : Store) (k : Text) : Advances s s k :=
  ⟨rfl, fun _ a ha hk => ⟨a, ha, hk, rfl, fun _ => rfl⟩, fun _ b hb hk => ⟨b, hb, hk⟩⟩

theorem Advances.trans {s t u : Store} {k : Text} (h : Advances s t k) (h' : Advances t u k) :
    Advances s u k := by
  refine ⟨h'.batch.trans h.batch, fun id a ha hk => ?_, fun id b hb hk => ?_⟩
  · obtain ⟨b, hb, hbk, hitem, hdone⟩ := h.forward id a ha hk
    obtain ⟨c, hc, hck, hitem', hdone'⟩ := h'.forward id b hb hbk
    refine ⟨c, hc, hck, hitem'.trans hitem, fun hd => ?_⟩
    have hsame := hdone hd
    exact (hdone' (hsame ▸ hd)).trans hsame
  · obtain ⟨c, hc, hck⟩ := h'.back id b hb hk
    exact h.back id c hc hck

theorem Advances.same {s t : Store} {k : Text} (hbatch : t.batch = s.batch)
    (hattempt : t.attempt = s.attempt) : Advances s t k := by
  refine ⟨by rw [hbatch], fun id a ha hk => ⟨a, hattempt ▸ ha, hk, rfl, fun _ => rfl⟩, ?_⟩
  exact fun id b hb hk => ⟨b, hattempt ▸ hb, hk⟩

theorem Advances.put {s t : Store} {k id : Text} {a b : Attempt} (ha : s.attempt[id]? = some a)
    (hopen : a.phase ≠ .done) (hput : t.attempt = s.attempt.insert id b)
    (hbatch : t.batch = s.batch) (hb : b.batchId = a.batchId)
    (hitem : b.item = a.item) : Advances s t k := by
  refine ⟨by rw [hbatch], fun j c hc hk => ?_, fun j c hc hk => ?_⟩
  · rw [hput, get_put]
    by_cases hj : id = j
    · subst hj
      obtain rfl : a = c := Option.some.inj (ha.symm.trans hc)
      refine ⟨b, if_pos rfl, hb.trans hk, hitem, fun hd => absurd hd hopen⟩
    · exact ⟨c, (if_neg hj).trans hc, hk, rfl, fun _ => rfl⟩
  · rw [hput, get_put] at hc
    split at hc
    · rename_i hj
      cases hc
      exact ⟨a, hj ▸ ha, hb.symm.trans hk⟩
    · exact ⟨c, hc, hk⟩

theorem advances_effect {w t : World} (he : Effect layout w t) (k : Text) :
    Advances w.store t.store k := by
  cases he with
  | requeued ha hphase =>
    refine Advances.put ha ?_ rfl rfl rfl rfl
    rw [hphase]
    decide
  | rearmed ha hphase =>
    refine Advances.put ha ?_ rfl rfl rfl rfl
    rcases hphase with hp | hp
    · rw [hp]
      decide
    · rw [hp]
      decide
  | @intended id a planned now ha hphase =>
    have hframe := intendedAttempt_frame a planned now
    refine Advances.put ha ?_ rfl rfl (by simp [intendedAttempt]) hframe.2.1
    rw [hphase]
    decide
  | quarantineIntended ha hphase =>
    refine Advances.put ha ?_ rfl rfl rfl rfl
    rw [hphase]
    decide
  | @finished id a item current state reason actual now ha hopen =>
    have hframe := finishedAttempt_frame a state reason actual now
    exact Advances.put ha hopen rfl rfl (by simp [finishedAttempt]) hframe.2.1
  | @locked id a item actual now ha hopen =>
    have hframe := lockedAttempt_frame a actual now
    exact Advances.put ha hopen rfl rfl (by simp [lockedAttempt]) hframe.2.1
  | _ => exact Advances.same rfl rfl

theorem effect_batch {w t : World} (he : Effect layout w t) : t.store.batch = w.store.batch := by
  cases he <;> rfl

theorem advances_accept {casefold : Text → Text} {tree : FileTree} {drawn : Draws} {a : Acceptance}
    {request : BatchRequest} {s t opened entered : Store} {chosen : Selection}
    {rows : List PlanRow} (ha : a.batchId = drawn.batch)
    (h : Stages layout casefold tree drawn a request s t chosen rows opened entered) {k : Text}
    {b : Batch} (hk : s.batch[k]? = some b) : Advances s t k := by
  have hother : drawn.batch ≠ k := by
    rintro rfl
    cases h.unused.symm.trans hk
  have hrows := acceptAll_entered _ h.entering
  have hframe := (acceptAll_frame _ h.entering).2.1
  have hattempt : t.attempt = entered.attempt := by rw [h.launching]
  have hsame : opened.attempt = s.attempt := by rw [h.opening]
  refine ⟨?_, fun id c hc hck => ⟨c, ?_, hck, rfl, fun _ => rfl⟩, fun id c hc hck => ⟨c, ?_, hck⟩⟩
  · rw [h.launching, hframe, h.opening]
    simp only [get_put, if_neg hother]
  · rw [hattempt, hrows.others id, hsame]
    · exact hc
    · intro hmem
      obtain ⟨e, he, rfl⟩ := List.mem_map.mp hmem
      have hnone := hrows.fresh e he
      rw [hsame, hc] at hnone
      cases hnone
  · rw [hattempt] at hc
    rcases hrows.batches id c hc with hold | hnew
    · exact hsame ▸ hold
    · exact absurd (ha.symm.trans (hnew.symm.trans hck)) hother

theorem selection_created {casefold : Text → Text} {settings : Settings}
    {selectionId actor : Text} {now : Time} {request : SelectionRequest} {s t : Store}
    (h : selection layout casefold settings selectionId actor now request s = .ok t) :
    ∃ created, created.selectionId = selectionId ∧ created.items ≠ [] ∧
      t = { s with selection := s.selection.insert created.selectionId created } := by
  obtain ⟨⟨⟩, _, h⟩ := bind_eq_ok.mp h
  obtain ⟨items, hitems, h⟩ := bind_eq_ok.mp h
  by_cases hempty : items = []
  · simp [hempty, bind, Except.bind] at h
  by_cases hlimit : settings.maxBatchItems < items.length
  · simp [hempty, hlimit, bind, Except.bind] at h
  · simp only [hempty, hlimit, if_false] at h
    cases h
    exact ⟨⟨selectionId, request.companyId, now + settings.ttl, items, actor, none⟩, rfl, hempty,
      rfl⟩

/-- What a step does to batches and selections. -/
inductive Kind (v : Service) (s t : Store) : Prop where
  | quiet : (∀ k, Advances s t k) → t.batch = s.batch → t.selection = s.selection → Kind v s t
  | selected {created} : created.items ≠ [] → s.selection[created.selectionId]? = none →
      t = { s with selection := s.selection.insert created.selectionId created } → Kind v s t
  | accepted {tree drawn a request chosen rows opened entered} : a.batchId = drawn.batch →
      Stages v.layout v.casefold tree drawn a request s t chosen rows opened entered → Kind v s t

theorem kind_same {s t : Store} (hattempt : t.attempt = s.attempt) (hbatch : t.batch = s.batch)
    (hselection : t.selection = s.selection) : Kind v s t :=
  .quiet (fun _ => .same hbatch hattempt) hbatch hselection

theorem step_kind {P : World → World → Prop} {m n : Machine World Cmd Op Val Exn Reply}
    {e : Event Cmd Choice Env} (h : Run v P m) (hstep : (system v).step m e = some n) :
    Kind v m.state.store n.state.store := by
  rcases System.step_cases hstep with ⟨_, _, _, rfl⟩ | ⟨x, c, o, next, rfl, hm, rfl⟩ | ⟨_, rfl⟩ |
    ⟨e, t, rfl, ht, rfl⟩
  · exact kind_same rfl rfl rfl
  · have he := exec_effect (x := x) (run_permit h hm)
    exact .quiet (advances_effect he) (effect_batch he) (ItemHistory.effect_selection he)
  · exact kind_same rfl rfl rfl
  · cases e with
    | accept drawn now actor requestId request =>
      obtain ⟨s, hs, rfl⟩ := stored_eq_some ht
      obtain ⟨chosen, rows, opened, entered, hstages⟩ := accept_stages hs
      exact .accepted rfl hstages
    | files tree =>
      cases ht
      exact kind_same rfl rfl rfl
    | storage rootId mode =>
      cases ht
      exact kind_same rfl rfl rfl
    | dictionaries dictionary version events =>
      simp only [system, other] at ht
      split at ht
      · cases ht
        exact kind_same rfl rfl rfl
      · cases ht
    | select selectionId actor now request =>
      simp only [system, other] at ht
      split at ht
      · cases ht
      · rename_i hfresh
        obtain ⟨s, hs, rfl⟩ := stored_eq_some ht
        obtain ⟨created, rfl, hitems, rfl⟩ := selection_created hs
        exact .selected hitems (by simpa using hfresh) rfl
    | preview previewId actor selectionId now =>
      simp only [system, other] at ht
      split at ht
      · cases ht
      · obtain ⟨s, hs, rfl⟩ := stored_eq_some ht
        obtain ⟨created, rfl⟩ := preview_frame hs
        exact kind_same rfl rfl rfl
    | scan rootId now found =>
      simp only [system, other] at ht
      split at ht
      · rename_i hfresh
        obtain ⟨s, hs, rfl⟩ := Option.map_eq_some_iff.mp ht
        obtain ⟨_, _, hframe, _⟩ := scan_spec (run_coherent h) hfresh hs
        rw [hframe]
        exact kind_same rfl rfl rfl
      · cases ht

theorem Kind.advances {s t : Store} (h : Kind v s t) {k : Text} {b : Batch}
    (hb : s.batch[k]? = some b) : Advances s t k := by
  cases h with
  | quiet hadvances _ _ => exact hadvances k
  | selected _ _ ht => exact .same (by rw [ht]) (by rw [ht])
  | accepted ha hstages => exact advances_accept ha hstages hb

/-! Which attempts a batch has. -/

/-- The selected items with the attempts they became. -/
def Roster (s : Store) (k : Text) (items : List QueueItem) : Prop :=
  ∃ roster : List (Text × QueueItem), (roster.map (·.1)).Nodup ∧ roster.map (·.2) = items ∧
    ∀ id item, (id, item) ∈ roster ↔
      ∃ a, s.attempt[id]? = some a ∧ a.batchId = k ∧ a.item = item

theorem Roster.advance {s t : Store} {k : Text} {items : List QueueItem} (h : Roster s k items)
    (ht : Advances s t k) : Roster t k items := by
  obtain ⟨roster, hnodup, hitems, hmem⟩ := h
  refine ⟨roster, hnodup, hitems, fun id item => ?_⟩
  rw [hmem]
  constructor
  · rintro ⟨a, ha, hak, rfl⟩
    obtain ⟨b, hb, hbk, hitem, _⟩ := ht.forward id a ha hak
    exact ⟨b, hb, hbk, hitem⟩
  · rintro ⟨b, hb, hbk, rfl⟩
    obtain ⟨a, ha, hak⟩ := ht.back id b hb hbk
    obtain ⟨c, hc, _, hitem, _⟩ := ht.forward id a ha hak
    obtain rfl : b = c := Option.some.inj (hb.symm.trans hc)
    exact ⟨a, ha, hak, hitem.symm⟩

theorem drawnEntries_items {drawn : Draws} {items : List QueueItem} {rows : List PlanRow}
    (h : items.length = rows.length) : (drawnEntries drawn items rows).map (·.1.1) = items := by
  have hmap : (drawnEntries drawn items rows).map (·.1.1) = (items.zip rows).map Prod.fst := by
    conv_rhs => rw [← List.zipIdx_map_fst 0 (items.zip rows)]
    simp only [drawnEntries, List.map_map]
    rfl
  rw [hmap, List.map_fst_zip (Nat.le_of_eq h)]

/-- A new batch has an attempt for each item of its selection. -/
theorem roster_accept {casefold : Text → Text} {tree : FileTree} {drawn : Draws} {a : Acceptance}
    {request : BatchRequest} {s t opened entered : Store} {chosen : Selection}
    {rows : List PlanRow} (ha : a.batchId = drawn.batch) (hgrounded : Grounded s)
    (h : Stages layout casefold tree drawn a request s t chosen rows opened entered) :
    chosen.items.length = rows.length ∧ Roster t drawn.batch chosen.items := by
  obtain ⟨rules, _, hplan⟩ := bind_eq_ok.mp h.planned
  obtain ⟨company, _, hforeseen⟩ := plan_foreseen hplan
  have hlength : chosen.items.length = rows.length := by simpa using hforeseen.length_eq
  have hrows := acceptAll_entered _ h.entering
  have hattempt : t.attempt = entered.attempt := by rw [h.launching]
  have hsame : opened.attempt = s.attempt := by rw [h.opening]
  refine ⟨hlength, (drawnEntries drawn chosen.items rows).map fun e => (e.2, e.1.1), ?_, ?_, ?_⟩
  · rw [List.map_map]
    exact hrows.distinct
  · rw [List.map_map]
    exact drawnEntries_items hlength
  · intro id item
    rw [List.mem_map, hattempt]
    constructor
    · rintro ⟨e, he, heq⟩
      cases heq
      obtain ⟨occupied, hrow⟩ := hrows.rows e he
      exact ⟨_, hrow, ha, rfl⟩
    · rintro ⟨b, hb, hbatch, rfl⟩
      by_cases hid : id ∈ (drawnEntries drawn chosen.items rows).map (·.2)
      · obtain ⟨e, he, rfl⟩ := List.mem_map.mp hid
        obtain ⟨occupied, hrow⟩ := hrows.rows e he
        cases hb.symm.trans hrow
        exact ⟨e, he, rfl⟩
      · rw [hrows.others id hid, hsame] at hb
        exact absurd h.unused (hbatch ▸ hgrounded.filed id b hb)

/-- Selections are kept under their identifiers and are not empty. -/
structure Chosen (s : Store) : Prop where
  key : Keyed (·.selectionId) s.selection
  nonempty : ∀ (id : Text) found, s.selection[id]? = some found → found.items ≠ []

theorem Chosen.put {s t : Store} {id : Text} {found : Selection} (h : Chosen s)
    (hput : t.selection = s.selection.insert id found) (hid : found.selectionId = id)
    (hitems : found.items ≠ []) : Chosen t := by
  refine ⟨hput ▸ h.key.put hid, fun k c hc => ?_⟩
  rw [hput, get_put] at hc
  split at hc
  · cases hc
    exact hitems
  · exact h.nonempty k c hc

/-- The batch `k` has one attempt for each item of its selection. -/
structure Full (s : Store) (k : Text) (b : Batch) (found : Selection) : Prop where
  selection : s.selection[b.selectionId]? = some found
  count : b.selectedCount = found.items.length
  roster : Roster s k found.items

structure Batched (s : Store) : Prop extends Chosen s where
  full : ∀ (k : Text) b, s.batch[k]? = some b → ∃ found, Full s k b found

theorem Full.put {s t : Store} {k id : Text} {b : Batch} {found created : Selection}
    (h : Full s k b found) (hadvances : Advances s t k)
    (hput : t.selection = s.selection.insert id created)
    (hitems : ∀ c, s.selection[id]? = some c → created.items = c.items) :
    ∃ found, Full t k b found := by
  have hroster := h.roster.advance hadvances
  by_cases hid : id = b.selectionId
  · have hsame := hitems found (hid ▸ h.selection)
    refine ⟨created, ?_, ?_, ?_⟩
    · rw [hput, get_put, if_pos hid]
    · rw [h.count, hsame]
    · rw [hsame]
      exact hroster
  · refine ⟨found, ?_, h.count, hroster⟩
    rw [hput, get_put, if_neg hid]
    exact h.selection

theorem batched_step {s t : Store} (hgrounded : Grounded s) (h : Batched s) (hk : Kind v s t) :
    Batched t := by
  have hadvances : ∀ {k : Text} {b : Batch}, s.batch[k]? = some b → Advances s t k :=
    fun hb => hk.advances hb
  cases hk with
  | quiet _ hbatch hselection =>
    refine ⟨⟨hselection ▸ h.key, fun k c hc => h.nonempty k c (hselection ▸ hc)⟩, fun k b hb => ?_⟩
    rw [hbatch] at hb
    obtain ⟨found, hfull⟩ := h.full k b hb
    exact ⟨found, hselection ▸ hfull.selection, hfull.count, hfull.roster.advance (hadvances hb)⟩
  | @selected created hitems hfresh ht =>
    have hput : t.selection = s.selection.insert created.selectionId created := by rw [ht]
    refine ⟨h.toChosen.put hput rfl hitems, fun k b hb => ?_⟩
    have hold : s.batch[k]? = some b := by rw [← hb, ht]
    obtain ⟨found, hfull⟩ := h.full k b hold
    refine hfull.put (hadvances hold) hput fun c hc => ?_
    cases hfresh.symm.trans hc
  | @accepted tree drawn a request chosen rows opened entered ha hstages =>
    have hframe := acceptAll_frame _ hstages.entering
    have hput : t.selection = s.selection.insert chosen.selectionId
        { chosen with batchId := some drawn.batch } := by
      rw [hstages.launching, hframe.1, hstages.opening]
    have hbatch : t.batch = s.batch.insert drawn.batch
        (acceptedBatch a chosen request.previewId (ruleSet s chosen.companyId) rows) := by
      rw [hstages.launching, hframe.2.1, hstages.opening]
    have hkey : chosen.selectionId = request.selectionId := h.key _ _ hstages.found
    have hitems : chosen.items ≠ [] := h.nonempty _ _ hstages.found
    refine ⟨h.toChosen.put hput rfl hitems, fun k b hb => ?_⟩
    rw [hbatch, get_put] at hb
    split at hb
    · rename_i hnew
      cases hb
      obtain ⟨hlength, hroster⟩ := roster_accept ha hgrounded hstages
      refine ⟨{ chosen with batchId := some drawn.batch }, ?_, hlength.symm, hnew ▸ hroster⟩
      rw [hput, get_put, if_pos]
      rfl
    · obtain ⟨found, hfull⟩ := h.full k b hb
      refine hfull.put (hadvances hb) hput fun c hc => ?_
      rw [hkey, hstages.found] at hc
      cases hc
      rfl

theorem run_batched {P : World → World → Prop} {m : Machine World Cmd Op Val Exn Reply}
    (h : Run v P m) : Batched m.state.store := by
  induction h with
  | init hs => exact ⟨⟨by simp [Keyed, hs.selection], by simp [hs.selection]⟩, by simp [hs.batch]⟩
  | tail hm _ hstep ih => exact batched_step (run_grounded hm) ih (step_kind hm hstep)

/-! The value of a batch. -/

/-- The value that `Context.batch` builds of a batch and its attempts. -/
def valueOf (batch : Batch) (attempts : List Attempt) : BatchView :=
  let outcomes := attempts.map (·.outcome)
  let counts := outcomeCounts outcomes
  { batch := batch
    outcomes := outcomes
    counts := counts
    completedCount := counts.completed
    startedAt := (outcomes.filterMap (·.startedAt)).min?
    finishedAt :=
      if counts.completed = batch.selectedCount then (outcomes.filterMap (·.finishedAt)).max?
      else none
    status := batchStatus batch.selectedCount counts (outcomes.filterMap (·.startedAt)) }

theorem batchView_eq_ok {s : Store} {k : Text} {view : BatchView} :
    batchView s k = .ok view ↔
      ∃ b, s.batch[k]? = some b ∧ view = valueOf b (attemptsOf s k) := by
  constructor
  · intro h
    obtain ⟨b, hb, h⟩ := bind_eq_ok.mp h
    cases h
    exact ⟨b, require_eq_ok.mp hb, rfl⟩
  · rintro ⟨b, hb, rfl⟩
    exact bind_eq_ok.mpr ⟨b, require_eq_ok.mpr hb, rfl⟩

theorem completed_eq_countP (l : List Attempt) :
    (outcomeCounts (l.map (·.outcome))).completed = l.countP fun a => ended a.outcome.state := by
  induction l with
  | nil => rfl
  | cons a l ih =>
    rw [List.countP_cons, ← ih]
    simp only [outcomeCounts, OutcomeCounts.completed, List.map_cons, List.countP_cons]
    cases a.outcome.state <;> simp [ended] <;> omega

section Value

variable {b : Batch} {l : List Attempt}

theorem completed_eq_done (h : ∀ a ∈ l, Agrees a) :
    (valueOf b l).completedCount = l.countP (·.phase = .done) := by
  refine (completed_eq_countP l).trans (List.countP_congr fun a ha => ?_)
  rw [decide_eq_true_eq]
  exact (h a ha).ended.symm

theorem completed_iff (h : ∀ a ∈ l, Agrees a) (hlength : l.length = b.selectedCount) :
    (valueOf b l).completedCount = b.selectedCount ↔ ∀ a ∈ l, a.phase = .done := by
  rw [completed_eq_done h, ← hlength, List.countP_eq_length]
  simp only [decide_eq_true_eq]

theorem status_ended : ((valueOf b l).status = .completed ∨
    (valueOf b l).status = .completedWithIssues) ↔
      (valueOf b l).completedCount = b.selectedCount := by
  simp only [valueOf, batchStatus]
  split
  · rename_i hall
    refine iff_of_true ?_ hall
    split
    · exact .inl rfl
    · exact .inr rfl
  · rename_i hall
    refine iff_of_false ?_ hall
    split
    · simp
    · split
      · simp
      · simp

theorem status_sorted (h : ∀ a ∈ l, Agrees a) (hlength : l.length = b.selectedCount) :
    (valueOf b l).status = .completed ↔ ∀ a ∈ l, a.outcome.state = .sorted := by
  have hsorted : (outcomeCounts (l.map (·.outcome))).sorted = l.length ↔
      ∀ a ∈ l, a.outcome.state = .sorted := by
    simp only [outcomeCounts, List.countP_map]
    rw [List.countP_eq_length]
    simp
  have hcompleted : (valueOf b l).status = .completed ↔
      (valueOf b l).completedCount = b.selectedCount ∧
        (outcomeCounts (l.map (·.outcome))).sorted = (valueOf b l).completedCount := by
    simp only [valueOf, batchStatus]
    split
    · rename_i hall
      split
      · rename_i hsame
        exact iff_of_true rfl ⟨hall, hsame⟩
      · rename_i hother
        exact iff_of_false (by simp) fun hboth => hother hboth.2
    · rename_i hopen
      refine iff_of_false ?_ fun hboth => hopen hboth.1
      split
      · simp
      · split
        · simp
        · simp
  rw [hcompleted, ← hsorted, hlength]
  constructor
  · rintro ⟨hall, hsame⟩
    exact hsame.trans hall
  · intro hall
    have hdone : ∀ a ∈ l, a.phase = .done := by
      intro a ha
      have hstate := hsorted.mp (hall.trans hlength.symm) a ha
      exact (h a ha).ended.mpr (by rw [hstate]; rfl)
    have hcount := (completed_iff (b := b) h hlength).mpr hdone
    exact ⟨hcount, hall.trans hcount.symm⟩

theorem finished_iff (h : ∀ a ∈ l, Agrees a) (hlength : l.length = b.selectedCount)
    (hsome : l ≠ []) : (valueOf b l).finishedAt ≠ none ↔ ∀ a ∈ l, a.phase = .done := by
  rw [← completed_iff (b := b) h hlength]
  constructor
  · intro hfinished
    by_contra hopen
    exact hfinished (if_neg hopen)
  · intro hall
    have hdone := (completed_iff (b := b) h hlength).mp hall
    obtain ⟨a, rest, rfl⟩ := List.exists_cons_of_ne_nil hsome
    have ha : a ∈ a :: rest := List.mem_cons_self ..
    obtain ⟨time, htime⟩ := Option.ne_none_iff_exists'.mp ((h a ha).finished (hdone a ha))
    have hvalue : (valueOf b (a :: rest)).finishedAt =
        (((a :: rest).map (·.outcome)).filterMap (·.finishedAt)).max? := if_pos hall
    rw [hvalue, ne_eq, List.max?_eq_none_iff]
    exact List.ne_nil_of_mem (List.mem_filterMap.mpr ⟨_, List.mem_map_of_mem ha, htime⟩)

end Value

/-! Runs. -/

theorem mem_attemptsOf {s : Store} (hkey : Keyed Attempt.attemptId s.attempt) {k : Text}
    {a : Attempt} :
    a ∈ attemptsOf s k ↔ s.attempt[a.attemptId]? = some a ∧ a.batchId = k := by
  unfold attemptsOf
  rw [List.mem_filter, mem_list, decide_eq_true_eq]
  constructor
  · rintro ⟨⟨id, ha⟩, hk⟩
    exact ⟨hkey id a ha ▸ ha, hk⟩
  · rintro ⟨ha, hk⟩
    exact ⟨⟨_, ha⟩, hk⟩

theorem attemptsOf_nodup {s : Store} (hkey : Keyed Attempt.attemptId s.attempt) (k : Text) :
    ((attemptsOf s k).map (·.attemptId)).Nodup :=
  (list_keys_nodup hkey).sublist (List.filter_sublist.map _)

theorem attempts_perm {s : Store} (hkey : Keyed Attempt.attemptId s.attempt) {k : Text}
    {items : List QueueItem} (h : Roster s k items) :
    ((attemptsOf s k).map (·.item)).Perm items := by
  obtain ⟨roster, hnodup, rfl, hmem⟩ := h
  have hpairs : ((attemptsOf s k).map fun a => (a.attemptId, a.item)).Perm roster := by
    refine (List.perm_ext_iff_of_nodup ?_ (List.Nodup.of_map _ hnodup)).mpr ?_
    · refine List.Nodup.of_map Prod.fst ?_
      rw [List.map_map]
      exact attemptsOf_nodup hkey k
    · rintro ⟨id, item⟩
      rw [hmem, List.mem_map]
      constructor
      · rintro ⟨a, ha, heq⟩
        cases heq
        obtain ⟨hstored, hk⟩ := (mem_attemptsOf hkey).mp ha
        exact ⟨a, hstored, hk, rfl⟩
      · rintro ⟨a, ha, hk, rfl⟩
        have hid := hkey id a ha
        subst hid
        exact ⟨a, (mem_attemptsOf hkey).mpr ⟨ha, hk⟩, rfl⟩
  have hitems := hpairs.map Prod.snd
  rwa [List.map_map] at hitems

theorem attemptsOf_ended {s t : Store} {k : Text} (h : Advances s t k)
    (hkey : Keyed Attempt.attemptId s.attempt) (hdone : ∀ a ∈ attemptsOf s k, a.phase = .done) :
    attemptsOf t k = attemptsOf s k := by
  have hlisted : ∀ u : Store, attemptsOf u k =
      (u.attempt.toList.filter fun e => e.2.batchId = k).map Prod.snd := by
    intro u
    unfold attemptsOf list
    rw [List.filter_map]
    rfl
  have hsame : ∀ (id : Text) a, a.batchId = k →
      (t.attempt[id]? = some a ↔ s.attempt[id]? = some a) := by
    have hkept : ∀ (id : Text) a, a.batchId = k → s.attempt[id]? = some a →
        t.attempt[id]? = some a := by
      intro id a hk ha
      have hid := hkey id a ha
      subst hid
      obtain ⟨b, hb, _, _, hend⟩ := h.forward _ a ha hk
      rwa [hend (hdone a ((mem_attemptsOf hkey).mpr ⟨ha, hk⟩))] at hb
    refine fun id a hk => ⟨fun ha => ?_, hkept id a hk⟩
    obtain ⟨c, hc, hck⟩ := h.back id a ha hk
    rwa [Option.some.inj (ha.symm.trans (hkept id c hck hc))]
  rw [hlisted, hlisted]
  congr 1
  have hirrefl : Std.Irrefl fun a b : Text × Attempt => compare a.1 b.1 = .lt :=
    ⟨fun a => by simp⟩
  have hantisymm : Std.Antisymm fun a b : Text × Attempt => compare a.1 b.1 = .lt :=
    ⟨fun a b hab hba => by
      have hswap : compare a.1 b.1 = (compare b.1 a.1).swap := Std.OrientedCmp.eq_swap
      rw [hswap, hba] at hab
      cases hab⟩
  refine List.Pairwise.eq_of_mem_iff (r := fun a b : Text × Attempt => compare a.1 b.1 = .lt)
    (Std.ExtTreeMap.ordered_keys_toList.filter _) (Std.ExtTreeMap.ordered_keys_toList.filter _) ?_
  rintro ⟨id, a⟩
  rw [List.mem_filter, List.mem_filter, Std.ExtTreeMap.mem_toList_iff_getElem?_eq_some,
    Std.ExtTreeMap.mem_toList_iff_getElem?_eq_some, decide_eq_true_eq]
  exact and_congr_left (hsame id a)

theorem done_mono {s t : Store} {k : Text} (h : Advances s t k)
    (hs : Keyed Attempt.attemptId s.attempt) (ht : Keyed Attempt.attemptId t.attempt) :
    (attemptsOf s k).countP (·.phase = .done) ≤ (attemptsOf t k).countP (·.phase = .done) := by
  rw [List.countP_eq_length_filter, List.countP_eq_length_filter]
  refine (List.subperm_of_subset ?_ fun a ha => ?_).length_le
  · exact (List.Nodup.of_map _ (attemptsOf_nodup hs k)).filter _
  · obtain ⟨hmem, hdone⟩ := List.mem_filter.mp ha
    obtain ⟨hstored, hk⟩ := (mem_attemptsOf hs).mp hmem
    obtain ⟨b, hb, hbk, _, hend⟩ := h.forward _ a hstored hk
    rw [hend (of_decide_eq_true hdone)] at hb
    exact List.mem_filter.mpr ⟨(mem_attemptsOf ht).mpr ⟨hb, hk⟩, hdone⟩

/-- Any number of steps of the service. -/
def Later (v : Service) (m n : Machine World Cmd Op Val Exn Reply) : Prop :=
  Relation.ReflTransGen (fun m n => ∃ e, (system v).step m e = some n) m n

theorem later_advances {m n : Machine World Cmd Op Val Exn Reply} (h : Run v anyStep m)
    (hn : Later v m n) {k : Text} {b : Batch} (hb : m.state.store.batch[k]? = some b) :
    Run v anyStep n ∧ Advances m.state.store n.state.store k := by
  induction hn with
  | refl => exact ⟨h, .refl ..⟩
  | tail _ hstep ih =>
    obtain ⟨e, hstep⟩ := hstep
    obtain ⟨hrun, hadvances⟩ := ih
    have hnext := (step_kind hrun hstep).advances (hadvances.batch.trans hb)
    exact ⟨.tail hrun (allows_of_step fun _ _ => trivial) hstep, hadvances.trans hnext⟩

/-- The value of a batch agrees with its selection and with its attempts. -/
structure Agreement (s : Store) (k : Text) (view : BatchView) : Prop where
  count : view.outcomes.length = view.batch.selectedCount
  selected : ∃ found, s.selection[view.batch.selectionId]? = some found ∧
    (found.items.map (·.itemId)).Nodup ∧
    (view.outcomes.map fun o => (o.itemId, o.itemRevision)).Perm
      (found.items.map fun q => (q.itemId, q.itemRevision))
  completed : view.completedCount = (attemptsOf s k).countP (·.phase = .done)
  ended : (view.status = .completed ∨ view.status = .completedWithIssues) ↔
    ∀ a ∈ attemptsOf s k, a.phase = .done
  finished : view.finishedAt ≠ none ↔ ∀ a ∈ attemptsOf s k, a.phase = .done
  sorted : view.status = .completed ↔ ∀ a ∈ attemptsOf s k, a.outcome.state = .sorted

theorem agreement {m : Machine World Cmd Op Val Exn Reply} (h : Run v anyStep m) {k : Text}
    {b : Batch} (hb : m.state.store.batch[k]? = some b) :
    Agreement m.state.store k (valueOf b (attemptsOf m.state.store k)) := by
  have hkey : Keyed Attempt.attemptId m.state.store.attempt := (run_coherent h).attempt_key
  have hagree : ∀ a ∈ attemptsOf m.state.store k, Agrees a :=
    fun a ha => run_agree h _ a ((mem_attemptsOf hkey).mp ha).1
  have hbatched := run_batched h
  obtain ⟨found, hfull⟩ := hbatched.full k b hb
  have hperm := attempts_perm hkey hfull.roster
  have hlength : (attemptsOf m.state.store k).length = b.selectedCount := by
    rw [hfull.count, ← hperm.length_eq, List.length_map]
  have hsome : attemptsOf m.state.store k ≠ [] := by
    intro hnil
    rw [hnil, List.map_nil] at hperm
    exact hbatched.nonempty _ found hfull.selection hperm.nil_eq.symm
  refine ⟨?_, ⟨found, hfull.selection, ?_, ?_⟩, completed_eq_done hagree, ?_,
    finished_iff hagree hlength hsome, status_sorted hagree hlength⟩
  · exact (List.length_map _).trans hlength
  · exact (run_grounded h).distinct _ found hfull.selection
  · refine List.Perm.trans (List.Perm.of_eq ?_) (hperm.map fun q => (q.itemId, q.itemRevision))
    simp only [valueOf, List.map_map]
    refine List.map_congr_left fun a ha => ?_
    obtain ⟨hid, hrevision⟩ := (hagree a ha).named
    exact Prod.ext hid hrevision
  · exact status_ended.trans (completed_iff hagree hlength)

/-- The value of every batch agrees with its attempts, its completed count never decreases, and
a completed batch never changes again. -/
theorem batch_view {m : Machine World Cmd Op Val Exn Reply} (h : Run v anyStep m) {k : Text}
    {b : Batch} (hb : m.state.store.batch[k]? = some b) :
    ∃ view, batchView m.state.store k = .ok view ∧ Agreement m.state.store k view ∧
      ∀ n, Later v m n → ∃ later, batchView n.state.store k = .ok later ∧
        view.completedCount ≤ later.completedCount ∧
        (view.status = .completed ∨ view.status = .completedWithIssues → later = view) := by
  have hnow := agreement h hb
  refine ⟨_, batchView_eq_ok.mpr ⟨b, hb, rfl⟩, hnow, fun n hn => ?_⟩
  obtain ⟨hrun, hadvances⟩ := later_advances h hn hb
  have hb' : n.state.store.batch[k]? = some b := hadvances.batch.trans hb
  have hlater := agreement hrun hb'
  have hkey : Keyed Attempt.attemptId m.state.store.attempt := (run_coherent h).attempt_key
  refine ⟨_, batchView_eq_ok.mpr ⟨b, hb', rfl⟩, ?_, fun hended => ?_⟩
  · rw [hnow.completed, hlater.completed]
    exact done_mono hadvances hkey (run_coherent hrun).attempt_key
  · rw [attemptsOf_ended hadvances hkey (hnow.ended.mp hended)]

/-- The batch of one file that is moved. -/
theorem batch_view_small : ∃ m view,
    (system small).run (checkStep small fun _ _ => true) DurableMove.smallMove
      ⟨smallWorld true [("in/a.t", ⟨1, 7, 3, 0⟩)], none⟩ = some m ∧
    batchView m.state.store ['b'] = .ok view ∧ view.completedCount = 1 ∧
    Agreement m.state.store ['b'] view := by
  have hrun : ((system small).run (checkStep small fun _ _ => true) DurableMove.smallMove
      ⟨smallWorld true [("in/a.t", ⟨1, 7, 3, 0⟩)], none⟩).any
      (fun m => (m.state.store.batch[['b']]?).isSome ∧
        (batchView m.state.store ['b']).toOption.map (·.completedCount) = some 1) = true := by
    decide +kernel
  obtain ⟨m, hm, hstate⟩ := (Option.any_eq_true _ _).mp hrun
  obtain ⟨hbatch, hcount⟩ := of_decide_eq_true hstate
  obtain ⟨b, hb⟩ := Option.isSome_iff_exists.mp hbatch
  have hreached := run_checked (v := small) (P := anyStep) (fun _ _ _ => trivial)
    (smallWorld_start _ _) hm
  obtain ⟨view, hview, hagreement, _⟩ := batch_view hreached hb
  refine ⟨m, view, hm, hview, ?_, hagreement⟩
  rw [hview] at hcount
  exact Option.some.inj hcount

end BatchProgress
