import WiseWay.ClaimExclusivity

/-! # What an accepted batch starts with

The planner looks at every destination once, before anything moves. An acceptance checks
every source in the same tree and stores the rows with the attempts. -/
namespace PlannedBatch

open Records Services AtomicProgram AtomicProgram.Discipline Calls Intake AttemptTransactions
open SortingSystem Effects Changes LockContract ReturnContract Fallible

variable {v : Service} {layout : Layout} {tree : FileTree}

/-! The planner. -/

/-- The planner found the place free. -/
def FreeAt (layout : Layout) (tree : FileTree) (target : Location) : Prop :=
  existsAt layout tree target = .ok false

/-- What a row says about its item, once the rows of a pass have been compared. -/
structure Foreseen (layout : Layout) (tree : FileTree) (folder : Text) (item : PublicItem)
    (row : PlanRow) : Prop where
  filename : row.filename = item.filename
  moved : row.predictedState = .willMove → ∃ target, row.target = some target ∧
    FreeAt layout tree target
  manual : row.predictedState = .willManualReview → ∃ target,
    location layout manualRoot (Rules.join folder item.filename) = .ok target ∧
      FreeAt layout tree target

theorem planOne_row {casefold : Text → Text} {adapters : Rules.Adapters} {rules : List Rule}
    {item : PublicItem} {row : PlanRow} (h : Rules.planOne casefold adapters rules item = .ok row) :
    row.filename = item.filename ∧ (row.predictedState = .willMove → row.target ≠ none) := by
  unfold Rules.planOne at h
  split at h
  · cases h
    exact ⟨rfl, nofun⟩
  dsimp only at h
  split at h
  · cases h
    exact ⟨rfl, nofun⟩
  split at h
  · obtain ⟨target, _, h⟩ := bind_eq_ok.mp h
    cases h
    exact ⟨rfl, fun _ => nofun⟩
  · cases h
    exact ⟨rfl, nofun⟩

theorem block_row {adapters : Rules.Adapters} {row next : Rules.WorkRow} {reason : Reason}
    {kind : CollisionKind} {target : Location} {others : List Text}
    (h : Rules.block adapters row reason kind target others = .ok next) :
    next.1.filename = row.1.filename ∧ next.1.predictedState = .requiresDecision := by
  unfold Rules.block at h
  split at h
  · cases h
    exact ⟨rfl, rfl⟩
  · obtain ⟨existing, _, h⟩ := bind_eq_ok.mp h
    cases h
    exact ⟨rfl, rfl⟩

/-- What the passes keep of a row, and what the first of them has looked up. -/
structure Passed (layout : Layout) (tree : FileTree) (folder : Text) (row next : Rules.WorkRow) :
    Prop where
  filename : next.1.filename = row.1.filename
  moved : next.1.predictedState = .willMove → row.1.predictedState = .willMove ∧
    next.1.target = row.1.target
  manual : next.1.predictedState = .willManualReview → ∃ target,
    location layout manualRoot (Rules.join folder row.1.filename) = .ok target ∧
      FreeAt layout tree target

theorem manualReview_pass {folder : Text} {rows next : List Rules.WorkRow}
    (h : Rules.applyManualReviewCollisions (adapters layout tree) ⟨manualRoot, folder⟩ rows =
      .ok next) : List.Forall₂ (Passed layout tree folder) rows next := by
  refine (mapM_ok h).imp fun row row' hrow => ?_
  by_cases hstate : row.1.predictedState ≠ .willManualReview
  · rw [if_pos hstate] at hrow
    cases hrow
    exact ⟨rfl, fun hm => ⟨hm, rfl⟩, fun hm => absurd hm hstate⟩
  · rw [if_neg hstate] at hrow
    obtain ⟨target, htarget, hrow⟩ := bind_eq_ok.mp hrow
    obtain ⟨occupied, hoccupied, hrow⟩ := bind_eq_ok.mp hrow
    cases occupied with
    | true =>
      obtain ⟨hname, hstate⟩ := block_row ((if_pos rfl).symm.trans hrow)
      exact ⟨hname, by simp [hstate], by simp [hstate]⟩
    | false =>
      cases hrow
      have hmanual : row.1.predictedState = .willManualReview := not_not.mp hstate
      exact ⟨rfl, by simp [hmanual], fun _ => ⟨target, htarget, hoccupied⟩⟩

/-- A row that the second pass leaves as a move has a free target. -/
structure Compared (layout : Layout) (tree : FileTree) (row next : Rules.WorkRow) : Prop where
  filename : next.1.filename = row.1.filename
  moved : next.1.predictedState = .willMove → row.1.predictedState = .willMove ∧
    next.1.target = row.1.target ∧ ∀ target, row.1.target = some target →
      FreeAt layout tree target
  manual : next.1.predictedState = .willManualReview → row.1.predictedState = .willManualReview

theorem target_pass {rows next : List Rules.WorkRow}
    (h : Rules.applyTargetCollisions (adapters layout tree) rows = .ok next) :
    List.Forall₂ (Compared layout tree) rows next := by
  have hpairs : List.Forall₂ (fun entry row' => Compared layout tree entry.1 row') rows.zipIdx
      next := by
    refine (mapM_ok h).imp fun entry row' hrow => ?_
    obtain ⟨row, i⟩ := entry
    dsimp only at hrow
    split at hrow
    · rename_i target hstate htarget
      split at hrow
      · obtain ⟨hname, hblocked⟩ := block_row hrow
        exact ⟨hname, by simp [hblocked], by simp [hblocked]⟩
      · obtain ⟨occupied, hoccupied, hrow⟩ := bind_eq_ok.mp hrow
        cases occupied with
        | true =>
          obtain ⟨hname, hblocked⟩ := block_row ((if_pos rfl).symm.trans hrow)
          exact ⟨hname, by simp [hblocked], by simp [hblocked]⟩
        | false =>
          cases hrow
          refine ⟨rfl, fun _ => ⟨hstate, rfl, fun t ht => ?_⟩, fun hm => hm⟩
          rw [Option.some.inj (ht.symm.trans htarget)]
          exact hoccupied
    · rename_i hother
      cases hrow
      exact ⟨rfl, fun hm => ⟨hm, rfl, fun t ht => absurd ht (hother t hm)⟩, fun hm => hm⟩
  rw [← List.zipIdx_map_fst 0 rows, List.forall₂_map_left_iff]
  exact hpairs

/-- Every row of a plan foresees a destination that is free when it is planned. -/
theorem plan_foreseen {casefold : Text → Text} {items : List PublicItem} {rules : List Rule}
    {companyId : Text} {rows : List PlanRow}
    (h : plan layout casefold tree items rules companyId = .ok rows) :
    ∃ company, layout.company companyId = some company ∧
      List.Forall₂ (Foreseen layout tree company.folder) items rows := by
  obtain ⟨company, hcompany, h⟩ := bind_eq_ok.mp h
  obtain ⟨planned, hplanned, h⟩ := bind_eq_ok.mp h
  obtain ⟨reviewed, hreviewed, h⟩ := bind_eq_ok.mp h
  obtain ⟨compared, hcompared, h⟩ := bind_eq_ok.mp h
  cases h
  have hrow : layout.company companyId = some company := by
    unfold requireCompany at hcompany
    split at hcompany
    · rename_i heq
      cases hcompany
      exact heq
    · cases hcompany
  refine ⟨company, hrow, List.forall₂_map_right_iff.mpr ?_⟩
  refine (forall₂_comp (forall₂_comp (mapM_ok hplanned) (manualReview_pass hreviewed))
    (target_pass hcompared)).imp ?_
  rintro item row ⟨row₂, ⟨row₁, hone, hpassed⟩, hcompare⟩
  obtain ⟨first, hfirst, hone⟩ := bind_eq_ok.mp hone
  cases hone
  obtain ⟨hname, htarget⟩ := planOne_row hfirst
  refine ⟨hcompare.filename.trans (hpassed.filename.trans hname), fun hm => ?_, fun hm => ?_⟩
  · obtain ⟨hm₂, ht₂, hfree⟩ := hcompare.moved hm
    obtain ⟨hm₁, ht₁⟩ := hpassed.moved hm₂
    obtain ⟨target, ht⟩ := Option.ne_none_iff_exists'.mp (htarget hm₁)
    have ht₂' : row₂.1.target = some target := ht₁.trans ht
    exact ⟨target, ht₂.trans ht₂', hfree target ht₂'⟩
  · obtain ⟨target, hloc, hfree⟩ := hpassed.manual (hcompare.manual hm)
    exact ⟨target, hname ▸ hloc, hfree⟩

/-! The acceptance. -/

def attemptsOf (s : Store) (batchId : Text) : List Attempt :=
  (list s.attempt).filter (·.batchId = batchId)

/-- A queued attempt whose file was at its source and whose destination was free. -/
structure Prepared (layout : Layout) (tree : FileTree) (a : Attempt) : Prop where
  queued : a.phase = .queued
  source : ∃ path, Services.physical layout a.item.source = .ok path ∧
    stat tree path = .ok (some a.item.fingerprint)
  moved : a.plan.predictedState = .willMove → ∃ target, a.plan.target = some target ∧
    FreeAt layout tree target
  manual : a.plan.predictedState = .willManualReview → ∃ target,
    manualTarget layout a = .ok target ∧ FreeAt layout tree target

theorem join_folder (company : Company) (filename : Text) :
    Rules.join company.folder filename = company.folder ++ '/' :: filename := by
  have hlast : company.folder.rdropWhile (· = '/') = company.folder := by
    refine List.rdropWhile_eq_self_iff.mpr fun hne => ?_
    have := List.getLast_mem hne
    simp only [decide_eq_true_eq]
    intro heq
    exact company.folder_component (heq ▸ this)
  simp [Rules.join, company.folder_nonempty, hlast]

theorem acceptOne_free {a : Acceptance} {s t : Store} {saved : QueueItem} {row : PlanRow}
    {id : Text} (hfree : s.claim[saved.itemId]? = none)
    (h : acceptOne a s ((saved, row), id) = .ok t) :
    ∃ item, s.attempt[id]? = none ∧ s.queue[saved.itemId]? = some item ∧ t = { s with
      attempt := s.attempt.insert id (acceptedAttempt a id false saved row)
      claim := s.claim.insert saved.itemId ⟨id, a.batchId⟩
      queue := s.queue.insert item.itemId (claimedItem id item) } := by
  obtain ⟨attempts, hnew, h⟩ := bind_eq_ok.mp h
  obtain ⟨hid, rfl⟩ := insertNew_eq_ok.mp hnew
  simp only [hfree, Option.isSome_none, Bool.false_eq_true, if_false] at h
  obtain ⟨item, hitem, h⟩ := bind_eq_ok.mp h
  cases h
  exact ⟨item, hid, require_eq_ok.mp hitem, rfl⟩

/-- The rows of the attempts that a list of entries becomes. -/
def Adds (a : Acceptance) (entries : List ((QueueItem × PlanRow) × Text)) (s t : Store) : Prop :=
  ∀ (k : Text) b, t.attempt[k]? = some b ↔ s.attempt[k]? = some b ∨
    ∃ e ∈ entries, k = e.2 ∧ b = acceptedAttempt a e.2 false e.1.1 e.1.2

/-- No row of the queue disappears. -/
def QueueKept (s t : Store) : Prop :=
  ∀ (k : Text) q, s.queue[k]? = some q → ∃ q', t.queue[k]? = some q'

theorem QueueKept.trans {s t u : Store} (h : QueueKept s t) (h' : QueueKept t u) :
    QueueKept s u := fun k q hq => let ⟨q', hq'⟩ := h k q hq; h' k q' hq'

theorem queueKept_insert {s t : Store} {key : Text} {q : QueueItem}
    (h : t.queue = s.queue.insert key q) : QueueKept s t := by
  intro k q' hq'
  rw [h, get_put]
  split
  · exact ⟨_, rfl⟩
  · exact ⟨q', hq'⟩

/-- Distinct items that nobody has claimed all become queued attempts. -/
theorem acceptAll_free {a : Acceptance} : ∀ (entries : List ((QueueItem × PlanRow) × Text))
    {s t : Store}, (entries.map (·.1.1.itemId)).Nodup →
    (∀ e ∈ entries, s.claim[e.1.1.itemId]? = none) → entries.foldlM (acceptOne a) s = .ok t →
    Adds a entries s t ∧ QueueKept s t ∧ ∀ e ∈ entries, ∃ q, t.queue[e.1.1.itemId]? = some q
  | [], s, t, _, _, h => by
    cases h
    exact ⟨fun k b => by simp, fun k q hq => ⟨q, hq⟩, by simp⟩
  | ((saved, row), id) :: entries, s, t, hnodup, hfree, h => by
    rw [List.foldlM_cons] at h
    obtain ⟨u, hu, h⟩ := bind_eq_ok.mp h
    obtain ⟨item, hid, hitem, rfl⟩ := acceptOne_free (hfree _ (List.mem_cons_self ..)) hu
    rw [List.map_cons, List.nodup_cons] at hnodup
    have hrest : ∀ e ∈ entries,
        (s.claim.insert saved.itemId ⟨id, a.batchId⟩)[e.1.1.itemId]? = none := by
      intro e he
      rw [get_put, if_neg]
      · exact hfree e (List.mem_cons_of_mem _ he)
      · intro heq
        exact hnodup.1 (List.mem_map.mpr ⟨e, he, heq.symm⟩)
    obtain ⟨hadds, hkept, hrows⟩ := acceptAll_free entries hnodup.2 hrest h
    have hfirst : QueueKept s t := (queueKept_insert rfl).trans hkept
    refine ⟨fun k b => ?_, hfirst, fun e he => ?_⟩
    · rw [hadds k b, get_put]
      by_cases hk : id = k
      · subst hk
        simp [hid, eq_comm]
      · simp [hk, Ne.symm hk]
    · rcases List.mem_cons.mp he with rfl | he
      · exact hfirst _ item hitem
      · exact hrows e he

structure Acceptable (layout : Layout) (casefold : Text → Text) (tree : FileTree) (drawn : Draws)
    (s t : Store) (selection : Selection) (rows : List PlanRow) (a : Acceptance) : Prop where
  found : ∃ id : Text, s.selection[id]? = some selection
  checked : ∀ saved ∈ selection.items, checkItem layout tree s saved = .ok ()
  planned : selectionPlan layout casefold tree selection s = .ok rows
  company : a.companyId = selection.companyId
  batch : a.batchId = drawn.batch
  unused : s.batch[drawn.batch]? = none
  entered : ∃ s₁ u : Store, s₁.attempt = s.attempt ∧ s₁.claim = s.claim ∧ s₁.queue = s.queue ∧
    (drawnEntries drawn selection.items rows).foldlM (acceptOne a) s₁ = .ok u ∧
    t = { u with selection := t.selection }

theorem accept_acceptable {casefold : Text → Text} {drawn : Draws} {now : Time}
    {actor requestId : Text} {request : BatchRequest} {s t : Store}
    (h : accept layout casefold tree drawn now actor requestId request s = .ok t) :
    ∃ selection rows a, Acceptable layout casefold tree drawn s t selection rows a := by
  obtain ⟨chosen, rows, opened, entered, hstages⟩ := accept_stages h
  obtain rfl := hstages.opening
  obtain rfl := hstages.launching
  refine ⟨chosen, rows, _, ⟨request.selectionId, hstages.found⟩, hstages.checked, hstages.planned,
    ?_, ?_, hstages.unused, _, entered, ?_, ?_, ?_, hstages.entering, rfl⟩
  all_goals rfl

/-! Which attempts a batch has. -/

/-- Attempts belong to stored batches, and no selection names an item twice. -/
structure Grounded (s : Store) : Prop where
  filed : ∀ (id : Text) a, s.attempt[id]? = some a → s.batch[a.batchId]? ≠ none
  distinct : ∀ (id : Text) found, s.selection[id]? = some found →
    (found.items.map (·.itemId)).Nodup

theorem Grounded.keep {s t : Store} (h : Grounded s)
    (hattempt : ∀ (id : Text) a, t.attempt[id]? = some a →
      ∃ b, s.attempt[id]? = some b ∧ a.batchId = b.batchId)
    (hbatch : t.batch = s.batch) (hselection : t.selection = s.selection) : Grounded t := by
  refine ⟨fun id a ha => ?_, fun id found hfound => h.distinct id found (hselection ▸ hfound)⟩
  obtain ⟨b, hb, hsame⟩ := hattempt id a ha
  rw [hbatch, hsame]
  exact h.filed id b hb

theorem Grounded.same {s t : Store} (h : Grounded s) (hattempt : t.attempt = s.attempt)
    (hbatch : t.batch = s.batch) (hselection : t.selection = s.selection) : Grounded t :=
  h.keep (fun _ a ha => ⟨a, hattempt ▸ ha, rfl⟩) hbatch hselection

theorem batch_put {s t : Store} {id : Text} {a b : Attempt} (ha : s.attempt[id]? = some a)
    (hput : t.attempt = s.attempt.insert id b) (hbatch : b.batchId = a.batchId) (k : Text)
    (c : Attempt) (hc : t.attempt[k]? = some c) :
    ∃ d, s.attempt[k]? = some d ∧ c.batchId = d.batchId := by
  rw [hput, get_put] at hc
  split at hc
  · rename_i hk
    cases hc
    exact ⟨a, hk ▸ ha, hbatch⟩
  · exact ⟨c, hc, rfl⟩

@[simp] theorem startAttempt_batch (a : Attempt) (now : Time) (target : Option Location) :
    (startAttempt a now target).1.batchId = a.batchId := by
  unfold startAttempt
  split <;> rfl

theorem grounded_effect {w t : World} (h : Grounded w.store) (he : Effect layout w t) :
    Grounded t.store := by
  cases he with
  | requeued ha => exact h.keep (batch_put ha rfl rfl) rfl rfl
  | rearmed ha => exact h.keep (batch_put ha rfl rfl) rfl rfl
  | intended ha => exact h.keep (batch_put ha rfl (by simp [intendedAttempt])) rfl rfl
  | quarantineIntended ha => exact h.keep (batch_put ha rfl rfl) rfl rfl
  | finished ha => exact h.keep (batch_put ha rfl (by simp [finishedAttempt])) rfl rfl
  | locked ha => exact h.keep (batch_put ha rfl (by simp [lockedAttempt])) rfl rfl
  | _ => exact h.same rfl rfl rfl

theorem explicitItems_distinct {s : Store} {companyId : Text} : ∀ (items : List (Text × ℕ))
    {seen : List Text} {found : List QueueItem},
    explicitItems s companyId items seen = .ok found →
      (found.map (·.itemId)).Nodup ∧ ∀ q ∈ found, q.itemId ∉ seen
  | [], seen, found, h => by
    cases h
    simp
  | (itemId, revision) :: items, seen, found, h => by
    unfold explicitItems at h
    split at h
    · cases h
    · rename_i item _
      split at h
      · cases h
      · rename_i hadmitted
        obtain ⟨rest, hrest, h⟩ := bind_eq_ok.mp h
        cases h
        obtain ⟨hnodup, hunseen⟩ := explicitItems_distinct items hrest
        simp only [not_or] at hadmitted
        rw [List.map_cons, List.nodup_cons]
        refine ⟨⟨fun hmem => ?_, hnodup⟩, fun q hq => ?_⟩
        · obtain ⟨q, hq, hid⟩ := List.mem_map.mp hmem
          exact hunseen q hq (hid ▸ List.mem_cons_self ..)
        · rcases List.mem_cons.mp hq with rfl | hq
          · exact hadmitted.2.1
          · exact fun hseen => hunseen q hq (List.mem_cons_of_mem _ hseen)

theorem selectedItems_distinct {casefold : Text → Text} {request : SelectionRequest} {s : Store}
    {found : List QueueItem} (hqueue : Keyed (·.itemId) s.queue)
    (h : selectedItems casefold request s = .ok found) : (found.map (·.itemId)).Nodup := by
  unfold selectedItems at h
  split at h
  · exact (explicitItems_distinct _ h).1
  · dsimp only at h
    split at h
    · cases h
    · cases h
      refine List.Nodup.sublist (List.filter_sublist.map _) ?_
      refine ((List.perm_insertionSort _ _).map _).nodup_iff.mpr ?_
      exact (list_keys_nodup hqueue).sublist
        ((List.filter_sublist.trans List.filter_sublist).map _)

theorem selection_distinct {casefold : Text → Text} {settings : Settings}
    {selectionId actor : Text} {now : Time} {request : SelectionRequest} {s t : Store}
    (hqueue : Keyed (·.itemId) s.queue)
    (h : selection layout casefold settings selectionId actor now request s = .ok t) :
    ∃ created, (created.items.map (·.itemId)).Nodup ∧
      t = { s with selection := s.selection.insert selectionId created } := by
  obtain ⟨⟨⟩, _, h⟩ := bind_eq_ok.mp h
  obtain ⟨items, hitems, h⟩ := bind_eq_ok.mp h
  by_cases hempty : items = []
  · simp [hempty, bind, Except.bind] at h
  by_cases hlimit : settings.maxBatchItems < items.length
  · simp [hempty, hlimit, bind, Except.bind] at h
  · simp only [hempty, hlimit, if_false] at h
    cases h
    exact ⟨_, selectedItems_distinct hqueue hitems, rfl⟩

theorem acceptOne_row {a : Acceptance} {s t : Store} {e : (QueueItem × PlanRow) × Text}
    (h : acceptOne a s e = .ok t) : s.attempt[e.2]? = none ∧ ∃ occupied,
      t.attempt = s.attempt.insert e.2 (acceptedAttempt a e.2 occupied e.1.1 e.1.2) := by
  obtain ⟨⟨saved, row⟩, id⟩ := e
  obtain ⟨attempts, hnew, h⟩ := bind_eq_ok.mp h
  obtain ⟨hfree, rfl⟩ := insertNew_eq_ok.mp hnew
  split at h
  · cases h
    exact ⟨hfree, _, rfl⟩
  · obtain ⟨item, _, h⟩ := bind_eq_ok.mp h
    cases h
    exact ⟨hfree, _, rfl⟩

/-- What the entries of a batch become: attempts under new identifiers. -/
structure Entered (a : Acceptance) (entries : List ((QueueItem × PlanRow) × Text)) (s t : Store) :
    Prop where
  distinct : (entries.map (·.2)).Nodup
  fresh : ∀ e ∈ entries, s.attempt[e.2]? = none
  rows : ∀ e ∈ entries, ∃ occupied,
    t.attempt[e.2]? = some (acceptedAttempt a e.2 occupied e.1.1 e.1.2)
  others : ∀ k : Text, k ∉ entries.map (·.2) → t.attempt[k]? = s.attempt[k]?

theorem acceptAll_entered {a : Acceptance} : ∀ (entries : List ((QueueItem × PlanRow) × Text))
    {s t : Store}, entries.foldlM (acceptOne a) s = .ok t → Entered a entries s t
  | [], s, t, h => by
    cases h
    exact ⟨List.nodup_nil, by simp, by simp, fun _ _ => rfl⟩
  | e :: entries, s, t, h => by
    rw [List.foldlM_cons] at h
    obtain ⟨u, hu, h⟩ := bind_eq_ok.mp h
    obtain ⟨hfree, occupied, hput⟩ := acceptOne_row hu
    obtain ⟨hdistinct, hfresh, hrows, hothers⟩ := acceptAll_entered entries h
    have hnew : e.2 ∉ entries.map (·.2) := by
      intro hmem
      obtain ⟨e', he', heq⟩ := List.mem_map.mp hmem
      have hnone := hfresh e' he'
      rw [hput, get_put, if_pos heq.symm] at hnone
      cases hnone
    refine ⟨List.nodup_cons.mpr ⟨hnew, hdistinct⟩, fun e' he' => ?_, fun e' he' => ?_,
      fun k hk => ?_⟩
    · rcases List.mem_cons.mp he' with rfl | he'
      · exact hfree
      · have hnone := hfresh e' he'
        rw [hput, get_put] at hnone
        split at hnone
        · cases hnone
        · exact hnone
    · rcases List.mem_cons.mp he' with rfl | he'
      · refine ⟨occupied, ?_⟩
        rw [hothers _ hnew, hput, get_put, if_pos rfl]
      · exact hrows e' he'
    · rw [List.map_cons, List.mem_cons, not_or] at hk
      rw [hothers k hk.2, hput, get_put, if_neg (Ne.symm hk.1)]

theorem Entered.batches {a : Acceptance} {entries : List ((QueueItem × PlanRow) × Text)}
    {s t : Store} (h : Entered a entries s t) (k : Text) (b : Attempt)
    (hb : t.attempt[k]? = some b) : s.attempt[k]? = some b ∨ b.batchId = a.batchId := by
  by_cases hk : k ∈ entries.map (·.2)
  · obtain ⟨e, he, rfl⟩ := List.mem_map.mp hk
    obtain ⟨occupied, hrow⟩ := h.rows e he
    cases hb.symm.trans hrow
    exact .inr rfl
  · exact .inl (h.others k hk ▸ hb)

theorem grounded_accept {casefold : Text → Text} {drawn : Draws} {now : Time}
    {actor requestId : Text} {request : BatchRequest} {s t : Store} (h : Grounded s)
    (ha : accept layout casefold tree drawn now actor requestId request s = .ok t) :
    Grounded t := by
  obtain ⟨found, b, hfound, _, _, _, _, hbatch, hselection, _⟩ := accept_spec ha
  obtain ⟨chosen, rows, a, hsteps⟩ := accept_acceptable ha
  obtain ⟨s₁, u, hattempt, _, _, hu, ht⟩ := hsteps.entered
  refine ⟨fun id c hc => ?_, fun id c hc => ?_⟩
  · rw [hbatch, get_put]
    have hc : u.attempt[id]? = some c := by
      rw [ht] at hc
      exact hc
    split
    · simp
    · rename_i hother
      rcases (acceptAll_entered _ hu).batches id c hc with hc | hc
      · exact h.filed id c (hattempt ▸ hc)
      · exact absurd (hc.trans hsteps.batch).symm hother
  · rw [hselection, get_put] at hc
    split at hc
    · cases hc
      exact h.distinct _ found hfound
    · exact h.distinct id c hc

theorem run_grounded {P : World → World → Prop} {m : Machine World Cmd Op Val Exn Reply}
    (h : Run v P m) : Grounded m.state.store := by
  refine reachable_induction (D := discipline v) (fun _ => start_coherent)
    (fun c w _ => safe_body c w) (J := fun w => Grounded w.store) ?_ ?_ ?_ h
  · intro w hw
    constructor <;> simp [hw.attempt, hw.selection]
  · intro e w t hw hj _ ht
    cases e with
    | files tree => cases ht; exact hj
    | storage rootId mode => cases ht; exact hj.same rfl rfl rfl
    | dictionaries dictionary version events =>
      simp only [system, other] at ht
      split at ht
      · cases ht; exact hj.same rfl rfl rfl
      · cases ht
    | select selectionId actor now request =>
      simp only [system, other] at ht
      split at ht
      · cases ht
      · obtain ⟨s, hs, rfl⟩ := stored_eq_some ht
        obtain ⟨created, hcreated, rfl⟩ := selection_distinct hw.queue_key hs
        refine ⟨hj.filed, fun id found hfound => ?_⟩
        simp only [get_put] at hfound
        split at hfound
        · cases hfound; exact hcreated
        · exact hj.distinct id found hfound
    | preview previewId actor selectionId now =>
      simp only [system, other] at ht
      split at ht
      · cases ht
      · obtain ⟨s, hs, rfl⟩ := stored_eq_some ht
        obtain ⟨created, rfl⟩ := preview_frame hs
        exact hj.same rfl rfl rfl
    | accept drawn now actor requestId request =>
      obtain ⟨s, hs, rfl⟩ := stored_eq_some ht
      exact grounded_accept hj hs
    | scan rootId now found =>
      simp only [system, other] at ht
      split at ht
      · rename_i hfound
        obtain ⟨s, hs, rfl⟩ := Option.map_eq_some_iff.mp ht
        obtain ⟨_, _, hframe, _⟩ := scan_spec hw hfound hs
        rw [hframe]
        exact hj.same rfl rfl rfl
      · cases ht
  · intro o x w hw hj hp _
    exact grounded_effect hj (exec_effect hp)

/-! Together. -/

/-- No batch has unfinished attempts. -/
def Idle (s : Store) : Prop := ∀ (id : Text) a, s.attempt[id]? = some a → a.phase = .done

theorem unclaimed_of_idle {s : Store} (h : ClaimExclusivity.Owned s) (hidle : Idle s) (k : Text) :
    s.claim[k]? = none := by
  cases hc : s.claim[k]? with
  | none => rfl
  | some c =>
    obtain ⟨a, ha, _, hd⟩ := h.named k c hc
    exact absurd (hidle _ a ha) hd

/-- What `checkItem` says about an item that nobody has claimed. -/
theorem checkItem_source {s : Store} {saved : QueueItem} (hfree : s.claim[saved.itemId]? = none)
    (h : checkItem layout tree s saved = .ok ()) : ∃ path,
      Services.physical layout saved.source = .ok path ∧
        stat tree path = .ok (some saved.fingerprint) := by
  simp only [checkItem, hfree] at h
  cases hq : s.queue[saved.itemId]? with
  | none => simp [hq] at h
  | some q =>
    simp only [hq] at h
    split at h
    · cases h
    · obtain ⟨path, hpath, h⟩ := bind_eq_ok.mp h
      obtain ⟨observed, hobserved, h⟩ := bind_eq_ok.mp h
      split at h
      · cases h
      · rename_i hsame
        rw [not_not.mp hsame] at hobserved
        exact ⟨path, hpath, hobserved⟩

theorem entry_foreseen {selection : Selection} {rows : List PlanRow} {drawn : Draws}
    {folder : Text} {e : (QueueItem × PlanRow) × Text}
    (h : List.Forall₂ (Foreseen layout tree folder) (selection.items.map (·.toPublicItem)) rows)
    (he : e ∈ drawnEntries drawn selection.items rows) :
    Foreseen layout tree folder e.1.1.toPublicItem e.1.2 := by
  obtain ⟨⟨pair, i⟩, hpair, rfl⟩ := List.mem_map.mp he
  exact List.forall₂_zip (List.forall₂_map_left_iff.mp h) (List.fst_mem_of_mem_zipIdx hpair)

theorem entries_distinct {items : List QueueItem} {rows : List PlanRow} {drawn : Draws}
    (hlength : items.length = rows.length) (h : (items.map (·.itemId)).Nodup) :
    ((drawnEntries drawn items rows).map (·.1.1.itemId)).Nodup := by
  have hmap : (drawnEntries drawn items rows).map (·.1.1.itemId) =
      ((items.zip rows).map Prod.fst).map (·.itemId) := by
    simp only [drawnEntries, List.map_map]
    conv_rhs => rw [← List.zipIdx_map_fst 0 (items.zip rows)]
    simp only [List.map_map]
    rfl
  rw [hmap, List.map_fst_zip (Nat.le_of_eq hlength)]
  exact h

/-- Every attempt of a batch accepted by an idle service is prepared for its execution. -/
theorem accepted_prepared {m : Machine World Cmd Op Val Exn Reply} (h : Run v anyStep m)
    (hidle : Idle m.state.store) {drawn : Draws} {now : Time} {actor requestId : Text}
    {request : BatchRequest} {s : Store}
    (ha : accept v.layout v.casefold m.state.tree drawn now actor requestId request
      m.state.store = .ok s) :
    ((attemptsOf s drawn.batch).map (·.attemptId)).Nodup ∧
      ∀ a ∈ attemptsOf s drawn.batch, s.attempt[a.attemptId]? = some a ∧
        Prepared v.layout m.state.tree a ∧ ∃ q, s.queue[a.item.itemId]? = some q := by
  have hgrounded := run_grounded h
  have hfree := unclaimed_of_idle (ClaimExclusivity.run_owned h) hidle
  have hstep : (system v).step m (.other (.accept drawn now actor requestId request)) =
      some ⟨{ m.state with store := s }, m.holder⟩ := by
    simp [System.step, system, other, stored, ha]
  have hnext : Run v anyStep ⟨{ m.state with store := s }, m.holder⟩ :=
    .tail h (allows_of_step fun _ _ => trivial) hstep
  have hkeys : Keyed Attempt.attemptId s.attempt := (run_coherent hnext).attempt_key
  refine ⟨(list_keys_nodup hkeys).sublist (List.filter_sublist.map _), fun a hmem => ?_⟩
  obtain ⟨hlisted, hbatch⟩ := List.mem_filter.mp hmem
  obtain ⟨k, hk⟩ := mem_list.mp hlisted
  refine ⟨hkeys k a hk ▸ hk, ?_⟩
  obtain ⟨selection, rows, acceptance, hsteps⟩ := accept_acceptable ha
  obtain ⟨s₁, u, hattempt, hclaim, hqueue, hu, ht⟩ := hsteps.entered
  obtain ⟨found, hfound⟩ := hsteps.found
  obtain ⟨rules, _, hplan⟩ := bind_eq_ok.mp hsteps.planned
  obtain ⟨company, hcompany, hforeseen⟩ := plan_foreseen hplan
  have hlength : selection.items.length = rows.length := by simpa using hforeseen.length_eq
  obtain ⟨hadds, _, hrows⟩ := acceptAll_free _
    (entries_distinct hlength (hgrounded.distinct found selection hfound))
    (fun e _ => hclaim ▸ hfree _) hu
  rw [ht] at hk ⊢
  rcases (hadds k a).mp hk with hold | ⟨e, he, rfl, rfl⟩
  · rw [hattempt] at hold
    have hused := hgrounded.filed k a hold
    rw [of_decide_eq_true hbatch] at hused
    exact absurd hsteps.unused hused
  have hrow := entry_foreseen hforeseen he
  refine ⟨⟨rfl, ?_, hrow.moved, fun hm => ?_⟩, hrows e he⟩
  · exact checkItem_source (hfree _) (hsteps.checked _ (drawnEntries_item he))
  · obtain ⟨target, htarget, hplace⟩ := hrow.manual hm
    refine ⟨target, ?_, hplace⟩
    rw [join_folder] at htarget
    have hrequired : requireCompany v.layout acceptance.companyId = .ok company := by
      rw [hsteps.company, requireCompany, hcompany]
    refine bind_eq_ok.mpr ⟨company, hrequired, ?_⟩
    exact htarget

end PlannedBatch
