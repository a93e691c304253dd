import WiseWay.PlannedBatch
import WiseWay.Relocation

/-! # A plan and its execution

The planner compares all rows at once; the worker executes the attempts one at a time, each
in the files that the earlier ones have left. Nothing else changes the files here and no
call fails; the store stays open to everyone. -/
namespace PlanExecution

open Records Services AtomicProgram AtomicProgram.Discipline Calls Intake AttemptTransactions
open SortingSystem Effects Changes ReturnContract PlannedBatch Relocation

section Predictions

variable (layout : Layout)

def destination (a : Attempt) : Option Location :=
  match a.plan.predictedState with
  | .willMove => a.plan.target
  | .willManualReview => (manualTarget layout a).toOption
  | _ => none

def pathOf (loc : Location) : Text := (Services.physical layout loc).toOption.getD []

/-- What an attempt does to the files when all goes as its row says. -/
def job (a : Attempt) : Job Text Entry where
  source := pathOf layout a.item.source
  entry := .file a.item.fingerprint
  dest := (destination layout a).map (pathOf layout)

def predicted (a : Attempt) : Bool := a.plan.predictedState ≠ .notReady

def jobs (l : List Attempt) : List (Job Text Entry) := (l.filter predicted).map (job layout)

/-- The outcome is the one that the row predicts. -/
def Answered (a : Attempt) (state : OutcomeState) (reason : Option Reason)
    (actual : Option Location) : Prop :=
  match a.plan.predictedState with
  | .willMove => state = .sorted ∧ actual = a.plan.target
  | .willManualReview => state = .manualReview ∧ actual = (manualTarget layout a).toOption
  | .requiresDecision =>
    state = .requiresDecision ∧ reason = a.plan.reasonCode ∧ actual = some a.item.source
  | .notReady => True

/-- An attempt ended as its row predicts, and its file is where the row wants it. -/
def Foretold (a : Attempt) (w : World) : Prop :=
  (∃ b, w.store.attempt[a.attemptId]? = some b ∧ b.phase = .done ∧
    Answered layout a b.outcome.state b.outcome.reasonCode b.outcome.actualLocation) ∧
  w.tree (job layout a).home = some (job layout a).entry

/-- The directory of a path is there. -/
def Opens (tree : FileTree) (path : Text) : Prop :=
  ∀ components, parts path = .ok components → parentOpens tree components = true

end Predictions

/-- The worker executes attempts in a given order. -/
def calm (v : Service) : System World (List Text) Env Choice Op Val Exn ℕ where
  body order := order.foldlM Worker.runTurn 0
  exec o x w := exec v.layout o { x with fault := false } w
  other e w :=
    match e with
    | .files _ => none
    | e => other v e w

/-- What the others leave alone. -/
structure Quiet (w t : World) : Prop where
  tree : t.tree = w.tree
  attempt : ∀ (id : Text) a, w.store.attempt[id]? = some a → t.store.attempt[id]? = some a
  queue : QueueKept w.store t.store

variable {v : Service}

theorem Quiet.refl (w : World) : Quiet w w := ⟨rfl, fun _ _ h => h, fun _ q hq => ⟨q, hq⟩⟩

theorem Quiet.trans {a b c : World} (hab : Quiet a b) (hbc : Quiet b c) : Quiet a c :=
  ⟨hbc.tree.trans hab.tree, fun id r h => hbc.attempt id r (hab.attempt id r h),
    hab.queue.trans hbc.queue⟩

theorem Quiet.same {w t : World} (htree : t.tree = w.tree)
    (hattempt : t.store.attempt = w.store.attempt) (hqueue : t.store.queue = w.store.queue) :
    Quiet w t :=
  ⟨htree, fun _ _ h => hattempt ▸ h, fun _ q hq => ⟨q, hqueue ▸ hq⟩⟩

theorem acceptAll_quiet {a : Acceptance} : ∀ (entries : List ((QueueItem × PlanRow) × Text))
    {s t : Store}, entries.foldlM (acceptOne a) s = .ok t →
      (∀ (id : Text) b, s.attempt[id]? = some b → t.attempt[id]? = some b) ∧ QueueKept s t
  | [], _, _, h => by
    cases h
    exact ⟨fun _ _ h => h, fun _ q hq => ⟨q, hq⟩⟩
  | ((saved, row), id) :: entries, s, t, h => by
    rw [List.foldlM_cons] at h
    obtain ⟨u, hu, h⟩ := bind_eq_ok.mp h
    obtain ⟨hrest, hkept⟩ := acceptAll_quiet entries h
    obtain ⟨attempts, hnew, hu⟩ := bind_eq_ok.mp hu
    obtain ⟨hfree, rfl⟩ := insertNew_eq_ok.mp hnew
    have hold : ∀ (occupied : Bool) (k : Text) b, s.attempt[k]? = some b →
        (s.attempt.insert id (acceptedAttempt a id occupied saved row))[k]? = some b := by
      intro occupied k b hb
      rw [get_put, if_neg]
      · exact hb
      · rintro rfl
        cases hfree.symm.trans hb
    split at hu
    · cases hu
      exact ⟨fun k b hb => hrest k b (hold _ k b hb), hkept⟩
    · obtain ⟨item, _, hu⟩ := bind_eq_ok.mp hu
      cases hu
      exact ⟨fun k b hb => hrest k b (hold _ k b hb), (queueKept_insert rfl).trans hkept⟩

theorem kept_insert {queue : Table QueueItem} {start : Table QueueItem} {key : Text}
    {item : QueueItem} (h : ∀ (k : Text) q, start[k]? = some q → ∃ q', queue[k]? = some q')
    (k : Text) (q : QueueItem) (hq : start[k]? = some q) :
    ∃ q', (queue.insert key item)[k]? = some q' := by
  rw [get_put]
  split
  · exact ⟨_, rfl⟩
  · exact h k q hq

theorem scan_quiet {rootId : Text} {now : Time} {found : List Found} {s t : Store}
    (h : scan v.casefold v.settings v.layout rootId now found s = some t) :
    t.attempt = s.attempt ∧ QueueKept s t := by
  unfold scan at h
  split at h
  · cases h
  split at h
  · cases h
  cases h
  refine ⟨rfl, ?_⟩
  unfold QueueKept Pass.queue
  dsimp only
  refine List.foldlRecOn (motive := fun queue => ∀ (k : Text) q, s.queue[k]? = some q →
    ∃ q', queue[k]? = some q') _ _ ?_ fun queue hqueue prior _ => ?_
  · refine List.foldlRecOn (motive := fun st : ScanState => ∀ (k : Text) q, s.queue[k]? = some q →
      ∃ q', st.queue[k]? = some q') _ _ (fun k q hq => ⟨q, hq⟩) fun st hst file _ => ?_
    unfold Pass.turn
    split <;> exact kept_insert hst
  · unfold markMissing
    split
    · exact kept_insert hqueue
    · exact hqueue

theorem other_quiet {e : Env} {w t : World} (h : (calm v).other e w = some t) : Quiet w t := by
  cases e with
  | files tree => cases h
  | storage rootId mode => cases h; exact .same rfl rfl rfl
  | dictionaries dictionary version events =>
    simp only [calm, other] at h
    split at h
    · cases h; exact .same rfl rfl rfl
    · cases h
  | select selectionId actor now request =>
    simp only [calm, other] at h
    split at h
    · cases h
    · obtain ⟨s, hs, rfl⟩ := stored_eq_some h
      obtain ⟨created, _, rfl⟩ := selection_frame hs
      exact .same rfl rfl rfl
  | preview previewId actor selectionId now =>
    simp only [calm, other] at h
    split at h
    · cases h
    · obtain ⟨s, hs, rfl⟩ := stored_eq_some h
      obtain ⟨created, rfl⟩ := preview_frame hs
      exact .same rfl rfl rfl
  | accept drawn now actor requestId request =>
    obtain ⟨s, hs, rfl⟩ := stored_eq_some h
    obtain ⟨_, _, _, hsteps⟩ := accept_acceptable hs
    obtain ⟨s₁, u, hattempt, _, hqueue, hu, ht⟩ := hsteps.entered
    obtain ⟨hkept, hrows⟩ := acceptAll_quiet _ hu
    rw [ht]
    exact ⟨rfl, fun id a ha => hkept id a (hattempt ▸ ha), fun k q hq => hrows k q (hqueue ▸ hq)⟩
  | scan rootId now found =>
    simp only [calm, other] at h
    split at h
    · obtain ⟨s, hs, rfl⟩ := Option.map_eq_some_iff.mp h
      obtain ⟨hattempt, hqueue⟩ := scan_quiet hs
      exact ⟨rfl, fun _ _ h => hattempt ▸ h, hqueue⟩
    · cases h

def calmContract (v : Service) : Discipline (calm v) where
  inv _ := True
  rely := Quiet
  permit _ _ := True
  rely_refl := Quiet.refl
  rely_trans := Quiet.trans
  other_keeps _ h := ⟨trivial, other_quiet h⟩
  call_keeps _ _ := trivial

/-! The calls of one attempt. -/

/-- The files are `T` and the attempt is stored as `a`; the rest is as in `w₀`. -/
structure At (T : FileTree) (a : Attempt) (w₀ w : World) : Prop where
  tree : w.tree = T
  row : w.store.attempt[a.attemptId]? = some a
  others : ∀ (id : Text) b, id ≠ a.attemptId → w₀.store.attempt[id]? = some b →
    w.store.attempt[id]? = some b
  queue : QueueKept w₀.store w.store

section Walk

variable {T : FileTree} {a : Attempt} {w₀ w t : World}

theorem At.quiet (h : At T a w₀ w) (hq : Quiet w t) : At T a w₀ t :=
  ⟨hq.tree.trans h.tree, hq.attempt _ a h.row,
    fun id b hne hb => hq.attempt id b (h.others id b hne hb), h.queue.trans hq.queue⟩

theorem At.logged (h : At T a w₀ w) (log : List Trace) : At T a w₀ { w with log := log } :=
  ⟨h.tree, h.row, h.others, h.queue⟩

theorem wp_calm {o : Op} {Q : Except Exn (Val o) → World → Prop}
    (h : ∀ t x, Quiet w t → Q (settled (noted t o) (answer v.layout x (noted t o) o)).1
      (settled (noted t o) (answer v.layout x (noted t o) o)).2) :
    (calmContract v).wp (call o) Q w :=
  wp_perform.mpr fun t hwt _ => ⟨trivial, fun x _ => h t { x with fault := false } hwt⟩

theorem calm_look {o : Op} {Q : Except Exn (Val o) → World → Prop} (hw : At T a w₀ w) (r : Val o)
    (hnoted : ∀ t, noted t o = t)
    (hanswer : ∀ t x, t.tree = T → t.store.attempt[a.attemptId]? = some a →
      ∃ log, answer v.layout x t o = .ok (r, { t with log := log }))
    (hQ : ∀ t, At T a w₀ t → Q (.ok r) t) : (calmContract v).wp (call o) Q w := by
  refine wp_calm fun t x hwt => ?_
  have ht := hw.quiet hwt
  obtain ⟨log, hlog⟩ := hanswer t x ht.tree ht.row
  rw [hnoted, hlog]
  exact hQ _ (ht.logged log)

theorem calm_require {Q : Except Exn Attempt → World → Prop} (hw : At T a w₀ w)
    (hQ : ∀ t, At T a w₀ t → Q (.ok a) t) :
    (calmContract v).wp (call (.requireAttempt a.attemptId)) Q w :=
  calm_look hw a (fun _ => rfl) (fun t x _ hrow =>
    ⟨t.log, by simp [answer, require_eq_ok.mpr hrow, bind, Except.bind, pure, Except.pure]⟩) hQ

theorem calm_get {Q : Except Exn (Option Attempt) → World → Prop} (hw : At T a w₀ w)
    (hQ : ∀ t, At T a w₀ t → Q (.ok (some a)) t) :
    (calmContract v).wp (call (.getAttempt a.attemptId)) Q w :=
  calm_look hw (some a) (fun _ => rfl) (fun t x _ hrow => ⟨t.log, by simp [answer, hrow]⟩) hQ

theorem calm_physical {loc : Location} {path : Text} {Q : Except Exn Text → World → Prop}
    (hw : At T a w₀ w) (hpath : Services.physical v.layout loc = .ok path)
    (hQ : ∀ t, At T a w₀ t → Q (.ok path) t) : (calmContract v).wp (physical loc) Q w :=
  calm_look hw path (fun _ => rfl) (fun t x _ _ =>
    ⟨t.log, by simp [answer, hpath, bind, Except.bind, pure, Except.pure]⟩) hQ

theorem calm_stat {owner : Owner} {path : Text} {components : List Text}
    {Q : Except Exn (Option Fingerprint) → World → Prop} (hw : At T a w₀ w)
    (hparts : parts path = .ok components) (hQ : ∀ t, At T a w₀ t → Q (.ok (fileAt T path)) t) :
    (calmContract v).wp (stat owner path) Q w :=
  calm_look hw (fileAt T path) (fun _ => rfl) (fun t x htree _ => ⟨.seen owner path t.tree :: t.log,
    by simp [answer, Services.stat, hparts, htree, bind, Except.bind, pure, Except.pure]⟩) hQ

theorem calm_occupies {target : Location} {path : Text} {components : List Text}
    {Q : Except Exn Bool → World → Prop} (hw : At T a w₀ w)
    (hpath : Services.physical v.layout target = .ok path)
    (hparts : parts path = .ok components) (hQ : ∀ t, At T a w₀ t → Q (.ok (T path).isSome) t) :
    (calmContract v).wp (occupies target) Q w := by
  simp only [occupies, bind_eq]
  refine wp_bind.mpr (calm_physical hw hpath fun t ht => ?_)
  exact calm_look ht (T path).isSome (fun _ => rfl) (fun t x htree _ => ⟨t.log,
    by subst htree; simp [answer, occupied, hparts, bind, Except.bind, pure, Except.pure]⟩) hQ

/-- What both renames have done by the time of the native call. -/
theorem calm_verified {owner : Owner} {source target : Text} {sources targets : List Text}
    {Q : Except Exn Unit → World → Prop} (hw : At T a w₀ w) (hsource : parts source = .ok sources)
    (htarget : parts target = .ok targets) (hsources : parentOpens T sources = true)
    (htargets : parentOpens T targets = true)
    (hfile : T source = some (.file a.item.fingerprint))
    (hQ : ∀ t, At T a w₀ t → (calmContract v).wp
      ((call (.renameExclusive owner source target)).bind fun _ =>
        (call (.verifyTarget target a.item.fingerprint)).bind fun _ =>
          (call (.fsync target)).bind fun _ => (call (.fsync target)).bind fun _ =>
            call (.fsync source)) Q t) :
    (calmContract v).wp (renameNoReplace owner source target a.item.fingerprint) Q w := by
  have hverify : ∀ (t : World) x, t.tree = T → ∃ log, answer v.layout x t
      (.verifySource owner source a.item.fingerprint) = .ok ((), { t with log := log }) :=
    fun t x htree => ⟨.checked owner :: t.log, by
      simp [answer, verifiedSource, htree, hfile, bind, Except.bind, pure, Except.pure]⟩
  simp only [renameNoReplace, bind_eq]
  refine wp_bind.mpr (calm_look hw () (fun _ => rfl) (fun t x _ _ => ⟨t.log, rfl⟩) fun t₁ h₁ => ?_)
  refine wp_bind.mpr (calm_look h₁ () (fun _ => rfl) (fun t x htree _ => ⟨t.log, ?_⟩)
    fun t₂ h₂ => ?_)
  · subst htree
    simp [answer, hsource, hsources, bind, Except.bind, pure, Except.pure]
  refine wp_bind.mpr (calm_look h₂ () (fun _ => rfl) (fun t x htree _ => ⟨t.log, ?_⟩)
    fun t₃ h₃ => ?_)
  · subst htree
    simp [answer, htarget, htargets, bind, Except.bind, pure, Except.pure]
  refine wp_bind.mpr (calm_look h₃ () (fun _ => rfl) (fun t x htree _ => hverify t x htree)
    fun t₄ h₄ => ?_)
  exact wp_bind.mpr (calm_look h₄ () (fun _ => rfl) (fun t x htree _ => hverify t x htree) hQ)

theorem calm_rename {owner : Owner} {source target : Text} {sources targets : List Text}
    {Q : Except Exn Unit → World → Prop} (hw : At T a w₀ w) (hsource : parts source = .ok sources)
    (htarget : parts target = .ok targets) (hsources : parentOpens T sources = true)
    (htargets : parentOpens T targets = true)
    (hfile : T source = some (.file a.item.fingerprint)) (hfree : T target = none)
    (hQ : ∀ t, At (Function.update (Function.update T source none) target
      (some (.file a.item.fingerprint))) a w₀ t → Q (.ok ()) t) :
    (calmContract v).wp (renameNoReplace owner source target a.item.fingerprint) Q w := by
  refine calm_verified hw hsource htarget hsources htargets hfile fun t₁ h₁ => ?_
  refine wp_bind.mpr (wp_calm fun t x hq => ?_)
  have ht := h₁.quiet hq
  have hmove : moveEntry t.tree source target = .ok (.file a.item.fingerprint,
      Function.update (Function.update T source none) target
        (some (.file a.item.fingerprint))) := by
    simp [moveEntry, ht.tree, hfile, hfree]
  simp only [answer, noted, hmove, bind, Except.bind, pure, Except.pure, settled]
  have hmoved : ∀ log, At (Function.update (Function.update T source none) target
      (some (.file a.item.fingerprint))) a w₀ { t with
        tree := Function.update (Function.update T source none) target
          (some (.file a.item.fingerprint)), log := log } :=
    fun log => ⟨rfl, ht.row, ht.others, ht.queue⟩
  refine wp_bind.mpr (calm_look (hmoved _) () (fun _ => rfl) (fun u x htree _ => ⟨u.log, ?_⟩)
    fun t₂ h₂ => ?_)
  · have harrived : u.tree target = some (.file a.item.fingerprint) := by
      rw [htree, Function.update_self]
    simp [answer, harrived]
  refine wp_bind.mpr (calm_look h₂ () (fun _ => rfl) (fun u x _ _ => ⟨u.log, rfl⟩) fun t₃ h₃ => ?_)
  refine wp_bind.mpr (calm_look h₃ () (fun _ => rfl) (fun u x _ _ => ⟨u.log, rfl⟩) fun t₄ h₄ => ?_)
  exact calm_look h₄ () (fun _ => rfl) (fun u x _ _ => ⟨u.log, rfl⟩) hQ

theorem calm_refused {owner : Owner} {source target : Text} {sources targets : List Text}
    {Q : Except Exn Unit → World → Prop} (hw : At T a w₀ w) (hsource : parts source = .ok sources)
    (htarget : parts target = .ok targets) (hsources : parentOpens T sources = true)
    (htargets : parentOpens T targets = true)
    (hfile : T source = some (.file a.item.fingerprint)) (htaken : T target ≠ none)
    (hQ : ∀ t, At T a w₀ t → Q (.error .targetExists) t) :
    (calmContract v).wp (renameNoReplace owner source target a.item.fingerprint) Q w := by
  refine calm_verified hw hsource htarget hsources htargets hfile fun t₁ h₁ => ?_
  refine wp_bind.mpr (wp_calm fun t x hq => ?_)
  have ht := h₁.quiet hq
  obtain ⟨entry, hentry⟩ := Option.ne_none_iff_exists'.mp htaken
  have hmove : moveEntry t.tree source target = .error .targetExists := by
    simp [moveEntry, ht.tree, hfile, hentry]
  simp only [answer, noted, hmove, bind, Except.bind, settled]
  exact hQ _ (ht.logged _)

/-- A location that names a proper path. -/
def Resolves (layout : Layout) (loc : Location) (path : Text) : Prop :=
  Services.physical layout loc = .ok path ∧ ∃ components, parts path = .ok components

structure Ended (T : FileTree) (id : Text) (state : OutcomeState) (reason : Option Reason)
    (actual : Option Location) (w₀ w : World) : Prop where
  tree : w.tree = T
  row : ∃ b, w.store.attempt[id]? = some b ∧ b.phase = .done ∧ b.outcome.state = state ∧
    b.outcome.reasonCode = reason ∧ b.outcome.actualLocation = actual
  others : ∀ (k : Text) b, k ≠ id → w₀.store.attempt[k]? = some b → w.store.attempt[k]? = some b
  queue : QueueKept w₀.store w.store

theorem calm_finish {state : OutcomeState} {reason : Option Reason} {actual : Option Location}
    {source : Text} (hw : At T a w₀ w) (hd : a.phase ≠ .done)
    (hrow : ∃ q, w₀.store.queue[a.item.itemId]? = some q)
    (hsource : Resolves v.layout a.item.source source) :
    (calmContract v).wp (Worker.finish a.attemptId state reason actual)
      (fun r t => r = .ok true ∧ Ended T a.attemptId state reason actual w₀ t) w := by
  simp only [Worker.finish, bind_eq]
  refine wp_bind.mpr (wp_calm fun t x hq => ?_)
  have ht := hw.quiet hq
  obtain ⟨q, hrow⟩ := hrow
  obtain ⟨item, hitem⟩ := ht.queue _ q hrow
  obtain ⟨hpath, components, hparts⟩ := hsource
  have hcurrent : ∃ current, currentSource v.layout t.tree a state reason = .ok current := by
    unfold currentSource
    split
    · exact ⟨fileAt t.tree source, by
        simp [hpath, Services.stat, hparts, bind, Except.bind, pure, Except.pure]⟩
    · exact ⟨none, rfl⟩
  obtain ⟨current, hcurrent⟩ := hcurrent
  have hfinish :
      AttemptTransactions.finish v.layout t.tree a.attemptId state reason actual x.now t.store =
        .ok (finishedStore a.attemptId a item current state reason actual x.now t.store) := by
    simp [AttemptTransactions.finish, require_eq_ok.mpr ht.row, hd, require_eq_ok.mpr hitem,
      hcurrent, bind, Except.bind, pure, Except.pure]
  simp only [answer, noted, hfinish, commit, bind, Except.bind, pure, Except.pure, settled]
  refine ⟨rfl, ht.tree, ⟨finishedAttempt a state reason actual x.now, ?_, rfl, rfl, rfl, rfl⟩,
    fun k b hne hb => ?_, ht.queue.trans (queueKept_insert rfl)⟩
  · simp [finishedStore]
  · simp only [finishedStore, get_put, if_neg (Ne.symm hne)]
    exact ht.others k b hne hb

theorem calm_intent {planned : Intent} {Q : Except Exn Unit → World → Prop} (hw : At T a w₀ w)
    (hqueued : a.phase = .queued)
    (hQ : ∀ now t, At T (intendedAttempt a planned now).1 w₀ t → Q (.ok ()) t) :
    (calmContract v).wp (call (.intent a.attemptId planned)) Q w := by
  refine wp_calm fun t x hq => ?_
  have ht := hw.quiet hq
  have hid : (intendedAttempt a planned x.now).1.attemptId = a.attemptId := by
    simp [intendedAttempt]
  have hintent : AttemptTransactions.intent a.attemptId planned x.now t.store = .ok { t.store with
      attempt := t.store.attempt.insert a.attemptId (intendedAttempt a planned x.now).1
      audit := t.store.audit ++ (intendedAttempt a planned x.now).2 } := by
    simp [AttemptTransactions.intent, require_eq_ok.mpr ht.row, hqueued, bind, Except.bind, pure,
      Except.pure]
  simp only [answer, noted, hintent, commit, bind, Except.bind, pure, Except.pure, settled]
  refine hQ x.now _ ⟨ht.tree, ?_, fun k b hne hb => ?_, ht.queue⟩
  · simp
  · rw [hid] at hne
    simp only [get_put, if_neg (Ne.symm hne)]
    exact ht.others k b hne hb

section Execute

variable {i : Intent} {source target : Text}

theorem calm_executeIntent (hw : At T a w₀ w) (hphase : a.phase = .intent)
    (hi : a.intent = some i) (hsource : Resolves v.layout a.item.source source)
    (htarget : Resolves v.layout i.target target) (hsources : Opens T source)
    (htargets : Opens T target) (hfile : T source = some (.file a.item.fingerprint))
    (hrow : ∃ q, w₀.store.queue[a.item.itemId]? = some q) :
    (calmContract v).wp (Worker.executeIntent a.attemptId) (fun r t => r = .ok true ∧
      (T target = none → Ended (Function.update (Function.update T source none) target
        (some (.file a.item.fingerprint))) a.attemptId i.state.outcome i.reason (some i.target)
        w₀ t) ∧
      (T target ≠ none → Ended T a.attemptId .requiresDecision (some (Worker.occupiedReason i))
        (some a.item.source) w₀ t)) w := by
  obtain ⟨hsourcePath, sources, hsourceParts⟩ := hsource
  obtain ⟨htargetPath, targets, htargetParts⟩ := htarget
  simp only [Worker.executeIntent, bind_eq]
  refine wp_bind.mpr (calm_require hw fun t₁ h₁ => ?_)
  simp only [hphase, hi]
  refine wp_bind.mpr (calm_physical h₁ hsourcePath fun t₂ h₂ => ?_)
  refine wp_bind.mpr (calm_physical h₂ htargetPath fun t₃ h₃ => ?_)
  refine wp_bind.mpr (wp_attempt.mpr ?_)
  by_cases hfree : T target = none
  · refine calm_rename h₃ hsourceParts htargetParts (hsources _ hsourceParts)
      (htargets _ htargetParts) hfile hfree fun t₄ h₄ => ?_
    simp only [Worker.afterRename, bind_eq]
    refine wp_bind.mpr (calm_stat h₄ htargetParts fun t₅ h₅ => ?_)
    simp only [fileAt, Function.update_self, ne_eq, not_true_eq_false, if_false]
    refine wp_bind.mpr (calm_require h₅ fun t₆ h₆ => ?_)
    simp only [hi]
    refine wp_mono (fun r t hr => ⟨hr.1, fun _ => hr.2, fun htaken => absurd hfree htaken⟩)
      (calm_finish h₆ (by simp [hphase]) hrow ⟨hsourcePath, sources, hsourceParts⟩)
  · refine calm_refused h₃ hsourceParts htargetParts (hsources _ hsourceParts)
      (htargets _ htargetParts) hfile hfree fun t₄ h₄ => ?_
    exact wp_mono (fun r t hr => ⟨hr.1, fun hf => absurd hf hfree, fun _ => hr.2⟩)
      (calm_finish h₄ (by simp [hphase]) hrow ⟨hsourcePath, sources, hsourceParts⟩)

end Execute

/-! One attempt is one turn. -/

/-- A queued attempt whose paths are proper and whose directories are there. -/
structure Workable (layout : Layout) (T : FileTree) (a : Attempt) : Prop where
  queued : a.phase = .queued
  source : ∃ path, Resolves layout a.item.source path
  moved : a.plan.predictedState = .willMove → ∃ target, a.plan.target = some target
  manual : a.plan.predictedState = .willManualReview → ∃ target,
    manualTarget layout a = .ok target
  target : ∀ target, destination layout a = some target → ∃ path, Resolves layout target path
  opens : ∀ target, destination layout a = some target →
    Opens T (pathOf layout a.item.source) ∧ Opens T (pathOf layout target)

structure Turned (layout : Layout) (T : FileTree) (a : Attempt) (w₀ w : World) : Prop where
  tree : w.tree = if predicted a then turn T (job layout a) else T
  row : ∃ b, w.store.attempt[a.attemptId]? = some b ∧ b.phase = .done ∧ (predicted a = true →
    (Answered layout a b.outcome.state b.outcome.reasonCode b.outcome.actualLocation ↔
      Feasible T (job layout a)))
  others : ∀ (id : Text) b, id ≠ a.attemptId → w₀.store.attempt[id]? = some b →
    w.store.attempt[id]? = some b
  queue : QueueKept w₀.store w.store

theorem Ended.turned {layout : Layout} {T' : FileTree} {state : OutcomeState}
    {reason : Option Reason} {actual : Option Location}
    (h : Ended T' a.attemptId state reason actual w₀ w)
    (htree : T' = if predicted a then turn T (job layout a) else T)
    (hanswer : predicted a = true → (Answered layout a state reason actual ↔
      Feasible T (job layout a))) : Turned layout T a w₀ w := by
  obtain ⟨b, hb, hd, rfl, rfl, rfl⟩ := h.row
  exact ⟨h.tree.trans htree, ⟨b, hb, hd, hanswer⟩, h.others, h.queue⟩

theorem Ended.left {layout : Layout} {state : OutcomeState} {reason : Option Reason}
    {actual : Option Location} (h : Ended T a.attemptId state reason actual w₀ w)
    (hinfeasible : ¬Feasible T (job layout a))
    (hanswer : predicted a = true → ¬Answered layout a state reason actual) :
    Turned layout T a w₀ w := by
  refine h.turned ?_ fun hp => iff_of_false (hanswer hp) hinfeasible
  split
  · exact (if_neg hinfeasible).symm
  · rfl

theorem skipped_unanswered {layout : Layout} {reason : Option Reason} {actual : Option Location}
    (hp : predicted a = true) : ¬Answered layout a .skipped reason actual := by
  unfold predicted at hp
  unfold Answered
  split <;> simp_all

theorem pathOf_resolves {layout : Layout} {loc : Location} {path : Text}
    (h : Resolves layout loc path) : pathOf layout loc = path := by
  simp [pathOf, h.1, Except.toOption]

theorem calm_move {planned : Intent} {source target : Text} (hw : At T a w₀ w)
    (h : Workable v.layout T a) (hsource : Resolves v.layout a.item.source source)
    (hfile : T source = some (.file a.item.fingerprint))
    (hdest : destination v.layout a = some planned.target)
    (htarget : Resolves v.layout planned.target target)
    (hrow : ∃ q, w₀.store.queue[a.item.itemId]? = some q)
    (hplanned : Answered v.layout a planned.state.outcome planned.reason (some planned.target))
    (hrefused : ∀ reason, ¬Answered v.layout a .requiresDecision reason (some a.item.source)) :
    (calmContract v).wp ((call (.intent a.attemptId planned)).bind fun _ =>
      Worker.executeIntent a.attemptId)
      (fun r t => r = .ok true ∧ Turned v.layout T a w₀ t) w := by
  obtain ⟨hsources, htargets⟩ := h.opens _ hdest
  rw [pathOf_resolves hsource] at hsources
  rw [pathOf_resolves htarget] at htargets
  have hjob : (job v.layout a).source = source ∧ (job v.layout a).dest = some target := by
    simp [job, pathOf_resolves hsource, hdest, pathOf_resolves htarget]
  have hfeasible : Feasible T (job v.layout a) ↔ T target = none := by
    unfold Feasible
    rw [hjob.1, hjob.2]
    simp [job, hfile]
  refine wp_bind.mpr (calm_intent hw h.queued fun now t ht => ?_)
  obtain ⟨hid, hitem, hphase, hintent⟩ :
      (intendedAttempt a planned now).1.attemptId = a.attemptId ∧
      (intendedAttempt a planned now).1.item = a.item ∧
      (intendedAttempt a planned now).1.phase = .intent ∧
      (intendedAttempt a planned now).1.intent = some planned := by
    simp [intendedAttempt]
  have hexecute := calm_executeIntent (v := v) ht hphase hintent (hitem ▸ hsource) htarget hsources
    htargets (hitem ▸ hfile) (hitem ▸ hrow)
  simp only [hid, hitem] at hexecute
  refine wp_mono (fun r u hr => ⟨hr.1, ?_⟩) hexecute
  by_cases hfree : T target = none
  · refine (hr.2.1 hfree).turned ?_ fun _ => iff_of_true hplanned (hfeasible.mpr hfree)
    have hpredicted : predicted a = true := by
      unfold destination at hdest
      unfold predicted
      split at hdest <;> simp_all
    rw [if_pos hpredicted, turn_of_feasible (hfeasible.mpr hfree), place, hjob.1, hjob.2]
    rfl
  · exact (hr.2.2 hfree).left (fun hf => hfree (hfeasible.mp hf)) fun _ => hrefused _

theorem calm_runQueued (hw : At T a w₀ w) (h : Workable v.layout T a)
    (hrow : ∃ q, w₀.store.queue[a.item.itemId]? = some q) :
    (calmContract v).wp (Worker.runQueued a a.attemptId)
      (fun r t => r = .ok true ∧ Turned v.layout T a w₀ t) w := by
  obtain ⟨source, hsource⟩ := h.source
  have hd : a.phase ≠ .done := by simp [h.queued]
  have hsourceJob : (job v.layout a).source = source := pathOf_resolves hsource
  have hskip : ∀ {reason actual} {t : World}, At T a w₀ t →
      T source ≠ some (.file a.item.fingerprint) →
      (calmContract v).wp (Worker.finish a.attemptId .skipped reason actual)
        (fun r u => r = .ok true ∧ Turned v.layout T a w₀ u) t := by
    intro reason actual t ht hgone
    refine wp_mono (fun r u hr => ⟨hr.1, hr.2.left ?_ fun hp => skipped_unanswered hp⟩)
      (calm_finish ht hd hrow hsource)
    exact fun hf => hgone (hsourceJob ▸ hf.1)
  simp only [Worker.runQueued, bind_eq]
  refine wp_bind.mpr (calm_physical hw hsource.1 fun t₁ h₁ => ?_)
  obtain ⟨components, hparts⟩ := hsource.2
  refine wp_bind.mpr (wp_attempt.mpr (calm_stat h₁ hparts fun t₂ h₂ => ?_))
  cases hseen : fileAt T source with
  | none =>
    refine hskip h₂ fun hfile => ?_
    rw [fileAt_eq_some.mpr hfile] at hseen
    cases hseen
  | some observed =>
    have hfile := fileAt_eq_some.mp hseen
    simp only []
    by_cases hsame : observed = a.item.fingerprint
    · subst hsame
      rw [if_neg (not_not.mpr rfl)]
      have hstay : destination v.layout a = none → Feasible T (job v.layout a) := fun hnone =>
        ⟨hsourceJob ▸ hfile, fun d hd => by simp [job, hnone] at hd⟩
      cases hstate : a.plan.predictedState with
      | requiresDecision =>
        have hnone : destination v.layout a = none := by simp [destination, hstate]
        refine wp_mono (fun r u hr => ⟨hr.1, hr.2.turned ?_ fun _ => ?_⟩)
          (calm_finish h₂ hd hrow hsource)
        · rw [turn_of_feasible (hstay hnone)]
          simp [place, job, hnone]
        · exact iff_of_true (by simp [Answered, hstate]) (hstay hnone)
      | willMove =>
        obtain ⟨target, htarget⟩ := h.moved hstate
        have hdest : destination v.layout a = some target := by simp [destination, hstate, htarget]
        obtain ⟨path, hpath⟩ := h.target target hdest
        simp only [htarget]
        exact calm_move h₂ h hsource hfile hdest hpath hrow
          (by simp [Answered, hstate, htarget, IntendedState.outcome]) (by simp [Answered, hstate])
      | willManualReview =>
        obtain ⟨target, htarget⟩ := h.manual hstate
        have hdest : destination v.layout a = some target := by
          simp [destination, hstate, htarget, Except.toOption]
        obtain ⟨path, hpath⟩ := h.target target hdest
        refine wp_bind.mpr (calm_look h₂ target (fun _ => rfl) (fun t x _ _ => ⟨t.log, ?_⟩)
          fun t₃ h₃ => ?_)
        · simp [answer, htarget, bind, Except.bind, pure, Except.pure]
        obtain ⟨_, hpathParts⟩ := hpath.2
        refine wp_bind.mpr (calm_occupies h₃ hpath.1 hpathParts fun t₄ h₄ => ?_)
        cases htaken : T path with
        | none =>
          exact calm_move h₄ h hsource hfile hdest hpath hrow
            (by simp [Answered, hstate, htarget, IntendedState.outcome, Except.toOption])
            (by simp [Answered, hstate])
        | some entry =>
          refine wp_mono (fun r u hr => ⟨hr.1, hr.2.left ?_ fun _ => by simp [Answered, hstate]⟩)
            (calm_finish h₄ hd hrow hsource)
          intro hf
          have hfree := hf.2 path (by simp [job, hdest, pathOf_resolves hpath])
          cases htaken.symm.trans hfree
      | notReady =>
        have hsilent : predicted a = false := by simp [predicted, hstate]
        refine wp_mono (fun r u hr => ⟨hr.1, hr.2.turned ?_ fun hp => ?_⟩)
          (calm_finish h₂ hd hrow hsource)
        · simp [hsilent]
        · cases hsilent.symm.trans hp
    · rw [if_pos hsame]
      refine hskip h₂ fun hother => hsame ?_
      rw [hfile] at hother
      injection hother with heq
      injection heq

theorem calm_run (hw : At T a w₀ w) (h : Workable v.layout T a)
    (hrow : ∃ q, w₀.store.queue[a.item.itemId]? = some q) (depth : ℕ) :
    (calmContract v).wp (Worker.run (depth + 1) a.attemptId)
      (fun r t => r = .ok true ∧ Turned v.layout T a w₀ t) w := by
  simp only [Worker.run, bind_eq]
  refine wp_bind.mpr (calm_get hw fun t ht => ?_)
  simp only [h.queued]
  exact calm_runQueued ht h hrow

theorem calm_runTurn (hw : At T a w₀ w) (h : Workable v.layout T a)
    (hrow : ∃ q, w₀.store.queue[a.item.itemId]? = some q) (processed : ℕ) :
    (calmContract v).wp (Worker.runTurn processed a.attemptId)
      (fun r t => r = .ok (processed + 1) ∧ Turned v.layout T a w₀ t) w := by
  simp only [Worker.runTurn, bind_eq]
  refine wp_bind.mpr (wp_attempt.mpr (wp_mono (fun r u hr => ?_) (calm_run hw h hrow 999)))
  obtain ⟨rfl, hturned⟩ := hr
  exact ⟨rfl, hturned⟩

end Walk

/-! The whole order. -/

section Order

variable {layout : Layout} {T T' : FileTree} {a : Attempt} {w t : World}

theorem turn_directory {j : Job Text Entry} {path : Text} (hentry : j.entry ≠ .directory)
    (h : T path = some .directory) : turn T j path = some .directory := by
  unfold turn
  split
  · rename_i hj
    rw [place_other, h]
    · rintro _ rfl
      rw [hj.1] at h
      exact hentry (Option.some.inj h)
    · intro hd
      have := hj.2 path hd
      rw [h] at this
      cases this
  · exact h

theorem Opens.mono {path : Text} (h : Opens T path)
    (hkept : ∀ p, T p = some .directory → T' p = some .directory) : Opens T' path := by
  intro components hparts
  have hopen := h components hparts
  simp only [parentOpens, isDirectory, decide_eq_true_eq] at hopen ⊢
  exact hopen.imp_right (hkept _)

theorem Workable.turned {b : Attempt} (h : Workable layout T a)
    (htree : T' = if predicted b then turn T (job layout b) else T) : Workable layout T' a := by
  have hkept : ∀ p, T p = some .directory → T' p = some .directory := by
    intro p hp
    rw [htree]
    split
    · exact turn_directory (j := job layout b) (by simp [job]) hp
    · exact hp
  exact { h with opens := fun target ht => ⟨(h.opens target ht).1.mono hkept,
    (h.opens target ht).2.mono hkept⟩ }

def Fulfilled (layout : Layout) (a : Attempt) (w : World) : Prop :=
  ∃ b, w.store.attempt[a.attemptId]? = some b ∧ b.phase = .done ∧
    Answered layout a b.outcome.state b.outcome.reasonCode b.outcome.actualLocation

theorem fulfilled_kept (hended : ∃ b, w.store.attempt[a.attemptId]? = some b ∧ b.phase = .done)
    (hkept : ∀ b, w.store.attempt[a.attemptId]? = some b → t.store.attempt[a.attemptId]? = some b) :
    Fulfilled layout a t ↔ Fulfilled layout a w := by
  obtain ⟨b, hb, _⟩ := hended
  constructor
  · rintro ⟨b', hb', hrest⟩
    obtain rfl : b = b' := Option.some.inj ((hkept b hb).symm.trans hb')
    exact ⟨b, hb, hrest⟩
  · rintro ⟨b', hb', hrest⟩
    exact ⟨b', hkept b' hb', hrest⟩

/-- The attempts of `ran` have had their turns in the files `T`; those of `rest` wait. -/
structure Progress (layout : Layout) (T : FileTree) (ran rest : List Attempt) (w : World) :
    Prop where
  tree : w.tree = after T (jobs layout ran)
  ended : ∀ a ∈ ran, ∃ b, w.store.attempt[a.attemptId]? = some b ∧ b.phase = .done
  fulfilled : (∀ a ∈ ran, predicted a = true → Fulfilled layout a w) ↔
    AllFeasible T (jobs layout ran)
  waiting : ∀ a ∈ rest, w.store.attempt[a.attemptId]? = some a ∧
    ∃ q, w.store.queue[a.item.itemId]? = some q
  workable : ∀ a ∈ rest, Workable layout w.tree a

theorem Progress.quiet {ran : List Attempt} (h : Progress layout T ran [] w) (hq : Quiet w t) :
    Progress layout T ran [] t := by
  refine ⟨hq.tree.trans h.tree, fun a ha => ?_, ?_, by simp, by simp⟩
  · obtain ⟨b, hb, hd⟩ := h.ended a ha
    exact ⟨b, hq.attempt _ b hb, hd⟩
  · rw [← h.fulfilled]
    exact forall₂_congr fun a ha => imp_congr_right fun _ =>
      fulfilled_kept (h.ended a ha) (hq.attempt _)

theorem jobs_append (l : List Attempt) (a : Attempt) : jobs layout (l ++ [a]) =
    jobs layout l ++ if predicted a then [job layout a] else [] := by
  unfold jobs
  rw [List.filter_append, List.map_append]
  congr 1
  cases hp : predicted a <;> simp [hp]

theorem Progress.step {ran rest : List Attempt} (h : Progress layout T ran (a :: rest) w)
    (hnodup : ((ran ++ a :: rest).map (·.attemptId)).Nodup) (hturned : Turned layout w.tree a w t) :
    Progress layout T (ran ++ [a]) rest t := by
  rw [List.map_append, List.map_cons, List.nodup_middle, List.nodup_cons, List.mem_append] at hnodup
  obtain ⟨hnew, _⟩ := hnodup
  have hran : ∀ b ∈ ran, b.attemptId ≠ a.attemptId := fun b hb heq =>
    hnew (.inl (List.mem_map.mpr ⟨b, hb, heq⟩))
  have hrest : ∀ b ∈ rest, b.attemptId ≠ a.attemptId := fun b hb heq =>
    hnew (.inr (List.mem_map.mpr ⟨b, hb, heq⟩))
  obtain ⟨b, hb, hd, hanswer⟩ := hturned.row
  have hown : Fulfilled layout a t ↔
      Answered layout a b.outcome.state b.outcome.reasonCode b.outcome.actualLocation := by
    constructor
    · rintro ⟨c, hc, _, hfit⟩
      rwa [Option.some.inj (hb.symm.trans hc)]
    · exact fun hfit => ⟨b, hb, hd, hfit⟩
  have htree : t.tree = after T (jobs layout (ran ++ [a])) := by
    rw [hturned.tree, jobs_append, h.tree]
    split
    · rw [after_append]
      rfl
    · rw [List.append_nil]
  refine ⟨htree, fun c hc => ?_, ?_, fun c hc => ?_, fun c hc => ?_⟩
  · rcases List.mem_append.mp hc with hc | hc
    · obtain ⟨e, he, hed⟩ := h.ended c hc
      exact ⟨e, hturned.others _ e (hran c hc) he, hed⟩
    · rw [List.mem_singleton.mp hc]
      exact ⟨b, hb, hd⟩
  · have hbefore : (∀ c ∈ ran, predicted c = true → Fulfilled layout c t) ↔
        AllFeasible T (jobs layout ran) := by
      rw [← h.fulfilled]
      exact forall₂_congr fun c hc => imp_congr_right fun _ =>
        fulfilled_kept (h.ended c hc) fun e he => hturned.others _ e (hran c hc) he
    rw [jobs_append, List.forall_mem_append, hbefore, List.forall_mem_singleton]
    cases hp : predicted a with
    | false => simp
    | true =>
      simp only [if_true, allFeasible_append, AllFeasible, and_true, ← h.tree, forall_const]
      rw [hown, hanswer hp]
  · obtain ⟨hc, q, hq⟩ := h.waiting c (List.mem_cons_of_mem _ hc)
    exact ⟨hturned.others _ c (hrest c ‹_›) hc, hturned.queue _ q hq⟩
  · exact (h.workable c (List.mem_cons_of_mem _ hc)).turned hturned.tree

end Order

/-! The batch. -/

/-- Once a worker that nothing disturbs has executed the attempts of a batch, in any order,
every one of them has come out as its row predicts. -/
def PlanHolds (v : Service) (w : World) (batchId : Text) : Prop :=
  ∀ order : List Attempt, order.Perm (attemptsOf w.store batchId) → ∀ n u,
    Held (calm v) ⟨w, some (order.map (·.attemptId), (calm v).body (order.map (·.attemptId)))⟩ n →
    (calm v).step n .settle = some u →
    ∀ a ∈ attemptsOf w.store batchId, predicted a = true → Foretold v.layout a u.state

/-- No two rows of a batch meet: a file that moves has its path for itself, and no two files
are on their way to one path. -/
def RowsApart (v : Service) (w : World) (batchId : Text) : Prop :=
  (jobs v.layout (attemptsOf w.store batchId)).Pairwise Apart

theorem manualTarget_destination {layout : Layout} {a : Attempt} {target : Location}
    (hstate : a.plan.predictedState = .willManualReview)
    (h : manualTarget layout a = .ok target) : destination layout a = some target := by
  simp [destination, hstate, h, Except.toOption]

section Batch

variable {v : Service} {layout : Layout} {T : FileTree} {a : Attempt}

theorem freeAt_resolves {target : Location} (h : FreeAt layout T target) :
    ∃ path, Resolves layout target path ∧ T path = none := by
  obtain ⟨path, hpath, h⟩ := bind_eq_ok.mp h
  obtain ⟨components, hparts, h⟩ := bind_eq_ok.mp h
  refine ⟨path, ⟨hpath, components, hparts⟩, ?_⟩
  have hnone : (T path).isSome = false := by simpa [pure, Except.pure] using h
  simpa using hnone

theorem destination_free (h : Prepared layout T a) {target : Location}
    (ht : destination layout a = some target) :
    ∃ path, Resolves layout target path ∧ T path = none := by
  cases hstate : a.plan.predictedState with
  | willMove =>
    obtain ⟨planned, hplanned, hfree⟩ := h.moved hstate
    have hsame : planned = target := by
      simpa [destination, hstate, hplanned] using ht
    exact freeAt_resolves (hsame ▸ hfree)
  | willManualReview =>
    obtain ⟨planned, hplanned, hfree⟩ := h.manual hstate
    rw [manualTarget_destination hstate hplanned] at ht
    exact freeAt_resolves (Option.some.inj ht ▸ hfree)
  | requiresDecision => simp [destination, hstate] at ht
  | notReady => simp [destination, hstate] at ht

theorem source_resolves (h : Prepared layout T a) : ∃ path, Resolves layout a.item.source path ∧
    T path = some (.file a.item.fingerprint) := by
  obtain ⟨path, hpath, hstat⟩ := h.source
  obtain ⟨components, hparts, hseen⟩ := bind_eq_ok.mp hstat
  exact ⟨path, ⟨hpath, components, hparts⟩, fileAt_eq_some.mp (Except.ok.inj hseen)⟩

theorem prepared_feasible (h : Prepared layout T a) : Feasible T (job layout a) := by
  obtain ⟨source, hsource, hfile⟩ := source_resolves h
  refine ⟨?_, fun d hd => ?_⟩
  · simpa [job, pathOf_resolves hsource] using hfile
  · obtain ⟨target, htarget, rfl⟩ := Option.map_eq_some_iff.mp hd
    obtain ⟨path, hpath, hfree⟩ := destination_free h htarget
    rw [pathOf_resolves hpath]
    exact hfree

/-- The directories of a mover are there: the calls that open them do not fail. -/
def DirectoriesOpen (layout : Layout) (T : FileTree) (a : Attempt) : Prop :=
  ∀ target, destination layout a = some target →
    Opens T (pathOf layout a.item.source) ∧ Opens T (pathOf layout target)

theorem prepared_workable (h : Prepared layout T a) (hopen : DirectoriesOpen layout T a) :
    Workable layout T a where
  queued := h.queued
  source := let ⟨path, hpath, _⟩ := source_resolves h; ⟨path, hpath⟩
  moved hstate := let ⟨target, htarget, _⟩ := h.moved hstate; ⟨target, htarget⟩
  manual hstate := let ⟨target, htarget, _⟩ := h.manual hstate; ⟨target, htarget⟩
  target _ ht := let ⟨path, hpath, _⟩ := destination_free h ht; ⟨path, hpath⟩
  opens := hopen

theorem calm_order {order : List Attempt} {w : World}
    (hnodup : (order.map (·.attemptId)).Nodup) (h : Progress v.layout T [] order w) :
    (calmContract v).wp ((calm v).body (order.map (·.attemptId)))
      (fun _ t => Progress v.layout T order [] t) w := by
  refine wp_mono ?_ (wp_foldlM (K := fun l t => ∃ ran rest, l = rest.map (·.attemptId) ∧
    ran ++ rest = order ∧ Progress v.layout T ran rest t) (E := fun _ => False) ?_ _ 0
    ⟨[], order, rfl, rfl, h⟩)
  · rintro (e | processed) t ht
    · exact ht.elim
    · obtain ⟨ran, rest, hrest, rfl, hprogress⟩ := ht
      obtain rfl : rest = [] := List.map_eq_nil_iff.mp hrest.symm
      rw [List.append_nil]
      exact hprogress
  · rintro processed id l t ⟨ran, rest, hl, rfl, hprogress⟩
    cases rest with
    | nil => cases hl
    | cons a rest =>
      obtain ⟨rfl, rfl⟩ := List.cons.inj hl
      obtain ⟨hrow, q, hq⟩ := hprogress.waiting a (List.mem_cons_self ..)
      have hat : At t.tree a t t := ⟨rfl, hrow, fun _ _ _ hb => hb, fun _ q hq => ⟨q, hq⟩⟩
      refine wp_mono ?_ (calm_runTurn hat (hprogress.workable a (List.mem_cons_self ..)) ⟨q, hq⟩
        processed)
      rintro r u ⟨rfl, hturned⟩
      exact ⟨ran ++ [a], rest, rfl, by simp, hprogress.step hnodup hturned⟩

theorem foretold_iff {ran : List Attempt} {w : World} (h : Progress v.layout T ran [] w) :
    (∀ a ∈ ran, predicted a = true → Foretold v.layout a w) ↔
      AsPlanned T (jobs v.layout ran) := by
  unfold AsPlanned
  rw [← h.fulfilled, ← h.tree]
  constructor
  · intro hall
    refine ⟨fun a ha hp => (hall a ha hp).1, fun j hj => ?_⟩
    obtain ⟨a, ha, rfl⟩ := List.mem_map.mp hj
    exact (hall a (List.mem_filter.mp ha).1 (List.mem_filter.mp ha).2).2
  · rintro ⟨hends, hplaces⟩ a ha hp
    exact ⟨hends a ha hp, hplaces _ (List.mem_map.mpr ⟨a, List.mem_filter.mpr ⟨ha, hp⟩, rfl⟩)⟩

/-- A batch accepted by an idle service comes out as planned exactly when its rows are apart. -/
theorem plan_execution {m : Machine World Cmd Op Val Exn Reply} (h : Run v anyStep m)
    (hidle : Idle m.state.store) {drawn : Draws} {now : Time} {actor requestId : Text}
    {request : BatchRequest} {s : Store}
    (ha : accept v.layout v.casefold m.state.tree drawn now actor requestId request
      m.state.store = .ok s)
    (hopen : ∀ a ∈ attemptsOf s drawn.batch, DirectoriesOpen v.layout m.state.tree a) :
    PlanHolds v { m.state with store := s } drawn.batch ↔
      RowsApart v { m.state with store := s } drawn.batch := by
  obtain ⟨hnodup, hattempts⟩ := accepted_prepared h hidle ha
  have hfeasible : ∀ j ∈ jobs v.layout (attemptsOf s drawn.batch), Feasible m.state.tree j := by
    intro j hj
    obtain ⟨a, ha, rfl⟩ := List.mem_map.mp hj
    exact prepared_feasible (hattempts a (List.mem_filter.mp ha).1).2.1
  have hend : ∀ order : List Attempt, order.Perm (attemptsOf s drawn.batch) → ∀ n u,
      Held (calm v) ⟨{ m.state with store := s }, some (order.map (·.attemptId),
        (calm v).body (order.map (·.attemptId)))⟩ n → (calm v).step n .settle = some u →
      Progress v.layout m.state.tree order [] u.state := by
    intro order horder n u hn hu
    have hstart : Progress v.layout m.state.tree [] order { m.state with store := s } := by
      refine ⟨rfl, by simp, by simp [jobs, AllFeasible], fun a ha => ?_, fun a ha => ?_⟩
      · obtain ⟨hrow, _, hq⟩ := hattempts a (horder.mem_iff.mp ha)
        exact ⟨hrow, hq⟩
      · have hmem := horder.mem_iff.mp ha
        exact prepared_workable (hattempts a hmem).2.1 (hopen a hmem)
    have hids : (order.map (·.attemptId)).Nodup := (horder.map _).nodup_iff.mpr hnodup
    obtain ⟨_, hprogress⟩ := wp_settled (fun _ _ _ hq hp => Progress.quiet hp hq) trivial
      (calm_order hids hstart) hn hu
    exact hprogress
  have hiff : ∀ order : List Attempt, order.Perm (attemptsOf s drawn.batch) → ∀ u,
      Progress v.layout m.state.tree order [] u →
      ((∀ a ∈ attemptsOf s drawn.batch, predicted a = true → Foretold v.layout a u) ↔
        RowsApart v { m.state with store := s } drawn.batch) := by
    intro order horder u hu
    have hperm : (jobs v.layout order).Perm (jobs v.layout (attemptsOf s drawn.batch)) :=
      (horder.filter _).map _
    have hmem : ∀ a, a ∈ attemptsOf s drawn.batch ↔ a ∈ order := fun a => horder.mem_iff.symm
    simp only [hmem]
    rw [foretold_iff hu, asPlanned_iff fun j hj => hfeasible j (hperm.mem_iff.mp hj)]
    exact apart_perm hperm
  constructor
  · intro hholds
    obtain ⟨n, u, hn, hu⟩ := held_settles (S := calm v) ⟨false, 0, []⟩
      ((attemptsOf s drawn.batch).map (·.attemptId))
      ((calm v).body ((attemptsOf s drawn.batch).map (·.attemptId))) { m.state with store := s }
    exact (hiff _ (.refl _) _ (hend _ (.refl _) n u hn hu)).mp (hholds _ (.refl _) n u hn hu)
  · intro hapart order horder n u hn hu
    exact (hiff order horder _ (hend order horder n u hn hu)).mpr hapart

end Batch

/-! Concrete batches of the small service, with two directories below its incoming root. -/

def twoFolders (files : List (String × Fingerprint)) : FileTree := fun path =>
  if path ∈ (["in/a", "in/b"].map String.toList) then some .directory else smallTree files path

def foldersWorld (ruled : Bool) (files : List (String × Fingerprint)) : World :=
  { smallWorld ruled files with tree := twoFolders files }

theorem foldersWorld_start (ruled : Bool) (files : List (String × Fingerprint)) :
    Start (foldersWorld ruled files) := by
  constructor <;> rfl

/-- A file in each directory; the second one has the given name. -/
def folderFiles (second : String) : List (String × Fingerprint) :=
  [("in/a/f.t", ⟨1, 7, 3, 0⟩), ("in/b/" ++ second, ⟨1, 8, 5, 0⟩)]

def folderEvents (second : String) : List (Event Cmd Choice Env) :=
  let found : List Found := [⟨"a/f.t".toList, ⟨1, 7, 3, 0⟩, "queue-1".toList⟩,
    ⟨("b/" ++ second).toList, ⟨1, 8, 5, 0⟩, "queue-2".toList⟩]
  [.other (.scan "in".toList 0 found), .other (.scan "in".toList 20 found),
    .other (.select ['s'] ['u'] 20 ⟨"co".toList,
      .explicit [("queue-in-1-7".toList, 1), ("queue-in-1-8".toList, 1)]⟩)]

def foldersRun (ruled : Bool) (second : String) : Option (Machine World Cmd Op Val Exn Reply) :=
  (system small).run (checkStep small fun _ _ => true) (folderEvents second)
    ⟨foldersWorld ruled (folderFiles second), none⟩

def acceptFolders (w : World) : Except Exn Store :=
  accept small.layout small.casefold w.tree (smallDraws ['b'] ['t']) 20 ['u'] ['q'] ⟨['s'], none⟩
    w.store

def idleCheck (s : Store) : Bool := s.attempt.toList.all fun entry => entry.2.phase = .done

theorem idleCheck_sound {s : Store} (h : idleCheck s = true) : Idle s := by
  intro id a ha
  have hmem : (id, a) ∈ s.attempt.toList :=
    Std.ExtTreeMap.mem_toList_iff_getElem?_eq_some.mpr ha
  simpa using List.all_eq_true.mp h _ hmem

def opensCheck (tree : FileTree) (path : Text) : Bool :=
  match parts path with
  | .ok components => parentOpens tree components
  | .error _ => true

theorem opensCheck_sound {tree : FileTree} {path : Text} (h : opensCheck tree path = true) :
    Opens tree path := by
  intro components hparts
  simpa [opensCheck, hparts] using h

def directoriesCheck (layout : Layout) (tree : FileTree) (a : Attempt) : Bool :=
  (destination layout a).all fun target =>
    opensCheck tree (pathOf layout a.item.source) && opensCheck tree (pathOf layout target)

theorem directoriesCheck_sound {layout : Layout} {tree : FileTree} {a : Attempt}
    (h : directoriesCheck layout tree a = true) : DirectoriesOpen layout tree a := by
  intro target ht
  simp only [directoriesCheck, ht, Option.all_some, Bool.and_eq_true] at h
  exact h.imp opensCheck_sound opensCheck_sound

/-- An idle service accepts the two files in directories that are there, as `p` has them. -/
def foldersCheck (ruled : Bool) (second : String)
    (p : Machine World Cmd Op Val Exn Reply → Store → Bool) : Bool :=
  (foldersRun ruled second).any fun m => idleCheck m.state.store &&
    match acceptFolders m.state with
    | .ok s => (attemptsOf s ['b']).all (directoriesCheck small.layout m.state.tree) && p m s
    | .error _ => false

theorem foldersCheck_sound {ruled : Bool} {second : String}
    {p : Machine World Cmd Op Val Exn Reply → Store → Bool}
    (h : foldersCheck ruled second p = true) : ∃ m s, Run small anyStep m ∧ Idle m.state.store ∧
      acceptFolders m.state = .ok s ∧
      (∀ a ∈ attemptsOf s ['b'], DirectoriesOpen small.layout m.state.tree a) ∧ p m s = true := by
  obtain ⟨m, hm, h⟩ := (Option.any_eq_true _ _).mp h
  obtain ⟨hidle, h⟩ := Bool.and_eq_true_iff.mp h
  refine ⟨m, ?_⟩
  split at h
  · rename_i s hs
    obtain ⟨hopen, hp⟩ := Bool.and_eq_true_iff.mp h
    exact ⟨s, run_checked (fun _ _ _ => trivial) (foldersWorld_start _ _) hm,
      idleCheck_sound hidle, hs,
      fun a ha => directoriesCheck_sound (List.all_eq_true.mp hopen a ha), hp⟩
  · cases h

/-- Both files are to be moved, to two names. -/
theorem plan_execution_folders : ∃ m s, Run small anyStep m ∧ acceptFolders m.state = .ok s ∧
    (attemptsOf s ['b']).map (·.plan.predictedState) = [.willMove, .willMove] ∧
    (PlanHolds small { m.state with store := s } ['b'] ↔
      RowsApart small { m.state with store := s } ['b']) := by
  have hcheck : foldersCheck true "g.u" (fun _ s =>
      (attemptsOf s ['b']).map (·.plan.predictedState) = [.willMove, .willMove]) = true := by
    decide +kernel
  obtain ⟨m, s, hrun, hidle, haccept, hopen, hrows⟩ := foldersCheck_sound hcheck
  exact ⟨m, s, hrun, haccept, of_decide_eq_true hrows, plan_execution hrun hidle haccept hopen⟩

def namesakeCalls : List (Event (List Text) Choice Env) :=
  List.replicate 30 (.call ⟨false, 30, []⟩)

theorem held_calls {S : System World (List Text) Env Choice Op Val Exn ℕ} :
    ∀ (n : ℕ) (x : Choice) {m u : Machine World (List Text) Op Val Exn ℕ},
      S.run (fun _ _ => true) (List.replicate n (.call x)) m = some u → Held S m u
  | 0, _, m, u, h => by
    cases h
    exact .refl m
  | n + 1, x, m, u, h => by
    rw [List.replicate_succ] at h
    rw [System.run, Scripts.play_cons, if_pos rfl] at h
    obtain ⟨next, hnext, h⟩ := Option.bind_eq_some_iff.mp h
    exact .trans (.call (.refl m) hnext) (held_calls n x h)

/-- The end of the execution of two attempts, one after the other. -/
def executed (w : World) : Option (Machine World (List Text) Op Val Exn ℕ) :=
  let order := (attemptsOf w.store ['b']).map (·.attemptId)
  ((calm small).run (fun _ _ => true) namesakeCalls ⟨w, some (order, (calm small).body order)⟩).bind
    fun n => (calm small).step n .settle

/-- Two files of one name and without a rule are both to go to the manual folder; the second
one stays where it is. -/
theorem namesakes_refused : ∃ m s, Run small anyStep m ∧ Idle m.state.store ∧
    acceptFolders m.state = .ok s ∧
    (∀ a ∈ attemptsOf s ['b'], DirectoriesOpen small.layout m.state.tree a) ∧
    ¬PlanHolds small { m.state with store := s } ['b'] := by
  have hcheck : foldersCheck false "f.t" (fun m s =>
      (executed { m.state with store := s }).any fun u => (attemptsOf s ['b']).any fun a =>
        decide (a.plan.predictedState = .willManualReview) &&
          (u.state.store.attempt[a.attemptId]?).all fun b =>
            b.outcome.state = .requiresDecision) = true := by decide +kernel
  obtain ⟨m, s, hrun, hidle, haccept, hopen, hend⟩ := foldersCheck_sound hcheck
  refine ⟨m, s, hrun, hidle, haccept, hopen, fun hholds => ?_⟩
  obtain ⟨u, hu, hrow⟩ := (Option.any_eq_true _ _).mp hend
  obtain ⟨n, hn, hsettle⟩ := Option.bind_eq_some_iff.mp hu
  obtain ⟨a, ha, hrow⟩ := List.any_eq_true.mp hrow
  obtain ⟨hstate, hrow⟩ := Bool.and_eq_true_iff.mp hrow
  have hmanual := of_decide_eq_true hstate
  obtain ⟨⟨b, hb, _, hanswer⟩, _⟩ := hholds _ (.refl _) n u (held_calls 30 _ hn) hsettle a ha
    (by simp [predicted, hmanual])
  rw [hb] at hrow
  have hblocked : b.outcome.state = .requiresDecision := by simpa using hrow
  simp [Answered, hmanual, hblocked] at hanswer

end PlanExecution
