import WiseWay.LockContract

/-! # The programs keep the contract

One walk through the text of each program, call by call. -/
namespace WorkerContract

open Records Services AtomicProgram AtomicProgram.Discipline Calls AttemptTransactions
open SortingSystem Effects Changes LockContract

variable {v : Service} {α β : Type}

/-- From here on the program makes only permitted calls. -/
def Safe (v : Service) (p : Program α) (w : World) : Prop :=
  (discipline v).wp p (fun _ _ => True) w

/-- What the holder still knows after its own reads and moves: all but the log. -/
structure Kept (w t : World) : Prop where
  attempt : ∀ (k : Text) a, w.store.attempt[k]? = some a → t.store.attempt[k]? = some a
  returns : t.store.returns = w.store.returns
  quarantine : t.store.quarantine = w.store.quarantine
  returnKey : t.store.returnKey = w.store.returnKey

theorem Kept.refl (w : World) : Kept w w := ⟨fun _ _ h => h, rfl, rfl, rfl⟩

theorem Kept.trans {a b c : World} (hab : Kept a b) (hbc : Kept b c) : Kept a c :=
  ⟨fun k r h => hbc.attempt k r (hab.attempt k r h), hbc.returns.trans hab.returns,
    hbc.quarantine.trans hab.quarantine, hbc.returnKey.trans hab.returnKey⟩

theorem kept_of_rely {w t : World} (h : Rely w t) : Kept w t :=
  ⟨h.attempt, h.returns, h.quarantine, h.returnKey⟩

theorem Kept.put {w t : World} (h : Kept w t) (tree : FileTree) (log : List Trace) :
    Kept w { t with tree := tree, log := log } := ⟨h.attempt, h.returns, h.quarantine, h.returnKey⟩

/-! Rules for the calls. -/

theorem wp_call {o : Op} {Q : Except Exn (Val o) → World → Prop} {w : World}
    (h : ∀ t, Rely w t → Coherent t → permit v.layout t o ∧
      (∀ e, fails v.layout o t e → Q (.error e) (noted t o)) ∧
      ∀ x r u, answer v.layout x (noted t o) o = .ok (r, u) → Coherent u → Q (.ok r) u) :
    (discipline v).wp (call o) Q w := by
  refine wp_perform.mpr fun t hwt ht => ?_
  obtain ⟨hpermit, herror, hok⟩ := h t hwt ht
  refine ⟨hpermit, fun x hx => ?_⟩
  change Coherent (exec v.layout o x t).2 at hx
  change Q (exec v.layout o x t).1 (exec v.layout o x t).2
  rcases exec_cases v.layout o x t with ⟨e, hfail, he⟩ | ⟨r, u, ha, he⟩
  · rw [he]
    exact herror e hfail
  · rw [he] at hx ⊢
    exact hok x r u ha hx

theorem safe_bind {p : Program α} {f : α → Program β} {w : World}
    (h : (discipline v).wp p (fun r t => ∀ a, r = .ok a → Safe v (f a) t) w) :
    Safe v (p.bind f) w := by
  refine wp_bind.mpr (wp_mono ?_ h)
  rintro (e | a) t ht
  · trivial
  · exact ht a rfl

theorem safe_attempt {p : Program α} {f : Except Exn α → Program β} {w : World}
    (h : (discipline v).wp p (fun r t => Safe v (f r) t) w) : Safe v (p.attempt.bind f) w :=
  wp_bind.mpr (wp_attempt.mpr h)

theorem safe_last {o : Op} {w : World} (h : ∀ t, Rely w t → Coherent t → permit v.layout t o) :
    Safe v (call o) w :=
  wp_call fun t hwt ht => ⟨h t hwt ht, fun _ _ => trivial, fun _ _ _ _ _ => trivial⟩

theorem safe_call {o : Op} {f : Val o → Program α} {w : World}
    (h : ∀ t, Rely w t → Coherent t → permit v.layout t o ∧
      ∀ x r u, answer v.layout x (noted t o) o = .ok (r, u) → Coherent u → Safe v (f r) u) :
    Safe v ((call o).bind f) w := by
  refine safe_bind (wp_call fun t hwt ht => ⟨(h t hwt ht).1, fun e _ a ha => ?_, ?_⟩)
  · cases ha
  · intro x r u ha hu a hr
    cases hr
    exact (h t hwt ht).2 x r u ha hu

theorem safe_require {id : Text} {f : Attempt → Program α} {w : World}
    (h : ∀ t a, Rely w t → Coherent t → t.store.attempt[id]? = some a → Safe v (f a) t) :
    Safe v ((call (.requireAttempt id)).bind f) w := by
  refine safe_call fun t hwt ht => ⟨trivial, fun x r u ha _ => ?_⟩
  obtain ⟨a, hrow, hu⟩ := bind_eq_ok.mp ha
  cases hu
  exact h t r hwt ht (require_eq_ok.mp hrow)

theorem safe_get {id : Text} {f : Option Attempt → Program α} {w : World}
    (h : ∀ t, Rely w t → Coherent t → Safe v (f t.store.attempt[id]?) t) :
    Safe v ((call (.getAttempt id)).bind f) w := by
  refine safe_call fun t hwt ht => ⟨trivial, fun x r u ha _ => ?_⟩
  cases ha
  exact h t hwt ht

theorem wp_physical {loc : Location} {Q : Except Exn Text → World → Prop} {w : World}
    (h : ∀ t, Rely w t → Coherent t → (∀ e, Q (.error e) t) ∧
      ∀ path, Services.physical v.layout loc = .ok path → Q (.ok path) t) :
    (discipline v).wp (physical loc) Q w := by
  refine wp_call fun t hwt ht => ⟨trivial, fun e _ => (h t hwt ht).1 e, fun x r u ha _ => ?_⟩
  obtain ⟨path, hpath, hu⟩ := bind_eq_ok.mp ha
  cases hu
  exact (h t hwt ht).2 r hpath

theorem safe_physical {loc : Location} {f : Text → Program α} {w : World}
    (h : ∀ t path, Rely w t → Coherent t → Services.physical v.layout loc = .ok path →
      Safe v (f path) t) : Safe v ((physical loc).bind f) w := by
  refine safe_bind (wp_physical fun t hwt ht => ⟨fun e a ha => ?_, fun path hpath a ha => ?_⟩)
  · cases ha
  · cases ha
    exact h t path hwt ht hpath

theorem wp_stat {owner : Owner} {path : Text}
    {Q : Except Exn (Option Fingerprint) → World → Prop} {w : World}
    (h : ∀ t, Rely w t → Coherent t → ownerKnown t owner ∧ (∀ e, Q (.error e) t) ∧
      Q (.ok (fileAt t.tree path)) { t with log := .seen owner path t.tree :: t.log }) :
    (discipline v).wp (stat owner path) Q w := by
  refine wp_call fun t hwt ht =>
    ⟨(h t hwt ht).1, fun e _ => (h t hwt ht).2.1 e, fun x r u ha _ => ?_⟩
  obtain ⟨observed, hobserved, hu⟩ := bind_eq_ok.mp ha
  obtain ⟨_, _, hr⟩ := bind_eq_ok.mp hobserved
  cases hr
  cases hu
  exact (h t hwt ht).2.2

theorem safe_stat {owner : Owner} {path : Text} {f : Option Fingerprint → Program α} {w : World}
    (h : ∀ t, Rely w t → Coherent t → ownerKnown t owner ∧ Safe v (f (fileAt t.tree path))
      { t with log := .seen owner path t.tree :: t.log }) :
    Safe v ((stat owner path).bind f) w := by
  refine safe_bind (wp_stat fun t hwt ht => ⟨(h t hwt ht).1, fun e a ha => ?_, fun a ha => ?_⟩)
  · cases ha
  · cases ha
    exact (h t hwt ht).2

theorem safe_occupies {loc : Location} {f : Bool → Program α} {w : World}
    (h : ∀ t b, Rely w t → Coherent t → Safe v (f b) t) : Safe v ((occupies loc).bind f) w := by
  refine safe_bind ?_
  simp only [occupies, bind_eq, wp_bind]
  refine wp_physical fun t hwt _ => ⟨fun e a ha => ?_, fun path _ => ?_⟩
  · cases ha
  refine wp_call fun t' htt' _ => ⟨trivial, fun e _ a ha => ?_, fun x r u ha hu a hr => ?_⟩
  · cases ha
  · cases hr
    obtain ⟨b, _, hb⟩ := bind_eq_ok.mp ha
    cases hb
    exact h _ _ (hwt.trans htt') hu

theorem openParent_same {path : Text} {layout : Layout} {x : Choice} {t u : World} {r : Unit}
    (h : answer layout x t (.openParent path) = .ok (r, u)) : u = t := by
  obtain ⟨ps, _, hu⟩ := bind_eq_ok.mp h
  split at hu
  · cases hu; rfl
  · cases hu

/-! The rename. -/

theorem recordedSource_kept {layout : Layout} {w t : World} {path : Text}
    {expected : Fingerprint} {owner : Owner} (hk : Kept w t)
    (h : recordedSource layout w path expected owner) :
    recordedSource layout t path expected owner := by
  cases owner with
  | attempt id =>
    obtain ⟨a, ha, hrest⟩ := h
    exact ⟨a, hk.attempt id a ha, hrest⟩
  | returnOp id =>
    obtain ⟨o, ho, hrest⟩ := h
    exact ⟨o, hk.returns ▸ ho, hrest⟩

theorem intended_kept {layout : Layout} {w t : World} {source target : Text} {owner : Owner}
    (hk : Kept w t) (hlog : ∀ s u, Trace.issued owner s u ∈ t.log → Trace.issued owner s u ∈ w.log)
    (h : intended layout w source target owner) : intended layout t source target owner := by
  cases owner with
  | attempt id =>
    obtain ⟨a, i, ha, hrest⟩ := h
    exact ⟨a, i, hk.attempt id a ha, hrest⟩
  | returnOp id =>
    obtain ⟨o, ho, hphase, hsource, htarget, hnew⟩ := h
    exact ⟨o, hk.returns ▸ ho, hphase, hsource, htarget, fun s u hs => hnew s u (hlog s u hs)⟩

/-- Nothing the lock protects but the log has changed, and the log has gained no move. -/
structure Still (owner : Owner) (w t : World) : Prop extends Kept w t where
  issued : ∀ s u, Trace.issued owner s u ∈ t.log → Trace.issued owner s u ∈ w.log
  moved : ∀ s u e, Trace.moved owner s u e ∈ t.log → Trace.moved owner s u e ∈ w.log

theorem Still.refl (owner : Owner) (w : World) : Still owner w w :=
  ⟨.refl w, fun _ _ h => h, fun _ _ _ h => h⟩

theorem Still.rely {owner : Owner} {w t u : World} (h : Still owner w t) (htu : Rely t u) :
    Still owner w u :=
  ⟨h.toKept.trans (kept_of_rely htu), fun s r hs => h.issued s r (htu.log ▸ hs),
    fun s r e hs => h.moved s r e (htu.log ▸ hs)⟩

theorem Still.checked {owner : Owner} {w t : World} (h : Still owner w t) :
    Still owner w { t with log := .checked owner :: t.log } :=
  ⟨h.toKept.put _ _, fun s u hs => h.issued s u (by simpa using hs),
    fun s u e hs => h.moved s u e (by simpa using hs)⟩

/-- What is known of the world in which a rename ends. -/
structure Renamed (owner : Owner) (w : World) (r : Except Exn Unit) (t : World) : Prop
    extends Kept w t where
  done : r = .ok () → ∃ s u e, Trace.moved owner s u e ∈ t.log
  refused : r = .error .targetExists → ∀ s u e, Trace.moved owner s u e ∈ t.log →
    Trace.moved owner s u e ∈ w.log

theorem Still.failed {owner : Owner} {w t : World} (h : Still owner w t) (e : Exn) :
    Renamed owner w (.error e) t :=
  ⟨h.toKept, nofun, fun _ => h.moved⟩

theorem wp_before {owner : Owner} {o : Op} {f : Val o → Program Unit} {w t : World}
    (ht : Still owner w t) (hpermit : ∀ u, Still owner w u → permit v.layout u o)
    (hnoted : ∀ u, noted u o = u)
    (hnext : ∀ x r u n, Still owner w u → answer v.layout x u o = .ok (r, n) →
      (discipline v).wp (f r) (Renamed owner w) n) :
    (discipline v).wp ((call o).bind f) (Renamed owner w) t := by
  refine wp_bind.mpr (wp_call fun u htu _ => ⟨hpermit u (ht.rely htu), fun e _ => ?_, ?_⟩)
  · rw [hnoted]
    exact (ht.rely htu).failed e
  · intro x r n ha _
    rw [hnoted] at ha
    exact hnext x r u n (ht.rely htu) ha

theorem wp_behind {owner : Owner} {o : Op} {f : Val o → Program Unit} {w t : World}
    (hk : Kept w t) (hmoved : ∃ s u e, Trace.moved owner s u e ∈ t.log)
    (hpermit : ∀ u, permit v.layout u o) (hnoted : ∀ u, noted u o = u)
    (hquiet : ∀ u, ¬fails v.layout o u .targetExists)
    (hsame : ∀ x r u n, answer v.layout x u o = .ok (r, n) → n = u)
    (hnext : ∀ r u, Kept w u → (∃ s t e, Trace.moved owner s t e ∈ u.log) →
      (discipline v).wp (f r) (Renamed owner w) u) :
    (discipline v).wp ((call o).bind f) (Renamed owner w) t := by
  refine wp_bind.mpr (wp_call fun u htu _ => ⟨hpermit u, fun e he => ?_, ?_⟩)
  · rw [hnoted]
    refine ⟨hk.trans (kept_of_rely htu), nofun, fun hr => ?_⟩
    cases hr
    exact absurd he (hquiet u)
  · intro x r n ha _
    rw [hnoted] at ha
    rw [hsame x r u n ha]
    exact hnext r u (hk.trans (kept_of_rely htu)) (htu.log ▸ hmoved)

theorem verifyTarget_answer (layout : Layout) (x : Choice) (t : World) (path : Text)
    (expected : Fingerprint) :
    answer layout x t (.verifyTarget path expected) = .ok ((), t) ∨
      answer layout x t (.verifyTarget path expected) = .error .postRenameChanged := by
  simp only [answer]
  split
  · exact .inl rfl
  · exact .inr rfl

theorem wp_afterRename {owner : Owner} {w t : World} {source target : Text}
    {expected : Fingerprint} (hk : Kept w t) (hmoved : ∃ s u e, Trace.moved owner s u e ∈ t.log) :
    (discipline v).wp (((call (.verifyTarget target expected)).bind fun _ =>
      (call (.fsync target)).bind fun _ => (call (.fsync target)).bind fun _ =>
        call (.fsync source))) (Renamed owner w) t := by
  have hfsync : ∀ (path : Text) (u : World), ¬fails v.layout (.fsync path) u .targetExists := by
    rintro path u (h | ⟨x, h⟩) <;> cases h
  have hsync : ∀ (path : Text) x (r : Unit) (u n : World),
      answer v.layout x u (.fsync path) = .ok (r, n) → n = u := by
    intro path x r u n h
    cases h
    rfl
  refine wp_behind hk hmoved (fun _ => trivial) (fun _ => rfl) ?_ ?_ fun _ t₁ hk₁ hm₁ => ?_
  · rintro u (h | ⟨x, h⟩)
    · cases h
    · rcases verifyTarget_answer v.layout x u target expected with ha | ha <;>
        exact absurd (ha.symm.trans h) (by simp)
  · intro x r u n h
    rcases verifyTarget_answer v.layout x u target expected with ha | ha <;>
      rw [ha] at h <;> cases h
    rfl
  refine wp_behind hk₁ hm₁ (fun _ => trivial) (fun _ => rfl) (hfsync _) (hsync _)
    fun _ t₂ hk₂ hm₂ => ?_
  refine wp_behind hk₂ hm₂ (fun _ => trivial) (fun _ => rfl) (hfsync _) (hsync _)
    fun _ t₃ hk₃ hm₃ => ?_
  refine wp_call fun t₄ h₄ _ => ⟨trivial, fun e he => ?_, fun x r n ha _ => ?_⟩
  · refine ⟨hk₃.trans (kept_of_rely h₄), nofun, fun hr => ?_⟩
    cases hr
    exact absurd he (hfsync _ _)
  · cases ha
    exact ⟨hk₃.trans (kept_of_rely h₄), fun _ => h₄.log ▸ hm₃, nofun⟩

/-- Each rename is of the recorded file, from its recorded place, to the durable target, and
directly follows a check of its identity. -/
theorem wp_renameNoReplace {owner : Owner} {w : World} {source target : Text}
    {expected : Fingerprint} (hsource : recordedSource v.layout w source expected owner)
    (hintended : intended v.layout w source target owner) :
    (discipline v).wp (renameNoReplace owner source target expected) (Renamed owner w) w := by
  have hrecorded : ∀ u, Still owner w u → recordedSource v.layout u source expected owner :=
    fun u hu => recordedSource_kept hu.toKept hsource
  simp only [renameNoReplace, bind_eq]
  refine wp_before (.refl owner w) (fun _ _ => trivial) (fun _ => rfl) fun _ _ u₁ n₁ h₁ ha₁ => ?_
  cases ha₁
  refine wp_before h₁ (fun _ _ => trivial) (fun _ => rfl) fun _ _ u₂ n₂ h₂ ha₂ => ?_
  obtain rfl := openParent_same ha₂
  refine wp_before h₂ (fun _ _ => trivial) (fun _ => rfl) fun _ _ u₃ n₃ h₃ ha₃ => ?_
  obtain rfl := openParent_same ha₃
  refine wp_before h₃ hrecorded (fun _ => rfl) fun _ _ u₄ n₄ h₄ ha₄ => ?_
  obtain ⟨⟨⟩, _, hn₄⟩ := bind_eq_ok.mp ha₄
  cases hn₄
  refine wp_before h₄.checked hrecorded (fun _ => rfl) fun _ _ u₅ n₅ h₅ ha₅ => ?_
  obtain ⟨⟨⟩, _, hn₅⟩ := bind_eq_ok.mp ha₅
  cases hn₅
  refine wp_bind.mpr (wp_call fun u₆ h₆ _ => ⟨?_, fun e _ => ?_, fun x r n₆ ha₆ _ => ?_⟩)
  · have hstill := h₅.checked.rely h₆
    exact ⟨intended_kept hstill.toKept hstill.issued hintended, u₅.log, h₆.log⟩
  · have hstill := h₅.checked.rely h₆
    exact ⟨hstill.toKept.put _ _, nofun, fun _ s u e hs =>
      hstill.moved s u e (by simpa [noted] using hs)⟩
  · obtain ⟨⟨entry, tree⟩, _, hn₆⟩ := bind_eq_ok.mp ha₆
    cases hn₆
    refine wp_afterRename ((h₅.checked.rely h₆).toKept.put _ _) ⟨source, target, entry, ?_⟩
    exact List.mem_cons_self ..

/-! The worker. -/

theorem concluded_rely {layout : Layout} {w t : World} (h : Rely w t) {id : Text} {a : Attempt}
    {state : OutcomeState} {reason : Option Reason} {actual : Option Location}
    (hend : concluded layout w id a state reason actual) :
    concluded layout t id a state reason actual := by
  simpa only [concluded, arrived, h.log] using hend

theorem safe_finish {id : Text} {a : Attempt} {state : OutcomeState} {reason : Option Reason}
    {actual : Option Location} {w : World} (ha : w.store.attempt[id]? = some a)
    (hend : concluded v.layout w id a state reason actual) :
    Safe v (Worker.finish id state reason actual) w :=
  safe_call fun _ hwt _ => ⟨⟨a, hwt.attempt id a ha, concluded_rely hwt hend⟩,
    fun _ _ _ _ _ => trivial⟩

theorem safe_recoveryRequired (id : Text) (actual : Option Location) (w : World) :
    Safe v (Worker.recoveryRequired id actual) w :=
  safe_last fun _ _ _ => trivial

/-- An attempt whose stored intent may be carried out. -/
def Armed (w : World) (id : Text) (a : Attempt) : Prop :=
  w.store.attempt[id]? = some a ∧ a.phase = .intent

theorem Armed.kept {w t : World} {id : Text} {a : Attempt} (h : Armed w id a) (hk : Kept w t) :
    Armed t id a := ⟨hk.attempt id a h.1, h.2⟩

theorem Armed.intended {layout : Layout} {w : World} {id : Text} {a : Attempt} {i : Intent}
    {source target : Text} (h : Armed w id a) (hi : a.intent = some i)
    (hsource : Services.physical layout a.item.source = .ok source)
    (htarget : Services.physical layout i.target = .ok target) :
    Effects.intended layout w source target (.attempt id) :=
  ⟨a, i, h.1, h.2, hi, hsource, htarget⟩

theorem Armed.source {layout : Layout} {w : World} {id : Text} {a : Attempt} {source : Text}
    (h : Armed w id a) (hsource : Services.physical layout a.item.source = .ok source) :
    recordedSource layout w source a.item.fingerprint (.attempt id) := ⟨a, h.1, rfl, hsource⟩

/-- The intent of an armed attempt is on its way to `target`; what it has moved is seen there. -/
theorem safe_seenAtTarget {w : World} {id : Text} {a : Attempt} {i : Intent}
    {source target : Text} {f : Option Fingerprint → Program Bool} (ha : Armed w id a)
    (hsource : Services.physical v.layout a.item.source = .ok source)
    (htarget : Services.physical v.layout i.target = .ok target)
    (hmoved : ∃ s u e, Trace.moved (.attempt id) s u e ∈ w.log)
    (hf : ∀ t, Armed t id a → arrived v.layout t id a i →
      Safe v (f (some a.item.fingerprint)) t)
    (hother : ∀ t o, o ≠ some a.item.fingerprint → Safe v (f o) t) :
    Safe v ((stat (.attempt id) target).bind f) w := by
  refine safe_stat fun t hwt _ => ⟨⟨a, hwt.attempt id a ha.1⟩, ?_⟩
  by_cases hseen : fileAt t.tree target = some a.item.fingerprint
  · rw [hseen]
    refine hf _ ((ha.kept (kept_of_rely hwt)).kept ((Kept.refl t).put _ _)) ?_
    exact ⟨source, target, t.tree, t.log, hsource, htarget, rfl, hseen, .inr (hwt.log ▸ hmoved)⟩
  · exact hother _ _ hseen

theorem wp_renameArmed {w : World} {id : Text} {a : Attempt} {i : Intent} {source target : Text}
    (ha : Armed w id a) (hi : a.intent = some i)
    (hsource : Services.physical v.layout a.item.source = .ok source)
    (htarget : Services.physical v.layout i.target = .ok target)
    {Q : Except Exn Unit → World → Prop}
    (hQ : ∀ r t, Armed t id a → (r = .ok () → ∃ s u e, Trace.moved (.attempt id) s u e ∈ t.log) →
      Q r t) :
    (discipline v).wp (renameNoReplace (.attempt id) source target a.item.fingerprint) Q w :=
  wp_mono (fun r t hr => hQ r t (ha.kept hr.toKept) hr.done)
    (wp_renameNoReplace (ha.source hsource) (ha.intended hi hsource htarget))

theorem safe_quarantineIntent {w : World} {id : Text} {a : Attempt} {i : Intent}
    {source : Text} {target : Location} {tree : FileTree} {older : List Trace}
    {f : Unit → Program α} (ha : Armed w id a) (hi : a.intent = some i)
    (htarget : quarantineTarget v.layout a = .ok target)
    (hsource : Services.physical v.layout a.item.source = .ok source)
    (hlog : w.log = .seen (.attempt id) source tree :: older)
    (hseen : fileAt tree source = some a.item.fingerprint)
    (hf : ∀ t, Armed t id { a with intent := some ⟨target, .quarantined, some .technicalError⟩ } →
      Safe v (f ()) t) : Safe v ((call (.quarantineIntent id target)).bind f) w := by
  refine safe_call fun t hwt _ => ⟨?_, fun x r u hset _ => ?_⟩
  · exact ⟨a, i, source, tree, older, hwt.attempt id a ha.1, ha.2, hi, htarget, hsource,
      hwt.log.trans hlog, hseen⟩
  · obtain ⟨s, hs, rfl⟩ := commit_eq_ok hset
    obtain ⟨saved, hsaved, rfl⟩ := quarantineIntent_cases hs
    obtain rfl : saved = a := Option.some.inj (hsaved.symm.trans (hwt.attempt id _ ha.1))
    exact hf _ ⟨by rw [get_put, if_pos rfl], ha.2⟩

theorem safe_quarantineOrRecover {w : World} {id : Text} {a : Attempt} {i : Intent}
    (ha : Armed w id a) (hi : a.intent = some i) :
    Safe v (Worker.quarantineOrRecover id) w := by
  simp only [Worker.quarantineOrRecover, bind_eq]
  refine safe_require fun t₁ a₁ h₁ _ hrow => ?_
  obtain rfl : a₁ = a := Option.some.inj (hrow.symm.trans (h₁.attempt id a ha.1))
  have ha₁ := ha.kept (kept_of_rely h₁)
  refine safe_physical fun t₂ source h₂ _ hsource => ?_
  refine safe_stat fun t₃ h₃ _ => ⟨⟨_, (h₂.trans h₃).attempt id _ ha₁.1⟩, ?_⟩
  have ha₃ : Armed { t₃ with log := .seen (.attempt id) source t₃.tree :: t₃.log } id a₁ :=
    ha₁.kept ((kept_of_rely (h₂.trans h₃)).put _ _)
  split
  · exact safe_recoveryRequired _ _ _
  rename_i hsame
  rw [not_not] at hsame
  refine safe_call fun t₄ h₄ _ => ⟨trivial, fun _ quarantine _ hq _ => ?_⟩
  obtain ⟨_, hquarantine, hu⟩ := bind_eq_ok.mp hq
  cases hu
  refine safe_occupies fun t₅ occupied h₅ _ => ?_
  split
  · exact safe_recoveryRequired _ _ _
  have h₃₅ := h₄.trans h₅
  refine safe_quarantineIntent (ha₃.kept (kept_of_rely h₃₅)) hi hquarantine hsource h₃₅.log hsame
    fun t₇ ha₇ => ?_
  -- From here on the quarantine path is the durable target.
  refine safe_attempt (wp_bind.mpr ?_)
  refine wp_physical fun t₈ h₈ _ => ⟨fun e => safe_recoveryRequired _ _ _, fun path hpath => ?_⟩
  refine wp_bind.mpr ?_
  refine wp_physical fun t₉ h₉ _ => ⟨fun e => safe_recoveryRequired _ _ _, fun goal hgoal => ?_⟩
  refine wp_renameArmed (ha₇.kept (kept_of_rely (h₈.trans h₉))) rfl hpath hgoal
    fun r t ht hdone => ?_
  cases r with
  | error e => exact safe_recoveryRequired _ _ _
  | ok =>
    refine safe_physical fun t' goal' ht' _ hgoal' => ?_
    refine safe_seenAtTarget (i := ⟨quarantine, .quarantined, some .technicalError⟩)
      (ht.kept (kept_of_rely ht')) hpath hgoal' (ht'.log ▸ hdone rfl)
      (fun n hn harrived => ?_) fun n o ho => ?_
    · rw [if_neg (by simp)]
      exact safe_finish hn.1 (.inr (.inr ⟨_, rfl, rfl, rfl, rfl, harrived⟩))
    · rw [if_pos ho]
      exact safe_recoveryRequired _ _ _

theorem safe_afterRename {w : World} {id : Text} {a : Attempt} {i : Intent}
    {source target : Text} (ha : Armed w id a) (hi : a.intent = some i)
    (hsource : Services.physical v.layout a.item.source = .ok source)
    (htarget : Services.physical v.layout i.target = .ok target)
    (hmoved : ∃ s u e, Trace.moved (.attempt id) s u e ∈ w.log) :
    Safe v (Worker.afterRename id target a.item.fingerprint) w := by
  simp only [Worker.afterRename, bind_eq]
  refine safe_seenAtTarget ha hsource htarget hmoved (fun t ht harrived => ?_) fun t o ho => ?_
  · rw [if_neg (by simp)]
    refine safe_require fun t₁ a₁ h₁ _ hrow => ?_
    obtain rfl : a₁ = a := Option.some.inj (hrow.symm.trans (h₁.attempt id a ht.1))
    simp only [hi]
    have hlast : arrived v.layout t₁ id a₁ i := by simpa only [arrived, h₁.log] using harrived
    exact safe_finish hrow (.inr (.inr ⟨i, hi, rfl, rfl, rfl, hlast⟩))
  · rw [if_pos ho]
    exact safe_recoveryRequired _ _ _

theorem safe_executeIntent (id : Text) (w : World) : Safe v (Worker.executeIntent id) w := by
  simp only [Worker.executeIntent, bind_eq]
  refine safe_require fun t₁ a h₁ _ hrow => ?_
  split
  · rename_i i hphase hi
    have ha₁ : Armed t₁ id a := ⟨hrow, hphase⟩
    refine safe_physical fun t₂ source h₂ _ hsource => ?_
    refine safe_physical fun t₃ target h₃ _ htarget => ?_
    refine safe_attempt (wp_renameArmed (ha₁.kept (kept_of_rely (h₂.trans h₃))) hi hsource htarget
      fun r t ht hdone => ?_)
    split
    · exact safe_finish ht.1 (.inr (.inl rfl))
    · exact safe_recoveryRequired _ _ _
    · refine safe_stat fun t₄ h₄ _ => ⟨⟨_, h₄.attempt id a ht.1⟩, ?_⟩
      split
      · exact safe_finish (h₄.attempt id a ht.1) (.inl rfl)
      · exact safe_finish (h₄.attempt id a ht.1) (.inl rfl)
    · exact safe_quarantineOrRecover ht hi
    · exact safe_afterRename ht hi hsource htarget (hdone rfl)
  · trivial
  · trivial

theorem safe_recoverIntent {w : World} {id : Text} {a : Attempt} {i : Intent} {allow : Bool}
    (ha : w.store.attempt[id]? = some a) (hphase : a.phase = .intent ∨ a.phase = .recoveryRequired)
    (hi : a.intent = some i) : Safe v (Worker.recoverIntent a i allow id) w := by
  simp only [Worker.recoverIntent, bind_eq]
  refine safe_physical fun t₁ source h₁ _ hsource => ?_
  refine safe_physical fun t₂ target h₂ _ htarget => ?_
  refine safe_stat fun t₃ h₃ _ => ⟨⟨a, ((h₁.trans h₂).trans h₃).attempt id a ha⟩, ?_⟩
  refine safe_stat fun t₄ h₄ _ =>
    ⟨⟨a, h₄.attempt id a (((h₁.trans h₂).trans h₃).attempt id a ha)⟩, ?_⟩
  have ha₄ := h₄.attempt id a (((h₁.trans h₂).trans h₃).attempt id a ha)
  refine safe_call fun t₅ h₅ _ => ⟨trivial, fun _ _ _ hlook _ => ?_⟩
  obtain ⟨_, _, hu⟩ := bind_eq_ok.mp hlook
  cases hu
  have ha₅ := h₅.attempt id a ha₄
  split
  · rename_i hgone
    refine safe_finish ha₅ (.inr (.inr ⟨i, hi, rfl, rfl, rfl, ?_⟩))
    exact ⟨source, target, t₄.tree, t₄.log, hsource, htarget, h₅.log, hgone.2,
      .inl ⟨t₃.tree, t₃.log, h₄.log, hgone.1⟩⟩
  split
  · refine safe_call fun t₆ h₆ _ => ⟨⟨a, i, h₆.attempt id a ha₅, hphase, hi⟩, fun _ _ u _ _ => ?_⟩
    exact safe_executeIntent id u
  · exact safe_recoveryRequired _ _ _

theorem safe_recover {retry : Program Bool} {allow : Bool} (hretry : ∀ t, Safe v retry t)
    (id : Text) (w : World) : Safe v (Worker.recover retry allow id) w := by
  simp only [Worker.recover, bind_eq]
  refine safe_get fun t₁ h₁ _ => ?_
  split
  · trivial
  rename_i a hrow
  split
  · trivial
  rename_i hphase
  have hphase : a.phase = .intent ∨ a.phase = .recoveryRequired := by
    by_contra hnone
    exact hphase (not_or.mp hnone)
  split
  · rename_i i hi
    exact safe_recoverIntent hrow hphase hi
  rename_i hi
  split
  · rename_i hlocked
    have hnext : ∀ (r : Except Exn (Option Fingerprint)) t, t.store.attempt[id]? = some a →
        Safe v (if r.toOption = some (some a.item.fingerprint) then
          (call (.requeue id)).bind fun _ => retry else Worker.recoveryRequired id none) t := by
      intro r t ha
      split
      · refine safe_call fun t₄ h₄ _ => ⟨?_, fun _ _ u _ _ => hretry u⟩
        exact ⟨a, h₄.attempt id a ha, hlocked, hi⟩
      · exact safe_recoveryRequired _ _ _
    refine safe_attempt (wp_bind.mpr ?_)
    refine wp_physical fun t₂ h₂ _ => ⟨fun e => ?_, fun source _ => ?_⟩
    · exact hnext (.error e) t₂ (h₂.attempt id a hrow)
    · refine wp_stat fun t₃ h₃ _ => ?_
      have ha₃ := (h₂.trans h₃).attempt id a hrow
      exact ⟨⟨a, ha₃⟩, fun e => hnext (.error e) t₃ ha₃, hnext (.ok _) _ ha₃⟩
  · exact safe_recoveryRequired _ _ _

theorem safe_runQueued {w : World} {id : Text} {a : Attempt}
    (ha : w.store.attempt[id]? = some a) (hphase : a.phase = .queued) :
    Safe v (Worker.runQueued a id) w := by
  simp only [Worker.runQueued, bind_eq]
  refine safe_physical fun t₁ source h₁ _ hsource => ?_
  have ha₁ := h₁.attempt id a ha
  refine safe_attempt (wp_stat fun t₂ h₂ _ =>
    ⟨⟨a, h₂.attempt id a ha₁⟩, fun e => safe_recoveryRequired _ _ _, ?_⟩)
  have ha₂ := h₂.attempt id a ha₁
  split
  · exact safe_recoveryRequired _ _ _
  · exact safe_finish ha₂ (.inl rfl)
  split
  · exact safe_finish ha₂ (.inl rfl)
  split
  · exact safe_finish ha₂ (.inr (.inl rfl))
  · refine safe_call fun t₃ h₃ _ => ⟨⟨a, h₃.attempt id a ha₂, hphase⟩, fun _ _ u _ _ => ?_⟩
    exact safe_executeIntent id u
  · trivial
  · refine safe_call fun t₃ h₃ _ => ⟨trivial, fun _ _ _ hm _ => ?_⟩
    obtain ⟨_, _, hu⟩ := bind_eq_ok.mp hm
    cases hu
    refine safe_occupies fun t₄ occupied h₄ _ => ?_
    have ha₄ := h₄.attempt id a (h₃.attempt id a ha₂)
    split
    · exact safe_finish ha₄ (.inr (.inl rfl))
    · refine safe_call fun t₅ h₅ _ => ⟨⟨a, h₅.attempt id a ha₄, hphase⟩, fun _ _ u _ _ => ?_⟩
      exact safe_executeIntent id u
  · exact safe_finish ha₂ (.inl rfl)

theorem safe_run (id : Text) : ∀ (depth : ℕ) (w : World), Safe v (Worker.run depth id) w
  | 0, _ => trivial
  | depth + 1, w => by
    simp only [Worker.run, bind_eq]
    refine safe_get fun t₁ h₁ _ => ?_
    split
    · trivial
    rename_i a hrow
    split
    · trivial
    · exact safe_recover (safe_run id depth) id t₁
    · exact safe_recover (safe_run id depth) id t₁
    · rename_i hphase
      exact safe_runQueued hrow hphase

theorem safe_runOnce (w : World) : Safe v Worker.runOnce w := by
  simp only [Worker.runOnce, bind_eq]
  refine safe_call fun t _ _ => ⟨trivial, fun _ attempts u _ _ => ?_⟩
  refine wp_mono (fun _ _ _ => trivial) (wp_foldlM (K := fun _ _ => True) (E := fun _ => True) ?_
    attempts 0 trivial)
  intro processed id rest w₁ _
  refine wp_mono (Q := fun _ _ => True) (fun r _ _ => by cases r <;> trivial) ?_
  simp only [Worker.runTurn, bind_eq]
  refine safe_attempt (wp_mono ?_ (safe_run id Worker.recursionLimit w₁))
  rintro (e | ran) t _
  · exact safe_bind (wp_mono (fun _ _ _ _ _ => trivial) (safe_recoveryRequired id none t))
  · simp only []
    split <;> trivial

theorem safe_recoverCommand (id : Text) (w : World) : Safe v (Worker.recoverCommand id) w := by
  simp only [Worker.recoverCommand, bind_eq]
  refine safe_bind (wp_mono ?_ (safe_recover (safe_run id Worker.recursionLimit) id w))
  intro _ t _ _ _
  refine safe_get fun t₁ _ _ => ?_
  split <;> trivial

end WorkerContract
