import WiseWay.WorkerContract

/-! # The quarantine service keeps the contract

With it every program under the lock does, and invariants need only the effects and
changes of single steps. -/
namespace ReturnContract

open Records Services AtomicProgram AtomicProgram.Discipline Calls ReturnTransactions
open SortingSystem Effects Changes LockContract WorkerContract

variable {v : Service}

/-- The rows of all other operations are as they were. -/
def OthersKept (operationId : Text) (w t : World) : Prop :=
  ∀ (k : Text), k ≠ operationId → t.store.returns[k]? = w.store.returns[k]?

theorem finishReturn_others {x : Choice} {operationId : Text} {w u : World} {r : ReturnResult}
    (hw : Coherent w) (h : answer v.layout x w (.finishReturn operationId) = .ok (r, u)) :
    OthersKept operationId w u := by
  intro k hk
  obtain ⟨⟨result, s⟩, hs, hu⟩ := bind_eq_ok.mp h
  cases hu
  obtain ⟨o, ho, ⟨_, _, rfl⟩ | ⟨_, card, item, _, _, _, rfl⟩⟩ := finishReturn_cases hs
  · rfl
  · have hkey : o.operationId = operationId := hw.returns_key _ o ho
    simp only [returnedStore, get_put, hkey]
    rw [if_neg (Ne.symm hk)]

theorem lockReturn_others {x : Choice} {operationId : Text} {w u : World} {r : Unit}
    (hw : Coherent w) (h : answer v.layout x w (.lockReturn operationId) = .ok (r, u)) :
    OthersKept operationId w u := by
  intro k hk
  obtain ⟨s, hs, rfl⟩ := commit_eq_ok h
  obtain ⟨o, ho, ⟨_, rfl⟩ | ⟨_, card, _, rfl⟩⟩ := lockReturn_cases hs
  · rfl
  · have hkey : o.operationId = operationId := hw.returns_key _ o ho
    simp only [get_put, hkey]
    rw [if_neg (Ne.symm hk)]

theorem wp_placement {o : ReturnOperation} {w : World}
    (ho : w.store.returns[o.operationId]? = some o)
    {Q : Except Exn (Option Fingerprint × Option Fingerprint) → World → Prop}
    (hQ : ∀ r t, t.store.returns = w.store.returns →
      (r.toOption = some (none, some o.fingerprint) → returnedHome v.layout t o) → Q r t) :
    (discipline v).wp (Quarantine.placement o) Q w := by
  have herror : ∀ (e : Exn) t, t.store.returns = w.store.returns → Q (.error e) t :=
    fun e t ht => hQ _ t ht (by rintro ⟨⟩)
  simp only [Quarantine.placement, bind_eq, wp_bind]
  refine wp_physical fun t₁ h₁ _ => ⟨fun e => herror e t₁ h₁.returns, fun source hsource => ?_⟩
  have hr₁ := h₁.returns
  refine wp_stat fun t₂ h₂ _ => ⟨⟨o, ?_⟩, fun e => herror e t₂ (h₂.returns.trans hr₁), ?_⟩
  · rw [h₂.returns, hr₁]
    exact ho
  have hr₂ := h₂.returns.trans hr₁
  refine wp_physical fun t₃ h₃ _ =>
    ⟨fun e => herror e t₃ (h₃.returns.trans hr₂), fun target htarget => ?_⟩
  have hr₃ := h₃.returns.trans hr₂
  refine wp_stat fun t₄ h₄ _ => ⟨⟨o, ?_⟩, fun e => herror e t₄ (h₄.returns.trans hr₃), ?_⟩
  · rw [h₄.returns, hr₃]
    exact ho
  refine hQ _ _ (h₄.returns.trans hr₃) fun hseen => ?_
  obtain ⟨hbefore, hafter⟩ : fileAt t₂.tree source = none ∧
      fileAt t₄.tree target = some o.fingerprint := by simpa [Except.toOption] using hseen
  exact ⟨source, target, t₄.tree, t₂.tree, t₂.log, hsource, htarget,
    by rw [h₄.log, h₃.log], hafter, hbefore⟩

theorem wp_resolvePending {o : ReturnOperation} {w : World}
    (ho : w.store.returns[o.operationId]? = some o) (hphase : pendingReturn o.phase = true) :
    (discipline v).wp (Quarantine.resolvePending o)
      (fun _ t => OthersKept o.operationId w t) w := by
  simp only [Quarantine.resolvePending, bind_eq]
  refine wp_bind.mpr (wp_attempt.mpr (wp_placement ho fun r t hreturns hhome => ?_))
  have hkept : ∀ u, u.store.returns = t.store.returns → OthersKept o.operationId w u := by
    intro u hu k _
    rw [hu, hreturns]
  have hrow : ∀ u, Rely t u → u.store.returns[o.operationId]? = some o := by
    intro u hu
    rw [hu.returns, hreturns]
    exact ho
  simp only []
  split
  · rename_i hseen
    refine wp_call fun t₁ h₁ hi₁ => ⟨⟨o, hrow t₁ h₁, hphase, ?_⟩, fun e _ => ?_, ?_⟩
    · simpa only [returnedHome, h₁.log] using hhome hseen
    · exact hkept t₁ h₁.returns
    · intro x r u ha _ k hk
      rw [finishReturn_others hi₁ ha k hk]
      exact hkept t₁ h₁.returns k hk
  · refine wp_bind.mpr (wp_call fun t₁ h₁ hi₁ => ⟨⟨o, hrow t₁ h₁, hphase⟩, fun e _ => ?_, ?_⟩)
    · exact hkept t₁ h₁.returns
    · intro x r u ha _ k hk
      rw [lockReturn_others hi₁ ha k hk]
      exact hkept t₁ h₁.returns k hk

theorem wp_resolve {o : ReturnOperation} {w : World}
    (ho : w.store.returns[o.operationId]? = some o) :
    (discipline v).wp (Quarantine.resolve o) (fun _ t => OthersKept o.operationId w t) w := by
  have hsame : OthersKept o.operationId w w := fun _ _ => rfl
  unfold Quarantine.resolve
  cases hphase : o.phase with
  | intent => exact wp_resolvePending ho (by rw [hphase]; rfl)
  | recoveryRequired => exact wp_resolvePending ho (by rw [hphase]; rfl)
  | done => cases o.result <;> exact hsame
  | rejected => cases o.error <;> exact hsame

theorem safe_resolve {o : ReturnOperation} {w : World}
    (ho : w.store.returns[o.operationId]? = some o) : Safe v (Quarantine.resolve o) w :=
  wp_mono (fun _ _ _ => trivial) (wp_resolve ho)

theorem began_quiet {w : World} {id : Text} {request : ReturnRequest} {card : QuarantineCard}
    (hw : Coherent w) (hfree : w.store.returns[id]? = none)
    (hcard : w.store.quarantine[request.quarantineId]? = some card) :
    beginLog id request false w = .began id card :: w.log ∧
    (∀ s u, Trace.issued (.returnOp id) s u ∉ beginLog id request false w) ∧
    ∀ s u e, Trace.moved (.returnOp id) s u e ∉ beginLog id request false w := by
  have hunknown : ∀ e ∈ w.log, traceOwner e ≠ .returnOp id := by
    intro e he howner
    obtain ⟨o, ho⟩ : ownerKnown w (.returnOp id) := howner ▸ hw.log_owned e he
    cases hfree.symm.trans ho
  have hlog : beginLog id request false w = .began id card :: w.log := by
    simp [beginLog, hcard]
  refine ⟨hlog, fun s u he => ?_, fun s u e he => ?_⟩
  · rw [hlog, List.mem_cons] at he
    exact hunknown _ (he.resolve_left (by rintro ⟨⟩)) rfl
  · rw [hlog, List.mem_cons] at he
    exact hunknown _ (he.resolve_left (by rintro ⟨⟩)) rfl

theorem safe_beginReturn {request : ReturnRequest} {α : Type}
    {f : ReturnOperation × Bool → Program α} {w : World}
    (hreplayed : ∀ t o, t.store.returns[o.operationId]? = some o → Safe v (f (o, true)) t)
    (hnew : ∀ t o, t.store.returns[o.operationId]? = some o → o.phase = .intent →
      (∀ s u, Trace.issued (.returnOp o.operationId) s u ∉ t.log) →
      (∀ s u e, Trace.moved (.returnOp o.operationId) s u e ∉ t.log) → Safe v (f (o, false)) t) :
    Safe v ((call (.beginReturn request)).bind f) w := by
  refine safe_call fun t _ hi => ⟨trivial, fun x r u ha _ => ?_⟩
  obtain ⟨⟨⟨o, replayed⟩, s⟩, hs, hu⟩ := bind_eq_ok.mp ha
  cases hu
  obtain ⟨record, rfl, rfl, _, _, ho⟩ | ⟨card, expected, rfl, _, hcard, _, hfree, rfl, rfl⟩ :=
    beginReturn_cases hs
  · refine hreplayed _ o ?_
    have hkey : o.operationId = record.operationId := hi.returns_key _ o ho
    rw [hkey]
    exact ho
  · obtain ⟨_, hissued, hmoved⟩ := began_quiet hi hfree hcard
    refine hnew _ _ ?_ rfl hissued hmoved
    simp only [get_put]
    exact if_pos rfl

theorem safe_conclude {o : ReturnOperation} {r : Except Exn Unit} {w : World}
    (ho : w.store.returns[o.operationId]? = some o) (hphase : o.phase = .intent)
    (hquiet : r = .error .targetExists →
      ∀ s u e, Trace.moved (.returnOp o.operationId) s u e ∉ w.log) :
    Safe v (Quarantine.conclude o r) w := by
  unfold Quarantine.conclude
  split
  · refine safe_call fun t hwt _ => ⟨⟨?_, hphase, ?_⟩, fun _ _ _ _ _ => trivial⟩
    · rw [hwt.returns]
      exact ho
    · rw [hwt.log]
      exact hquiet rfl
  · exact safe_resolve ho

/-- The move of a new operation: whatever comes of it, the operation is still as it began and
a refusal has moved nothing. -/
theorem wp_newReturn {o : ReturnOperation} {w : World} {Q : Except Exn ReturnResult → World → Prop}
    (ho : w.store.returns[o.operationId]? = some o) (hphase : o.phase = .intent)
    (hissued : ∀ s u, Trace.issued (.returnOp o.operationId) s u ∉ w.log)
    (hmoved : ∀ s u e, Trace.moved (.returnOp o.operationId) s u e ∉ w.log)
    (hQ : ∀ r t, Kept w t → (r = .error .targetExists →
      ∀ s u e, Trace.moved (.returnOp o.operationId) s u e ∉ t.log) →
      (discipline v).wp (Quarantine.conclude o r) Q t) :
    (discipline v).wp ((Prog.attempt ((physical o.source).bind fun source =>
      (physical o.target).bind fun target => renameNoReplace (.returnOp o.operationId) source target
        o.fingerprint)).bind fun r => Quarantine.conclude o r) Q w := by
  have hrow : ∀ {t}, Kept w t → t.store.returns[o.operationId]? = some o := fun ht => by
    rw [ht.returns]
    exact ho
  refine wp_bind.mpr (wp_attempt.mpr (wp_bind.mpr ?_))
  refine wp_physical fun t₁ h₁ _ => ⟨fun e => ?_, fun source hsource => wp_bind.mpr ?_⟩
  · exact hQ _ _ (kept_of_rely h₁) fun _ => h₁.log ▸ hmoved
  refine wp_physical fun t₂ h₂ _ => ?_
  have hk₂ := kept_of_rely (h₁.trans h₂)
  have hlog₂ := (h₁.trans h₂).log
  refine ⟨fun e => hQ _ _ hk₂ fun _ => hlog₂ ▸ hmoved, fun target htarget => ?_⟩
  have hrecorded : recordedSource v.layout t₂ source o.fingerprint (.returnOp o.operationId) :=
    ⟨o, hrow hk₂, rfl, hsource⟩
  refine wp_mono (fun r u hu => ?_) (wp_renameNoReplace hrecorded
    ⟨o, hrow hk₂, hphase, hsource, htarget, hlog₂ ▸ hissued⟩)
  refine hQ r u (hk₂.trans hu.toKept) fun he s q i hin => ?_
  exact hmoved s q i (hlog₂ ▸ hu.refused he s q i hin)

theorem safe_returnItem (request : ReturnRequest) (w : World) :
    Safe v (Quarantine.returnItem request) w := by
  simp only [Quarantine.returnItem, bind_eq]
  refine safe_beginReturn (fun t o ho => ?_) fun t o ho hphase hissued hmoved => ?_
  · exact safe_resolve ho
  simp only [Bool.false_eq_true, if_false]
  refine wp_newReturn ho hphase hissued hmoved fun r u hu hquiet => ?_
  exact safe_conclude (hu.returns ▸ ho) hphase hquiet

/-- The listed operations are distinct and stay as they were listed until their turn. -/
def Listed (l : List ReturnOperation) (w : World) : Prop :=
  (l.map (·.operationId)).Nodup ∧ ∀ o ∈ l, w.store.returns[o.operationId]? = some o

theorem list_keys_nodup {V : Type} {key : V → Text} {t : Table V} (h : Keyed key t) :
    ((list t).map key).Nodup := by
  have hkeys : (list t).map key = t.toList.map Prod.fst := by
    unfold list
    rw [List.map_map]
    refine List.map_congr_left fun entry hentry => ?_
    exact h entry.1 entry.2 (Std.ExtTreeMap.mem_toList_iff_getElem?_eq_some.mp hentry)
  rw [hkeys, List.Nodup, List.pairwise_map]
  refine (Std.ExtTreeMap.distinct_keys_toList (t := t)).imp fun hne heq => hne ?_
  rw [heq]
  exact Std.ReflCmp.compare_self

theorem listed_pending {w : World} (hw : Coherent w) :
    Listed ((list w.store.returns).filter (pendingReturn ·.phase)) w := by
  refine ⟨(list_keys_nodup hw.returns_key).sublist (List.filter_sublist.map _), fun o ho => ?_⟩
  obtain ⟨k, hk⟩ := mem_list.mp (List.mem_filter.mp ho).1
  have hkey : o.operationId = k := hw.returns_key k o hk
  rw [hkey]
  exact hk

theorem safe_reconcile (w : World) : Safe v Quarantine.reconcile w := by
  simp only [Quarantine.reconcile, bind_eq]
  refine safe_call fun t _ hi => ⟨trivial, fun _ _ u ha hu => ?_⟩
  cases ha
  refine wp_mono (fun _ _ _ => trivial) (wp_foldlM (K := Listed) (E := fun _ => True) ?_ _ ()
    (listed_pending hi))
  rintro _ o rest w₁ ⟨hnodup, hrows⟩
  rw [List.map_cons, List.nodup_cons] at hnodup
  have hrest : ∀ t, OthersKept o.operationId w₁ t → Listed rest t := by
    refine fun t ht => ⟨hnodup.2, fun o' ho' => ?_⟩
    rw [ht o'.operationId]
    · exact hrows o' (List.mem_cons_of_mem _ ho')
    · intro heq
      exact hnodup.1 (List.mem_map.mpr ⟨o', ho', heq⟩)
  simp only [Quarantine.reconcileTurn, bind_eq]
  refine wp_bind.mpr (wp_attempt.mpr (wp_mono (fun r t ht => ?_)
    (wp_resolve (hrows o (List.mem_cons_self ..)))))
  simp only []
  split
  · exact hrest t ht
  · exact hrest t ht
  · trivial

/-! Every command. -/

theorem safe_body (c : Cmd) (w : World) : Safe v (body c) w := by
  cases c with
  | runOnce => exact safe_bind (wp_mono (fun _ _ _ _ _ => trivial) (safe_runOnce w))
  | recover id => exact safe_bind (wp_mono (fun _ _ _ _ _ => trivial) (safe_recoverCommand id w))
  | returnItem request =>
    exact safe_bind (wp_mono (fun _ _ _ _ _ => trivial) (safe_returnItem request w))
  | reconcile => exact safe_bind (wp_mono (fun _ _ _ _ _ => trivial) (safe_reconcile w))

/-! The rule for invariants. -/

theorem start_coherent {w : World} (h : Start w) : Coherent w := by
  refine ⟨?_, ?_, ?_, ?_, ?_, ?_⟩ <;>
    simp [Keyed, h.attempt, h.queue, h.quarantine, h.returns, h.log]

/-- Runs of the service from its start whose every step is of the kind `P`. -/
abbrev Run (v : Service) (P : World → World → Prop) :
    Machine World Cmd Op Val Exn Reply → Prop := Reachable (system v) (within v P) Start

def anyStep : World → World → Prop := fun _ _ => True

theorem accepted_invariant {J : World → Prop}
    (haccept : ∀ w t, Coherent w → J w → Accepting w t → J t) {w t : World} (hw : Coherent w)
    (hj : J w) (h : Relation.ReflTransGen Accepting w t) : Coherent t ∧ J t := by
  induction h with
  | refl => exact ⟨hw, hj⟩
  | tail _ hstep ih => exact ⟨Accepting.keeps_coherent ih.1 hstep, haccept _ _ ih.1 ih.2 hstep⟩

section Rule

variable {P : World → World → Prop} {m n : Machine World Cmd Op Val Exn Reply}

theorem run_coherent (h : Run v P m) : Coherent m.state :=
  (safe_reachable (D := discipline v) (fun _ => start_coherent) (fun c w _ => safe_body c w) h).1

theorem run_permit (h : Run v P m) {c : Cmd} {o : Op} {k : Except Exn (Val o) → Program Reply}
    (hm : m.holder = some (c, .call o k)) : permit v.layout m.state o :=
  reachable_permit (D := discipline v) (fun _ => start_coherent) (fun c w _ => safe_body c w) h hm

theorem run_step (h : Run v P m) {e : Event Cmd Choice Env} (hstep : (system v).step m e = some n) :
    n.state = m.state ∨ Effect v.layout m.state n.state ∨ Change v m.state n.state ∨
      Relation.ReflTransGen Accepting m.state n.state := by
  rcases System.step_cases hstep with ⟨_, _, _, rfl⟩ | ⟨x, c, o, k, _, hm, rfl⟩ | ⟨_, rfl⟩ |
    ⟨e, t, _, ht, rfl⟩
  · exact .inl rfl
  · exact .inr (.inl (exec_effect (run_permit h hm)))
  · exact .inl rfl
  · exact .inr (.inr (other_cases (run_coherent h) ht))

theorem invariant {J : World → Prop} (hstart : ∀ w, Start w → J w)
    (heffect : ∀ w t, Coherent w → J w → P w t → Effect v.layout w t → J t)
    (hchange : ∀ w t, Coherent w → J w → P w t → Change v w t → J t)
    (haccept : ∀ w t, Coherent w → J w → Accepting w t → J t) (h : Run v P m) : J m.state := by
  refine reachable_induction (D := discipline v) (fun _ => start_coherent)
    (fun c w _ => safe_body c w)
    hstart ?_ ?_ h
  · intro e w t hw hj hP ht
    rcases other_cases hw ht with hc | ha
    · exact hchange w t hw hj (hP t ht) hc
    · exact (accepted_invariant haccept hw hj ha).2
  · intro o x w hw hj hp hP
    exact heffect w _ hw hj hP (exec_effect hp)

theorem allows_of_step {e : Event Cmd Choice Env}
    (h : ∀ n, (system v).step m e = some n → P m.state n.state) : (within v P).allows m e := by
  cases e with
  | call x =>
    intro c o k hm
    exact h ⟨_, some (c, k (exec v.layout o x m.state).1)⟩ (by simp [System.step, hm, system])
  | other e =>
    intro t ht
    exact h ⟨t, m.holder⟩ (by simp [System.step, system, ht])
  | _ => trivial

theorem run_any (h : Run v P m) : Run v anyStep m := by
  induction h with
  | init hs => exact .init hs
  | tail _ _ hstep ih => exact .tail ih (allows_of_step fun _ _ => trivial) hstep

end Rule

def checkStep (v : Service) (p : World → World → Bool) (m : Machine World Cmd Op Val Exn Reply)
    (e : Event Cmd Choice Env) : Bool :=
  ((system v).step m e).all fun n => p m.state n.state

theorem run_checked {P : World → World → Prop} {p : World → World → Bool}
    (hp : ∀ w t, p w t = true → P w t) {w : World} (hw : Start w)
    {es : List (Event Cmd Choice Env)} {n : Machine World Cmd Op Val Exn Reply}
    (h : (system v).run (checkStep v p) es ⟨w, none⟩ = some n) : Run v P n := by
  refine Reachable.run (fun m e hc => allows_of_step fun u hu => hp _ _ ?_) (.init hw) h
  simpa [checkStep, hu] using hc

end ReturnContract
