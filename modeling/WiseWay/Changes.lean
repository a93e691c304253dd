import WiseWay.Effects

/-! # What the parties without the lock can do

A scan touches every stored item at most once and never one under processing; a batch is
accepted one attempt at a time. Both rest on the keys of the tables. -/
namespace Changes

open Records Services Calls Intake AttemptTransactions ReturnTransactions SortingSystem Effects

def Keyed {V : Type} (key : V → Text) (t : Table V) : Prop :=
  ∀ (k : Text) v, t[k]? = some v → key v = k

theorem Keyed.put {V : Type} {key : V → Text} {t : Table V} (h : Keyed key t) {k : Text} {v : V}
    (hv : key v = k) : Keyed key (t.insert k v) := by
  intro j u hu
  rw [get_put] at hu
  split at hu
  · rename_i hkj
    cases hu
    exact hv.trans hkj
  · exact h j u hu

def traceOwner : Trace → Owner
  | .seen owner _ _ => owner
  | .checked owner => owner
  | .issued owner _ _ => owner
  | .moved owner _ _ _ => owner
  | .retried id => .attempt id
  | .began id _ => .returnOp id

/-- Rows are stored under their own identifiers, an identifier of the queue tells its root,
and the log only speaks of stored owners. -/
structure Coherent (w : World) : Prop where
  attempt_key : Keyed Attempt.attemptId w.store.attempt
  queue_key : Keyed (·.itemId) w.store.queue
  quarantine_key : Keyed QuarantineCard.quarantineId w.store.quarantine
  returns_key : Keyed ReturnOperation.operationId w.store.returns
  queue_id : ∀ (k : Text) q, w.store.queue[k]? = some q →
    (∃ fp, k = queueId q.incomingSourceId fp) ∨ drawnShape k
  log_owned : ∀ e ∈ w.log, ownerKnown w (traceOwner e)

/-! The identifiers of the scanner. -/

theorem dash_not_mem_digits (n : ℕ) : '-' ∉ Nat.toDigits 10 n := fun h =>
  absurd (Nat.isDigit_of_mem_toDigits (by decide) (by decide) h) (by decide)

theorem last_dash {a b x y : Text} (hx : '-' ∉ x) (hy : '-' ∉ y)
    (h : a ++ '-' :: x = b ++ '-' :: y) : a = b := by
  rcases List.append_eq_append_iff.mp h with ⟨c, rfl, hc⟩ | ⟨c, rfl, hc⟩
  · cases c with
    | nil => simp
    | cons d c =>
      obtain ⟨_, rfl⟩ : '-' = d ∧ x = c ++ '-' :: y := by simpa using hc
      simp at hx
  · cases c with
    | nil => simp
    | cons d c =>
      obtain ⟨_, rfl⟩ : '-' = d ∧ y = c ++ '-' :: x := by simpa using hc
      simp at hy

theorem last_dashed {a b : Text} {m n : ℕ} (h : a ++ dashed m = b ++ dashed n) : a = b :=
  last_dash (dash_not_mem_digits m) (dash_not_mem_digits n) h

theorem queueId_root {r r' : Text} {fp fp' : Fingerprint} (h : queueId r fp = queueId r' fp') :
    r = r' := by
  unfold queueId at h
  have hdev := last_dashed h
  have hroot := last_dashed hdev
  exact List.append_cancel_left hroot

theorem queueId_not_drawn (r : Text) (fp : Fingerprint) : drawnShape (queueId r fp) = false := by
  have hdrop : (queueId r fp).drop 6 = r ++ (dashed fp.dev ++ dashed fp.ino) := by
    unfold queueId
    rw [List.append_assoc, List.append_assoc]
    exact List.drop_left' rfl
  have hmem : '-' ∈ (queueId r fp).drop 6 := by
    rw [hdrop]
    exact List.mem_append_right _ (List.mem_append_left _ (List.mem_cons_self ..))
  simp only [drawnShape, Bool.and_eq_false_iff, List.all_eq_false]
  exact .inr ⟨'-', hmem, by simp⟩

/-- What a scan may do to the row of one identifier. -/
inductive Rescan (v : Service) (p : Pass) (k : Text) :
    Option QueueItem → Option QueueItem → Prop where
  | kept (q) : Rescan v p k q q
  | same {q file} : locked q = false → q.status ≠ .missing →
      Rescan v p k (some q) (some (p.sameItem v.casefold v.settings q file))
  | changed {q file} : locked q = false → Rescan v p k (some q) (some (p.changedItem q file))
  | missing {q} : q.departed = false → q.status ≠ .processing → q.status ≠ .recoveryRequired →
      Rescan v p k (some q) (some (missingItem q))
  | found {file} : (∃ fp, k = queueId p.rootId fp) ∨ drawnShape k →
      Rescan v p k none (some (p.newItem k file))

section Scan

variable {v : Service} {p : Pass} {w : World}

theorem known_rescan (q : QueueItem) (file : Found) (k : Text) :
    Rescan v p k (some q) (some (p.known v.casefold v.settings q file)) := by
  unfold Pass.known
  by_cases hl : locked q = true
  · simpa [hl] using .kept (some q)
  · rw [Bool.not_eq_true] at hl
    simp only [hl, Bool.false_eq_true, if_false]
    split
    · rename_i hsame
      exact .same hl hsame.2.2
    · exact .changed hl

theorem previous_mem {assigned : List Text} {file : Found} {q : QueueItem}
    (h : p.previous assigned file = some q) : q ∈ p.existing ∧ q.itemId ∉ assigned := by
  unfold Pass.previous at h
  split at h
  · rename_i item hitem
    cases h
    obtain ⟨hlast, hfree⟩ := Option.filter_eq_some_iff.mp hitem
    have := List.mem_of_getLast? hlast
    exact ⟨(List.mem_filter.mp this).1, by simpa using hfree⟩
  · split at h
    · rename_i item hitem
      split at h
      · cases h
        have hmem : q ∈ (p.byInode (inode file.fingerprint)).filter (·.itemId ∉ assigned) := by
          rw [hitem]; simp
        obtain ⟨hin, hfree⟩ := List.mem_filter.mp hmem
        exact ⟨(List.mem_filter.mp hin).1, by simpa using hfree⟩
      · cases h
    · cases h

/-- `existing` is the part of the queue that belongs to the root. -/
structure PassOf (p : Pass) (queue : Table QueueItem) : Prop where
  existing : ∀ q, q ∈ p.existing ↔ queue[q.itemId]? = some q ∧ q.incomingSourceId = p.rootId

/-- How far a pass over the found files has come from the queue it started with. -/
structure Progress (v : Service) (p : Pass) (queue : Table QueueItem) (rest : List Found)
    (st : ScanState) : Prop where
  untouched : ∀ k : Text, k ∉ st.assigned → st.queue[k]? = queue[k]?
  touched : ∀ k : Text, k ∈ st.assigned → Rescan v p k queue[k]? st.queue[k]?
  undrawn : ∀ file ∈ rest, file.drawn ∉ st.assigned

theorem newId_fresh {queue : Table QueueItem} {rest : List Found} {st : ScanState} {file : Found}
    (hqueue : ∀ (k : Text) q, queue[k]? = some q → q.itemId = k ∧
      ((∃ fp, k = queueId q.incomingSourceId fp) ∨ drawnShape k))
    (hp : PassOf p queue) (hst : Progress v p queue (file :: rest) st)
    (hdrawn : drawnShape file.drawn = true ∧ queue[file.drawn]? = none) :
    p.newId st.assigned file ∉ st.assigned ∧ queue[p.newId st.assigned file]? = none ∧
      ((∃ fp, p.newId st.assigned file = queueId p.rootId fp) ∨
        p.newId st.assigned file = file.drawn) := by
  unfold Pass.newId
  by_cases hused : queueId p.rootId file.fingerprint ∈ st.assigned ∨
      queueId p.rootId file.fingerprint ∈ p.existing.map (·.itemId)
  · rw [if_pos hused]
    exact ⟨hst.undrawn file (List.mem_cons_self ..), hdrawn.2, .inr rfl⟩
  · rw [if_neg hused]
    rw [not_or] at hused
    refine ⟨hused.1, ?_, .inl ⟨_, rfl⟩⟩
    by_contra hsome
    obtain ⟨q, hq⟩ := Option.ne_none_iff_exists'.mp hsome
    obtain ⟨hkey, ⟨fp, hfp⟩ | hshape⟩ := hqueue _ q hq
    · refine hused.2 (List.mem_map.mpr ⟨q, (hp.existing q).mpr ?_, hkey⟩)
      exact ⟨hkey ▸ hq, (queueId_root hfp).symm⟩
    · rw [queueId_not_drawn] at hshape
      cases hshape

theorem turn_progress {queue : Table QueueItem} {rest : List Found} {st : ScanState}
    {file : Found}
    (hqueue : ∀ (k : Text) q, queue[k]? = some q → q.itemId = k ∧
      ((∃ fp, k = queueId q.incomingSourceId fp) ∨ drawnShape k))
    (hp : PassOf p queue) (hst : Progress v p queue (file :: rest) st)
    (hshape : ∀ f ∈ file :: rest, drawnShape f.drawn = true ∧ queue[f.drawn]? = none)
    (hnodup : ((file :: rest).map (·.drawn)).Nodup) :
    Progress v p queue rest (p.turn v.casefold v.settings st file) := by
  have hother : ∀ f ∈ rest, f.drawn ∉ st.assigned := fun f hf =>
    hst.undrawn f (List.mem_cons_of_mem _ hf)
  unfold Pass.turn
  split
  · rename_i q hq
    obtain ⟨hmem, hfree⟩ := previous_mem hq
    have hrow := ((hp.existing q).mp hmem).1
    refine ⟨fun k hk => ?_, fun k hk => ?_, fun f hf => ?_⟩
    · obtain ⟨hne, hk⟩ := not_or.mp (mt List.mem_cons.mpr hk)
      rw [get_put, if_neg (Ne.symm hne)]
      exact hst.untouched k hk
    · rw [get_put]
      by_cases hne : q.itemId = k
      · subst hne
        rw [if_pos rfl, hrow]
        exact known_rescan q file _
      · rw [if_neg hne]
        exact hst.touched k ((List.mem_cons.mp hk).resolve_left (Ne.symm hne))
    · refine List.mem_cons.not.mpr (not_or.mpr ⟨?_, hother f hf⟩)
      rintro hf'
      have := (hshape f (List.mem_cons_of_mem _ hf)).2
      rw [hf', hrow] at this
      cases this
  · obtain ⟨hfree, hnone, hid⟩ := newId_fresh hqueue hp hst (hshape file (List.mem_cons_self ..))
    refine ⟨fun k hk => ?_, fun k hk => ?_, fun f hf => ?_⟩
    · obtain ⟨hne, hk⟩ := not_or.mp (mt List.mem_cons.mpr hk)
      rw [get_put, if_neg (Ne.symm hne)]
      exact hst.untouched k hk
    · rw [get_put]
      by_cases hne : p.newId st.assigned file = k
      · subst hne
        rw [if_pos rfl, hnone]
        refine .found (hid.imp_right fun h => ?_)
        rw [h]
        exact (hshape file (List.mem_cons_self ..)).1
      · rw [if_neg hne]
        exact hst.touched k ((List.mem_cons.mp hk).resolve_left (Ne.symm hne))
    · refine List.mem_cons.not.mpr (not_or.mpr ⟨fun heq => ?_, hother f hf⟩)
      rcases hid with ⟨fp, hfp⟩ | hdrawn
      · have := (hshape f (List.mem_cons_of_mem _ hf)).1
        rw [heq, hfp, queueId_not_drawn] at this
        cases this
      · rw [List.map_cons, List.nodup_cons] at hnodup
        exact hnodup.1 (List.mem_map.mpr ⟨f, hf, heq.trans hdrawn⟩)

theorem found_progress {queue : Table QueueItem}
    (hqueue : ∀ (k : Text) q, queue[k]? = some q → q.itemId = k ∧
      ((∃ fp, k = queueId q.incomingSourceId fp) ∨ drawnShape k))
    (hp : PassOf p queue) : ∀ (files : List Found) (st : ScanState),
    Progress v p queue files st →
    (∀ f ∈ files, drawnShape f.drawn = true ∧ queue[f.drawn]? = none) →
    (files.map (·.drawn)).Nodup →
    Progress v p queue [] (files.foldl (p.turn v.casefold v.settings) st)
  | [], _, hst, _, _ => hst
  | file :: rest, st, hst, hshape, hnodup => by
    have hnext := turn_progress hqueue hp hst hshape hnodup
    rw [List.map_cons, List.nodup_cons] at hnodup
    exact found_progress hqueue hp rest _ hnext
      (fun f hf => hshape f (List.mem_cons_of_mem _ hf)) hnodup.2

theorem markMissing_spec (assigned : List Text) : ∀ (l : List QueueItem) (queue : Table QueueItem)
    (k : Text), (l.foldl (markMissing assigned) queue)[k]? = queue[k]? ∨
      ∃ q ∈ l, q.itemId = k ∧ unseen assigned q = true ∧
        (l.foldl (markMissing assigned) queue)[k]? = some (missingItem q)
  | [], _, _ => .inl rfl
  | q :: l, queue, k => by
    rw [List.foldl_cons]
    rcases markMissing_spec assigned l (markMissing assigned queue q) k with h | ⟨q', hq', hrest⟩
    · rw [h]
      unfold markMissing
      by_cases hu : unseen assigned q = true
      · rw [if_pos hu, get_put]
        by_cases hk : q.itemId = k
        · exact .inr ⟨q, List.mem_cons_self .., hk, hu, if_pos hk⟩
        · exact .inl (if_neg hk)
      · rw [if_neg hu]
        exact .inl rfl
    · exact .inr ⟨q', List.mem_cons_of_mem _ hq', hrest⟩

theorem startPass_of (rootId companyId : Text) (root : Root) (now : Time) (found : List Found)
    {s : Store} (hkey : ∀ (k : Text) q, s.queue[k]? = some q → q.itemId = k) :
    PassOf (startPass rootId root companyId now found s) s.queue := by
  refine ⟨fun q => ?_⟩
  simp only [startPass, List.mem_filter, mem_list, decide_eq_true_eq]
  constructor
  · rintro ⟨⟨k, hk⟩, hroot⟩
    exact ⟨(hkey k q hk).symm ▸ hk, hroot⟩
  · rintro ⟨hq, hroot⟩
    exact ⟨⟨_, hq⟩, hroot⟩

/-- A scan writes only the queue, and each row as `Rescan` says. -/
theorem scan_spec {rootId : Text} {now : Time} {found : List Found} {t : Store} (hw : Coherent w)
    (hfound : foundFresh found w.store = true)
    (h : scan v.casefold v.settings v.layout rootId now found w.store = some t) :
    ∃ root companyId, t = { w.store with queue := t.queue } ∧
      ∀ k : Text, Rescan v (startPass rootId root companyId now found w.store) k
        w.store.queue[k]? t.queue[k]? := by
  unfold scan at h
  split at h
  · cases h
  · rename_i root _
    split at h
    · cases h
    · rename_i companyId _
      cases h
      refine ⟨root, companyId, rfl, fun k => ?_⟩
      simp only [foundFresh, List.all_eq_true, Bool.and_eq_true, decide_eq_true_eq,
        Option.isNone_iff_eq_none] at hfound
      obtain ⟨_, hnodup, hshape⟩ := hfound
      have hqueue := fun k q hq => And.intro (hw.queue_key k q hq) (hw.queue_id k q hq)
      have hp := startPass_of rootId companyId root now found hw.queue_key
      have hst := found_progress (v := v) hqueue hp found ⟨w.store.queue, []⟩
        ⟨fun _ _ => rfl, by simp, by simp⟩ hshape hnodup
      simp only [Pass.queue]
      rcases markMissing_spec (found.foldl (Pass.turn v.casefold v.settings
          (startPass rootId root companyId now found w.store)) ⟨w.store.queue, []⟩).assigned
        (startPass rootId root companyId now found w.store).existing _ k with hk | ⟨q, hq, hk⟩
      · erw [hk]
        by_cases hassigned : k ∈ (found.foldl (Pass.turn v.casefold v.settings
          (startPass rootId root companyId now found w.store)) ⟨w.store.queue, []⟩).assigned
        · exact hst.touched k hassigned
        · erw [hst.untouched k hassigned]
          exact .kept _
      · obtain ⟨rfl, hunseen, hresult⟩ := hk
        erw [hresult]
        rw [((hp.existing q).mp hq).1]
        simp only [unseen, List.mem_cons, List.not_mem_nil, or_false, not_or,
          decide_eq_true_eq] at hunseen
        exact .missing hunseen.2.1 hunseen.2.2.2.2.2.1 hunseen.2.2.2.2.2.2

end Scan

/-- One step on the way through an acceptance. -/
inductive Accepting (w : World) : World → Prop where
  | opened {batch event} : event.attemptId = none → event.action = .batchAccepted →
      Accepting w { w with store := { w.store with
        batch := batch, audit := w.store.audit ++ [event] } }
  | skipped {a saved row claim} {id : Text} : w.store.attempt[id]? = none →
      w.store.claim[saved.itemId]? = some claim →
      Accepting w { w with store := { w.store with
        attempt := w.store.attempt.insert id (acceptedAttempt a id true saved row)
        audit := w.store.audit ++ occupiedEvents a id saved } }
  | claimed {a saved row item} {id : Text} : w.store.attempt[id]? = none →
      w.store.claim[saved.itemId]? = none → w.store.queue[saved.itemId]? = some item →
      item.selectable = true → Accepting w { w with store := { w.store with
        attempt := w.store.attempt.insert id (acceptedAttempt a id false saved row)
        claim := w.store.claim.insert saved.itemId ⟨id, a.batchId⟩
        queue := w.store.queue.insert item.itemId (claimedItem id item) } }
  | launched {selection} : Accepting w { w with store := { w.store with selection := selection } }

/-- The items of a batch are selectable unless they are claimed. -/
def Admitted (entries : List ((QueueItem × PlanRow) × Text)) (s : Store) : Prop :=
  ∀ e ∈ entries, s.claim[e.1.1.itemId]? = none →
    ∃ q, s.queue[e.1.1.itemId]? = some q ∧ q.selectable = true

theorem acceptOne_accepting {a : Acceptance} {w : World} {t : Store}
    {entry : (QueueItem × PlanRow) × Text} {entries : List ((QueueItem × PlanRow) × Text)}
    (hqueue : Keyed (·.itemId) w.store.queue) (hadmitted : Admitted (entry :: entries) w.store)
    (h : acceptOne a w.store entry = .ok t) :
    Accepting w { w with store := t } ∧ Keyed (·.itemId) t.queue ∧ Admitted entries t := by
  have hrest : Admitted entries w.store := fun e he => hadmitted e (List.mem_cons_of_mem _ he)
  obtain ⟨⟨saved, row⟩, id⟩ := entry
  obtain ⟨attempts, hnew, h⟩ := bind_eq_ok.mp h
  obtain ⟨hfree, rfl⟩ := insertNew_eq_ok.mp hnew
  cases hclaim : w.store.claim[saved.itemId]? with
  | some claim =>
    simp only [hclaim, Option.isSome_some, if_true] at h
    cases h
    exact ⟨.skipped hfree hclaim, hqueue, hrest⟩
  | none =>
    simp only [hclaim, Option.isSome_none, Bool.false_eq_true, if_false] at h
    obtain ⟨item, hitem, h⟩ := bind_eq_ok.mp h
    cases h
    have hitem := require_eq_ok.mp hitem
    have hkey : item.itemId = saved.itemId := hqueue _ _ hitem
    obtain ⟨q, hq, hselectable⟩ := hadmitted _ (List.mem_cons_self ..) hclaim
    obtain rfl : item = q := Option.some.inj (hitem.symm.trans hq)
    refine ⟨.claimed hfree hclaim hitem hselectable, hqueue.put rfl, fun e he hnone => ?_⟩
    simp only [get_put] at hnone ⊢
    rw [hkey]
    split at hnone
    · cases hnone
    · rename_i hother
      rw [if_neg hother]
      exact hrest e he hnone

theorem acceptAll_accepting {a : Acceptance} : ∀ (entries : List ((QueueItem × PlanRow) × Text))
    {w : World} {t : Store}, Keyed (·.itemId) w.store.queue → Admitted entries w.store →
      entries.foldlM (acceptOne a) w.store = .ok t →
      Relation.ReflTransGen Accepting w { w with store := t }
  | [], w, t, _, _, h => by cases h; exact .refl
  | entry :: entries, w, t, hqueue, hadmitted, h => by
    rw [List.foldlM_cons] at h
    obtain ⟨u, hu, h⟩ := bind_eq_ok.mp h
    obtain ⟨hstep, hkeys, hrest⟩ := acceptOne_accepting hqueue hadmitted hu
    exact .head hstep (acceptAll_accepting entries (w := { w with store := u }) hkeys hrest h)

theorem mapError_ok {ε ε' α : Type} {f : ε → ε'} {r : Except ε α} {a : α}
    (h : r.mapError f = .ok a) : r = .ok a := by
  cases r with
  | error => cases h
  | ok => cases h; rfl

theorem forM_ok {ε α : Type} {f : α → Except ε Unit} : ∀ {l : List α}, l.forM f = .ok () →
    ∀ x ∈ l, f x = .ok ()
  | y :: l, h, x, hx => by
    obtain ⟨⟨⟩, hy, h⟩ := bind_eq_ok.mp h
    rcases List.mem_cons.mp hx with rfl | hx
    · exact hy
    · exact forM_ok h x hx

theorem checkItem_ok {layout : Layout} {tree : FileTree} {s : Store} {saved : QueueItem}
    (h : checkItem layout tree s saved = .ok ()) (hclaim : s.claim[saved.itemId]? = none) :
    ∃ q, s.queue[saved.itemId]? = some q ∧ q.itemRevision = saved.itemRevision ∧
      q.selectable = true := by
  simp only [checkItem, hclaim] at h
  cases hq : s.queue[saved.itemId]? with
  | none => simp [hq] at h
  | some q =>
    simp only [hq] at h
    split at h
    · cases h
    · rename_i hsame
      rw [not_or] at hsame
      exact ⟨q, rfl, not_not.mp hsame.1, by simpa using hsame.2⟩

theorem checkSelection_ok {layout : Layout} {tree : FileTree} {now : Time} {selection : Selection}
    {s : Store} (h : checkSelection layout tree now selection s = .ok ()) :
    ∀ saved ∈ selection.items, checkItem layout tree s saved = .ok () := by
  unfold checkSelection at h
  by_cases hexpired : selection.expiresAt ≤ now
  · simp [hexpired, bind, Except.bind] at h
  · simp only [hexpired, if_false] at h
    exact forM_ok h

theorem drawnEntries_item {drawn : Draws} {items : List QueueItem} {rows : List PlanRow}
    {e : (QueueItem × PlanRow) × Text} (h : e ∈ drawnEntries drawn items rows) :
    e.1.1 ∈ items := by
  obtain ⟨⟨pair, i⟩, hpair, rfl⟩ := List.mem_map.mp h
  exact (List.of_mem_zip (List.fst_mem_of_mem_zipIdx hpair)).1

theorem acceptOne_frame {a : Acceptance} {s t : Store} {entry : (QueueItem × PlanRow) × Text}
    (h : acceptOne a s entry = .ok t) : t.selection = s.selection ∧ t.batch = s.batch ∧
      t.dictionary = s.dictionary ∧ t.dictionaryVersion = s.dictionaryVersion := by
  obtain ⟨⟨saved, row⟩, id⟩ := entry
  obtain ⟨attempts, _, h⟩ := bind_eq_ok.mp h
  cases hclaim : (s.claim[saved.itemId]?).isSome with
  | true =>
    simp only [hclaim, if_true] at h
    cases h
    exact ⟨rfl, rfl, rfl, rfl⟩
  | false =>
    simp only [hclaim, Bool.false_eq_true, if_false] at h
    obtain ⟨item, _, h⟩ := bind_eq_ok.mp h
    cases h
    exact ⟨rfl, rfl, rfl, rfl⟩

theorem acceptAll_frame {a : Acceptance} : ∀ (entries : List ((QueueItem × PlanRow) × Text))
    {s t : Store}, entries.foldlM (acceptOne a) s = .ok t → t.selection = s.selection ∧
      t.batch = s.batch ∧ t.dictionary = s.dictionary ∧ t.dictionaryVersion = s.dictionaryVersion
  | [], _, _, h => by cases h; exact ⟨rfl, rfl, rfl, rfl⟩
  | entry :: entries, s, t, h => by
    rw [List.foldlM_cons] at h
    obtain ⟨u, hu, h⟩ := bind_eq_ok.mp h
    obtain ⟨h₁, h₂, h₃, h₄⟩ := acceptOne_frame hu
    obtain ⟨k₁, k₂, k₃, k₄⟩ := acceptAll_frame entries h
    exact ⟨k₁.trans h₁, k₂.trans h₂, k₃.trans h₃, k₄.trans h₄⟩

theorem checkPreview_ok {now : Time} {actor : Text} {selection : Selection} {current : RuleSet}
    {planned rows : List PlanRow} {s : Store} {previewId : Option Text}
    (h : checkPreview now actor selection current planned s previewId = .ok rows) :
    rows = planned := by
  cases previewId with
  | none => cases h; rfl
  | some id =>
    obtain ⟨preview, _, h⟩ := bind_eq_ok.mp h
    by_cases hforeign : preview.owner ≠ actor
    · simp [hforeign, bind, Except.bind] at h
    simp only [hforeign, if_false] at h
    split at h
    · cases h
    · rename_i hsame
      cases h
      simp only [not_or, not_not] at hsame
      exact hsame.2.2.2

/-- The stages of a successful acceptance: the selection is checked and planned, the batch is
opened, its attempts are entered, and the selection is launched. -/
structure Stages (layout : Layout) (casefold : Text → Text) (tree : FileTree) (drawn : Draws)
    (a : Acceptance) (request : BatchRequest) (s t : Store) (chosen : Selection)
    (rows : List PlanRow) (opened entered : Store) : Prop where
  found : s.selection[request.selectionId]? = some chosen
  checked : ∀ saved ∈ chosen.items, checkItem layout tree s saved = .ok ()
  idle : chosen.batchId = none
  planned : selectionPlan layout casefold tree chosen s = .ok rows
  unused : s.batch[drawn.batch]? = none
  opening : opened = { s with
    batch := s.batch.insert drawn.batch
      (acceptedBatch a chosen request.previewId (ruleSet s chosen.companyId) rows)
    audit := s.audit ++ [acceptedEvent a.actor a.requestId drawn.batch chosen.companyId
      (ruleSet s chosen.companyId) a.now] }
  entering : (drawnEntries drawn chosen.items rows).foldlM (acceptOne a) opened = .ok entered
  launching : t = { entered with
    selection := entered.selection.insert chosen.selectionId
      { chosen with batchId := some drawn.batch } }

theorem accept_stages {layout : Layout} {casefold : Text → Text} {tree : FileTree} {drawn : Draws}
    {now : Time} {actor requestId : Text} {request : BatchRequest} {s t : Store}
    (h : accept layout casefold tree drawn now actor requestId request s = .ok t) :
    ∃ chosen rows opened entered, Stages layout casefold tree drawn
      ⟨drawn.batch, chosen.companyId, actor, requestId, now⟩ request s t chosen rows opened
      entered := by
  obtain ⟨chosen, hchosen, h⟩ := bind_eq_ok.mp h
  obtain ⟨⟨⟩, hcheck, h⟩ := bind_eq_ok.mp h
  by_cases hlaunched : chosen.batchId ≠ none
  · simp [hlaunched, bind, Except.bind] at h
  simp only [hlaunched, if_false] at h
  obtain ⟨planned, hplanned, h⟩ := bind_eq_ok.mp h
  obtain ⟨rows, hrows, h⟩ := bind_eq_ok.mp h
  obtain ⟨batches, hbatches, h⟩ := bind_eq_ok.mp h
  obtain ⟨entered, hentered, h⟩ := bind_eq_ok.mp h
  cases h
  obtain ⟨saved, hsaved, howner⟩ := bind_eq_ok.mp hchosen
  obtain rfl := checkPreview_ok hrows
  obtain ⟨hunused, rfl⟩ := insertNew_eq_ok.mp hbatches
  split at howner
  · cases howner
  cases howner
  exact ⟨chosen, rows, _, entered, require_eq_ok.mp hsaved, checkSelection_ok (mapError_ok hcheck),
    not_not.mp hlaunched, hplanned, hunused, rfl, hentered, rfl⟩

theorem accept_spec {layout : Layout} {casefold : Text → Text} {tree : FileTree} {drawn : Draws}
    {now : Time} {actor requestId : Text} {request : BatchRequest} {s t : Store}
    (h : accept layout casefold tree drawn now actor requestId request s = .ok t) :
    ∃ found b, s.selection[request.selectionId]? = some found ∧ found.batchId = none ∧
      s.batch[drawn.batch]? = none ∧ b.batchId = drawn.batch ∧ b.selectionId = found.selectionId ∧
      t.batch = s.batch.insert drawn.batch b ∧
      t.selection = s.selection.insert found.selectionId
        { found with batchId := some drawn.batch } ∧
      t.dictionary = s.dictionary ∧ t.dictionaryVersion = s.dictionaryVersion := by
  obtain ⟨chosen, rows, opened, entered, hstages⟩ := accept_stages h
  obtain rfl := hstages.opening
  obtain rfl := hstages.launching
  obtain ⟨h₁, h₂, h₃, h₄⟩ := acceptAll_frame _ hstages.entering
  refine ⟨chosen, _, hstages.found, hstages.idle, hstages.unused, ?_, ?_, h₂, ?_, h₃, h₄⟩
  · rfl
  · rfl
  · rw [h₁]

theorem accept_accepting {layout : Layout} {casefold : Text → Text} {drawn : Draws} {now : Time}
    {actor requestId : Text} {request : BatchRequest} {w : World} {t : Store}
    (hqueue : Keyed (·.itemId) w.store.queue)
    (h : accept layout casefold w.tree drawn now actor requestId request w.store = .ok t) :
    Relation.ReflTransGen Accepting w { w with store := t } := by
  obtain ⟨chosen, rows, opened, entered, hstages⟩ := accept_stages h
  have hadmitted : Admitted (drawnEntries drawn chosen.items rows) w.store := by
    intro e he hnone
    obtain ⟨q, hq, _, hselectable⟩ := checkItem_ok (hstages.checked _ (drawnEntries_item he)) hnone
    exact ⟨q, hq, hselectable⟩
  obtain rfl := hstages.opening
  obtain rfl := hstages.launching
  refine .head (.opened rfl rfl) (.tail (acceptAll_accepting _ (w := ⟨_, w.tree, w.log⟩) hqueue
    hadmitted hstages.entering) ?_)
  exact .launched (w := ⟨entered, w.tree, w.log⟩)

/-- One transaction of the others, acceptance apart. -/
inductive Change (v : Service) (w : World) : World → Prop where
  | files {tree} : Change v w { w with tree := tree }
  | storage {storage} : Change v w { w with store := { w.store with storage := storage } }
  | dictionaries {dictionary version events} : (∀ e ∈ events, dictionaryEvent e = true) →
      Change v w { w with store := { w.store with
        dictionary := dictionary, dictionaryVersion := version
        audit := w.store.audit ++ events } }
  | selected {selection} : Change v w { w with store := { w.store with selection := selection } }
  | previewed {preview} : Change v w { w with store := { w.store with preview := preview } }
  | scanned {pass queue} : (∀ k : Text, Rescan v pass k w.store.queue[k]? queue[k]?) →
      Change v w { w with store := { w.store with queue := queue } }

theorem selection_frame {layout : Layout} {casefold : Text → Text} {settings : Settings}
    {selectionId actor : Text} {now : Time} {request : SelectionRequest} {s t : Store}
    (h : selection layout casefold settings selectionId actor now request s = .ok t) :
    ∃ created, created.selectionId = selectionId ∧
      t = { s with selection := s.selection.insert selectionId created } := by
  obtain ⟨⟨⟩, _, h⟩ := bind_eq_ok.mp h
  obtain ⟨items, _, h⟩ := bind_eq_ok.mp h
  by_cases hempty : items = []
  · simp [hempty, bind, Except.bind] at h
  by_cases hlimit : settings.maxBatchItems < items.length
  · simp [hempty, hlimit, bind, Except.bind] at h
  · simp only [hempty, hlimit, if_false] at h
    cases h
    exact ⟨_, rfl, rfl⟩

theorem preview_frame {layout : Layout} {casefold : Text → Text} {settings : Settings}
    {tree : FileTree} {previewId actor selectionId : Text} {now : Time} {s t : Store}
    (h : preview layout casefold settings tree previewId actor selectionId now s = .ok t) :
    ∃ created, t = { s with preview := s.preview.insert previewId created } := by
  obtain ⟨selection, _, h⟩ := bind_eq_ok.mp h
  obtain ⟨⟨⟩, _, h⟩ := bind_eq_ok.mp h
  obtain ⟨rows, _, h⟩ := bind_eq_ok.mp h
  cases h
  exact ⟨_, rfl⟩

theorem stored_eq_some {w t : World} {r : Except Exn Store} (h : stored w r = some t) :
    ∃ s, r = .ok s ∧ t = { w with store := s } := by
  cases r with
  | error => cases h
  | ok s => cases h; exact ⟨s, rfl, rfl⟩

theorem other_cases {v : Service} {e : Env} {w t : World} (hw : Coherent w)
    (h : other v e w = some t) : Change v w t ∨ Relation.ReflTransGen Accepting w t := by
  cases e with
  | files tree => cases h; exact .inl .files
  | storage rootId mode => cases h; exact .inl .storage
  | dictionaries dictionary version events =>
    simp only [other] at h
    split at h
    · rename_i hevents
      cases h
      exact .inl (.dictionaries (List.all_eq_true.mp hevents))
    · cases h
  | select selectionId actor now request =>
    simp only [other] at h
    split at h
    · cases h
    · obtain ⟨s, hs, rfl⟩ := stored_eq_some h
      obtain ⟨created, _, rfl⟩ := selection_frame hs
      exact .inl .selected
  | preview previewId actor selectionId now =>
    simp only [other] at h
    split at h
    · cases h
    · obtain ⟨s, hs, rfl⟩ := stored_eq_some h
      obtain ⟨created, rfl⟩ := preview_frame hs
      exact .inl .previewed
  | accept drawn now actor requestId request =>
    obtain ⟨s, hs, rfl⟩ := stored_eq_some h
    exact .inr (accept_accepting hw.queue_key hs)
  | scan rootId now found =>
    simp only [other] at h
    split at h
    · rename_i hfound
      obtain ⟨s, hs, rfl⟩ := Option.map_eq_some_iff.mp h
      obtain ⟨root, companyId, hframe, hrows⟩ := scan_spec hw hfound hs
      rw [hframe]
      exact .inl (.scanned hrows)
    · cases h

/-! The keys are kept by every step. -/

theorem rescan_ids {v : Service} {p : Pass} {k : Text} {before after : Option QueueItem}
    {q : QueueItem} (h : Rescan v p k before after) (hq : after = some q) :
    (∃ b, before = some b ∧ q.itemId = b.itemId ∧ q.incomingSourceId = b.incomingSourceId) ∨
    (before = none ∧ q.itemId = k ∧ q.activeAttemptId = none ∧
      ((∃ fp, k = queueId q.incomingSourceId fp) ∨ drawnShape k)) := by
  cases h with
  | kept => exact .inl ⟨q, hq, rfl, rfl⟩
  | same =>
    cases hq
    refine .inl ⟨_, rfl, ?_⟩
    simp only [Pass.sameItem]
    split
    · exact ⟨rfl, rfl⟩
    · split <;> exact ⟨rfl, rfl⟩
  | changed => cases hq; exact .inl ⟨_, rfl, rfl, rfl⟩
  | missing =>
    cases hq
    refine .inl ⟨_, rfl, ?_⟩
    unfold missingItem
    split <;> exact ⟨rfl, rfl⟩
  | found hid => cases hq; exact .inr ⟨rfl, rfl, rfl, hid⟩

theorem finishedItem_ids (state : OutcomeState) (reason : Option Reason)
    (current : Option Fingerprint) (now : Time) (item : QueueItem) :
    (finishedItem state reason current now item).itemId = item.itemId ∧
    (finishedItem state reason current now item).incomingSourceId = item.incomingSourceId ∧
    (finishedItem state reason current now item).activeAttemptId = none := by
  unfold finishedItem
  split
  · exact ⟨rfl, rfl, rfl⟩
  · exact ⟨rfl, rfl, rfl⟩
  · split <;> exact ⟨rfl, rfl, rfl⟩
  · exact ⟨rfl, rfl, rfl⟩

end Changes
