import WiseWay.FileNames
import WiseWay.ItemHistory

/-! # Names of the queue

Whatever is selected, sorted, quarantined or returned still has a path that some scan met. -/
namespace ScannedNames

open Records Services AtomicProgram Calls Intake AttemptTransactions ReturnTransactions
open SortingSystem Effects Changes LockContract ReturnContract PlannedBatch FileNames
open Fallible (bind_eq_ok)

variable {v : Service} {layout : Layout}

/-- A place below a known root that a walk can meet. -/
structure Met (layout : Layout) (loc : Location) : Prop where
  root : ∃ root, layout.root loc.rootId = some root
  walked : Walked loc.relativePath

/-- An item named after the place where it was met. -/
structure Named (layout : Layout) (q : QueueItem) : Prop where
  met : Met layout q.source
  filename : q.filename = Rules.leaf q.source.relativePath

def Every {V : Type} (P : V → Prop) (t : Table V) : Prop := ∀ (k : Text) x, t[k]? = some x → P x

theorem Every.put {V : Type} {P : V → Prop} {t : Table V} {k : Text} {x : V} (h : Every P t)
    (hx : P x) : Every P (t.insert k x) := by
  intro j y hy
  rw [get_put] at hy
  split at hy
  · cases hy
    exact hx
  · exact h j y hy

structure AllNamed (layout : Layout) (s : Store) : Prop where
  queue : Every (Named layout) s.queue
  selected : Every (fun found => ∀ q ∈ found.items, Named layout q) s.selection
  attempted : Every (fun a => Named layout a.item) s.attempt
  carded : Every (fun card => Met layout card.originalLocation) s.quarantine

/-! The scan. -/

variable {p : Pass}

theorem named_found {q : QueueItem} {file : Found} (hroot : layout.root p.rootId = some p.root)
    (hfile : Walked file.relative) (hsource : q.source = p.source file)
    (hname : q.filename = Rules.leaf file.relative) : Named layout q := by
  refine ⟨⟨⟨p.root, ?_⟩, ?_⟩, ?_⟩
  · rw [hsource]
    exact hroot
  · rw [hsource]
    exact hfile
  · rw [hname, hsource]
    rfl

theorem named_known {q : QueueItem} {file : Found} (hroot : layout.root p.rootId = some p.root)
    (hfile : Walked file.relative) (hq : Named layout q) :
    Named layout (p.known v.casefold v.settings q file) := by
  unfold Pass.known
  split
  · exact hq
  split
  · unfold Pass.sameItem
    dsimp only
    split
    · exact named_found hroot hfile rfl rfl
    split
    · exact named_found hroot hfile rfl rfl
    · exact named_found hroot hfile rfl rfl
  · exact named_found hroot hfile rfl rfl

theorem named_missing {q : QueueItem} (hq : Named layout q) : Named layout (missingItem q) := by
  unfold missingItem
  split
  · exact hq
  · exact ⟨hq.met, hq.filename⟩

theorem rows_turn {st : ScanState} {file : Found} (hroot : layout.root p.rootId = some p.root)
    (hexisting : ∀ q ∈ p.existing, Named layout q) (hfile : Walked file.relative)
    (h : Every (Named layout) st.queue) :
    Every (Named layout) (p.turn v.casefold v.settings st file).queue := by
  unfold Pass.turn
  cases hprevious : p.previous st.assigned file with
  | some q =>
    exact h.put (named_known hroot hfile (hexisting q (previous_mem hprevious).1))
  | none => exact h.put (named_found hroot hfile rfl rfl)

theorem rows_turns (hroot : layout.root p.rootId = some p.root)
    (hexisting : ∀ q ∈ p.existing, Named layout q) : ∀ (files : List Found) (st : ScanState),
      (∀ f ∈ files, Walked f.relative) → Every (Named layout) st.queue →
        Every (Named layout) (files.foldl (p.turn v.casefold v.settings) st).queue
  | [], _, _, h => h
  | file :: files, st, hfiles, h => by
    rw [List.foldl_cons]
    refine rows_turns hroot hexisting files _ (fun f hf => hfiles f (List.mem_cons_of_mem _ hf)) ?_
    exact rows_turn hroot hexisting (hfiles file (List.mem_cons_self ..)) h

theorem rows_swept (assigned : List Text) : ∀ (l : List QueueItem) (queue : Table QueueItem),
    (∀ q ∈ l, Named layout q) → Every (Named layout) queue →
      Every (Named layout) (l.foldl (markMissing assigned) queue)
  | [], _, _, h => h
  | q :: l, queue, hl, h => by
    rw [List.foldl_cons]
    refine rows_swept assigned l _ (fun b hb => hl b (List.mem_cons_of_mem _ hb)) ?_
    unfold markMissing
    split
    · exact h.put (named_missing (hl q (List.mem_cons_self ..)))
    · exact h

theorem rows_scan {rootId : Text} {now : Time} {found : List Found} {s t : Store}
    (hfound : ∀ f ∈ found, Walked f.relative) (h : Every (Named layout) s.queue)
    (ht : scan v.casefold v.settings layout rootId now found s = some t) :
    Every (Named layout) t.queue ∧ t = { s with queue := t.queue } := by
  unfold scan at ht
  split at ht
  · cases ht
  rename_i root hroot
  split at ht
  · cases ht
  rename_i companyId hcompany
  cases ht
  refine ⟨?_, rfl⟩
  have hexisting : ∀ q ∈ (startPass rootId root companyId now found s).existing,
      Named layout q := by
    intro q hq
    obtain ⟨k, hk⟩ := mem_list.mp (List.mem_filter.mp hq).1
    exact h k q hk
  refine rows_swept _ _ _ hexisting ?_
  exact rows_turns hroot hexisting found _ hfound h

/-! The other steps. -/

theorem named_finished {q : QueueItem} (state : OutcomeState) (reason : Option Reason)
    (current : Option Fingerprint) (now : Time) (hq : Named layout q) :
    Named layout (finishedItem state reason current now q) := by
  unfold finishedItem
  split
  · exact ⟨hq.met, hq.filename⟩
  · exact ⟨hq.met, hq.filename⟩
  · split
    · exact ⟨hq.met, hq.filename⟩
    · exact ⟨hq.met, hq.filename⟩
  · exact ⟨hq.met, hq.filename⟩

theorem named_returned {q : QueueItem} {card : QuarantineCard} (o : ReturnOperation) (now : Time)
    (hcard : Met layout card.originalLocation) : Named layout (returnedItem card o now q) :=
  ⟨hcard, rfl⟩

theorem carded_finished {s : Store} {id : Text} {a : Attempt} {item : QueueItem}
    {current : Option Fingerprint} {state : OutcomeState} {reason : Option Reason}
    {actual : Option Location} {now : Time} (ha : Named layout a.item)
    (h : Every (fun card => Met layout card.originalLocation) s.quarantine) :
    Every (fun card => Met layout card.originalLocation)
      (finishedStore id a item current state reason actual now s).quarantine := by
  unfold finishedStore
  dsimp only
  split
  · unfold putQuarantine
    split
    · exact h
    · exact h.put ha.met
  · exact h

theorem named_effect {w t : World} (h : AllNamed layout w.store) (he : Effect layout w t) :
    AllNamed layout t.store := by
  obtain ⟨hqueue, hselected, hattempted, hcarded⟩ := h
  cases he with
  | same => exact ⟨hqueue, hselected, hattempted, hcarded⟩
  | seen _ => exact ⟨hqueue, hselected, hattempted, hcarded⟩
  | checked _ _ => exact ⟨hqueue, hselected, hattempted, hcarded⟩
  | issued _ _ => exact ⟨hqueue, hselected, hattempted, hcarded⟩
  | moved _ _ _ => exact ⟨hqueue, hselected, hattempted, hcarded⟩
  | requeued ha _ _ =>
    have hitem := hattempted _ _ ha
    exact ⟨hqueue, hselected, hattempted.put hitem, hcarded⟩
  | rearmed ha _ _ =>
    have hitem := hattempted _ _ ha
    exact ⟨hqueue, hselected, hattempted.put hitem, hcarded⟩
  | intended ha _ =>
    refine ⟨hqueue, hselected, hattempted.put ?_, hcarded⟩
    have hitem := hattempted _ _ ha
    simpa [intendedAttempt] using hitem
  | quarantineIntended ha _ _ _ _ _ _ =>
    have hitem := hattempted _ _ ha
    exact ⟨hqueue, hselected, hattempted.put hitem, hcarded⟩
  | @finished id a item current state reason actual now ha _ hitem _ =>
    have hnamed := hattempted _ _ ha
    refine ⟨hqueue.put (named_finished _ _ _ _ (hqueue _ _ hitem)), hselected,
      hattempted.put ?_, carded_finished hnamed hcarded⟩
    simpa [finishedAttempt] using hnamed
  | @locked id a item actual now ha _ _ hitem =>
    have hrow := hqueue _ _ hitem
    have hnamed := hattempted _ _ ha
    refine ⟨hqueue.put ⟨hrow.met, hrow.filename⟩, hselected, hattempted.put ?_, hcarded⟩
    simpa [lockedAttempt] using hnamed
  | began _ hcard _ _ =>
    have hmet := hcarded _ _ hcard
    exact ⟨hqueue, hselected, hattempted, hcarded.put hmet⟩
  | rejected _ _ _ hcard =>
    have hmet := hcarded _ _ hcard
    exact ⟨hqueue, hselected, hattempted, hcarded.put hmet⟩
  | returnLocked _ _ hcard =>
    have hmet := hcarded _ _ hcard
    exact ⟨hqueue, hselected, hattempted, hcarded.put hmet⟩
  | returned _ _ _ hcard _ =>
    have hmet := hcarded _ _ hcard
    exact ⟨hqueue.put (named_returned _ _ hmet), hselected, hattempted, hcarded.put hmet⟩

theorem named_acceptOne {a : Acceptance} {s t : Store} {entry : (QueueItem × PlanRow) × Text}
    (h : AllNamed layout s) (hsaved : Named layout entry.1.1) (ht : acceptOne a s entry = .ok t) :
    AllNamed layout t := by
  obtain ⟨⟨saved, row⟩, id⟩ := entry
  obtain ⟨attempts, hnew, ht⟩ := bind_eq_ok.mp ht
  obtain ⟨_, rfl⟩ := insertNew_eq_ok.mp hnew
  split at ht
  · cases ht
    exact ⟨h.queue, h.selected, h.attempted.put hsaved, h.carded⟩
  · obtain ⟨item, hitem, ht⟩ := bind_eq_ok.mp ht
    cases ht
    have hrow := h.queue _ _ (require_eq_ok.mp hitem)
    exact ⟨h.queue.put ⟨hrow.met, hrow.filename⟩, h.selected, h.attempted.put hsaved, h.carded⟩

theorem named_acceptAll {a : Acceptance} : ∀ (entries : List ((QueueItem × PlanRow) × Text))
    {s t : Store}, AllNamed layout s → (∀ e ∈ entries, Named layout e.1.1) →
      entries.foldlM (acceptOne a) s = .ok t → AllNamed layout t
  | [], _, _, h, _, ht => by
    cases ht
    exact h
  | entry :: entries, s, t, h, hentries, ht => by
    rw [List.foldlM_cons] at ht
    obtain ⟨u, hu, ht⟩ := bind_eq_ok.mp ht
    have hnext := named_acceptOne h (hentries entry (List.mem_cons_self ..)) hu
    exact named_acceptAll entries hnext (fun e he => hentries e (List.mem_cons_of_mem _ he)) ht

theorem named_accept {casefold : Text → Text} {drawn : Draws} {now : Time} {tree : FileTree}
    {actor requestId : Text} {request : BatchRequest} {s t : Store} (h : AllNamed layout s)
    (ht : accept layout casefold tree drawn now actor requestId request s = .ok t) :
    AllNamed layout t := by
  obtain ⟨selection, hselection, ht⟩ := bind_eq_ok.mp ht
  obtain ⟨⟨⟩, _, ht⟩ := bind_eq_ok.mp ht
  by_cases hlaunched : selection.batchId ≠ none
  · simp [hlaunched, bind, Except.bind] at ht
  simp only [hlaunched, if_false] at ht
  obtain ⟨planned, _, ht⟩ := bind_eq_ok.mp ht
  obtain ⟨rows, _, ht⟩ := bind_eq_ok.mp ht
  obtain ⟨batches, _, ht⟩ := bind_eq_ok.mp ht
  obtain ⟨u, hu, ht⟩ := bind_eq_ok.mp ht
  cases ht
  obtain ⟨found, hfound, howner⟩ := bind_eq_ok.mp hselection
  split at howner
  · cases howner
  cases howner
  have hitems := h.selected _ _ (require_eq_ok.mp hfound)
  have hend : AllNamed layout u := by
    refine named_acceptAll _ ?_ (fun e he => hitems _ (drawnEntries_item he)) hu
    exact ⟨h.queue, h.selected, h.attempted, h.carded⟩
  exact ⟨hend.queue, hend.selected.put hitems, hend.attempted, hend.carded⟩

/-! Runs. -/

/-- Scans list what a walk can meet. -/
def walking : Limits World Env Choice Op where
  call _ _ _ := True
  other e _ := ∀ rootId now found, e = .scan rootId now found → ∀ f ∈ found, Walked f.relative

/-- States of the service when its scans list what a walk can meet. -/
abbrev Walks (v : Service) : Machine World Cmd Op Val Exn Reply → Prop :=
  Reachable (system v) walking Start

theorem walks_run {m : Machine World Cmd Op Val Exn Reply} (h : Walks v m) : Run v anyStep m := by
  induction h with
  | init hs => exact .init hs
  | tail _ _ hstep ih => exact .tail ih (allows_of_step fun _ _ => trivial) hstep

theorem named_other {e : Env} {w t : World} (hw : Coherent w) (h : AllNamed v.layout w.store)
    (hwalked : walking.other e w) (ht : other v e w = some t) : AllNamed v.layout t.store := by
  cases e with
  | files tree => cases ht; exact h
  | storage rootId mode => cases ht; exact ⟨h.queue, h.selected, h.attempted, h.carded⟩
  | dictionaries dictionary version events =>
    simp only [other] at ht
    split at ht
    · cases ht
      exact ⟨h.queue, h.selected, h.attempted, h.carded⟩
    · cases ht
  | select selectionId actor now request =>
    simp only [other] at ht
    split at ht
    · cases ht
    · obtain ⟨s, hs, rfl⟩ := stored_eq_some ht
      obtain ⟨created, hcreated, rfl⟩ := ItemHistory.selection_stored hw.queue_key hs
      exact ⟨h.queue, h.selected.put fun q hq => h.queue _ _ (hcreated q hq), h.attempted,
        h.carded⟩
  | preview previewId actor selectionId now =>
    simp only [other] at ht
    split at ht
    · cases ht
    · obtain ⟨s, hs, rfl⟩ := stored_eq_some ht
      obtain ⟨created, rfl⟩ := preview_frame hs
      exact ⟨h.queue, h.selected, h.attempted, h.carded⟩
  | accept drawn now actor requestId request =>
    obtain ⟨s, hs, rfl⟩ := stored_eq_some ht
    exact named_accept h hs
  | scan rootId now found =>
    simp only [other] at ht
    split at ht
    · obtain ⟨s, hs, rfl⟩ := Option.map_eq_some_iff.mp ht
      obtain ⟨hrows, hframe⟩ := rows_scan (hwalked _ _ _ rfl) h.queue hs
      rw [hframe]
      exact ⟨hrows, h.selected, h.attempted, h.carded⟩
    · cases ht

theorem walks_named {m : Machine World Cmd Op Val Exn Reply} (h : Walks v m) :
    AllNamed v.layout m.state.store := by
  induction h with
  | @init s hs =>
    constructor
    · intro k q hq
      simp [hs.queue] at hq
    · intro k q hq
      simp [hs.selection] at hq
    · intro k q hq
      simp [hs.attempt] at hq
    · intro k q hq
      simp [hs.quarantine] at hq
  | @tail m n e hprev hallow hstep ih =>
    have hrun := walks_run hprev
    rcases System.step_cases hstep with ⟨_, _, _, rfl⟩ | ⟨x, c, o, next, rfl, hm, rfl⟩ | ⟨_, rfl⟩ |
      ⟨e, t, rfl, ht, rfl⟩
    · exact ih
    · exact named_effect ih (exec_effect (run_permit hrun hm))
    · exact ih
    · exact named_other (run_coherent hrun) ih hallow ht

end ScannedNames
