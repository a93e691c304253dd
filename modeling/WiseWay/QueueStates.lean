import WiseWay.SearchOutbox

/-! # States of a queue item

Four components write the rows of the queue. Which fields go together is decided by each of
them for itself; over a run they agree. -/
namespace QueueStates

open Records Services AtomicProgram Calls Intake AttemptTransactions ReturnTransactions
open SortingSystem Effects Changes ReturnContract ClaimExclusivity SearchOutbox

variable {v : Service} {layout : Layout} {p : Pass} {q : QueueItem} {file : Found}

/-- What the fields of a stored item say of each other. -/
structure SoundItem (q : QueueItem) : Prop where
  held : q.activeAttemptId ≠ none → q.status = .processing ∨ q.status = .recoveryRequired
  unfinished : q.status ≠ .sorted ∧ q.status ≠ .manualReview ∧ q.status ≠ .quarantined
  eligible : q.selectable = true → q.status = .ready ∨ q.status = .requiresDecision

theorem SoundItem.missing (h : SoundItem q) (hq : q.status = .missing) :
    q.selectable = false ∧ q.activeAttemptId = none := by
  constructor
  · by_contra hs
    have := h.eligible (by simpa using hs)
    simp [hq] at this
  · by_contra ha
    have := h.held ha
    simp [hq] at this

theorem locked_eq_false : locked q = false ↔
    q.status ≠ .processing ∧ q.status ≠ .recoveryRequired ∧ q.activeAttemptId = none := by
  simp [locked]

theorem SoundItem.locked_iff (h : SoundItem q) :
    locked q = true ↔ q.status = .processing ∨ q.status = .recoveryRequired := by
  constructor
  · intro hl
    by_contra hne
    obtain ⟨hp, hr⟩ := not_or.mp hne
    have ha : q.activeAttemptId ≠ none := fun ha => by
      rw [locked_eq_false.mpr ⟨hp, hr, ha⟩] at hl
      cases hl
    exact hne (h.held ha)
  · rintro (hs | hs) <;> simp [locked, hs]

/-! What the scanner writes. -/

theorem sound_same (h : SoundItem q) (hl : locked q = false) :
    SoundItem (p.sameItem v.casefold v.settings q file) := by
  obtain ⟨_, _, hfree⟩ := locked_eq_false.mp hl
  unfold Pass.sameItem
  dsimp only
  split
  · exact ⟨fun ha => absurd hfree ha, by simp, by simp⟩
  split
  · exact ⟨fun ha => absurd hfree ha, by simp, by simp⟩
  · exact ⟨h.held, h.unfinished, h.eligible⟩

theorem sound_changed (hl : locked q = false) : SoundItem (p.changedItem q file) := by
  obtain ⟨_, _, hfree⟩ := locked_eq_false.mp hl
  exact ⟨fun ha => absurd hfree ha, by simp [Pass.changedItem], by simp [Pass.changedItem]⟩

theorem sound_missing (h : SoundItem q) (hp : q.status ≠ .processing)
    (hr : q.status ≠ .recoveryRequired) : SoundItem (missingItem q) := by
  unfold missingItem
  split
  · exact h
  · refine ⟨fun ha => absurd (h.held ha) (not_or.mpr ⟨hp, hr⟩), by simp, by simp⟩

theorem sound_new (itemId : Text) : SoundItem (p.newItem itemId file) :=
  ⟨by simp [Pass.newItem], by simp [Pass.newItem], by simp [Pass.newItem]⟩

theorem sound_rescan {k : Text} {before after : Option QueueItem}
    (hbefore : ∀ q, before = some q → SoundItem q) (h : Rescan v p k before after) :
    ∀ q, after = some q → SoundItem q := by
  intro q hq
  cases h with
  | kept => exact hbefore q hq
  | same hl _ =>
    cases hq
    exact sound_same (hbefore _ rfl) hl
  | changed hl =>
    cases hq
    exact sound_changed hl
  | missing _ hp hr =>
    cases hq
    exact sound_missing (hbefore _ rfl) hp hr
  | found =>
    cases hq
    exact sound_new k

/-! What the others write. -/

theorem sound_claimed (id : Text) : SoundItem (claimedItem id q) :=
  ⟨fun _ => .inl rfl, by simp [claimedItem], by simp [claimedItem]⟩

theorem sound_finished (state : OutcomeState) (reason : Option Reason)
    (current : Option Fingerprint) (now : Time) :
    SoundItem (finishedItem state reason current now q) := by
  unfold finishedItem
  split
  · exact ⟨by simp, by simp, by simp⟩
  · exact ⟨by simp, by simp, by simp⟩
  · split <;> exact ⟨by simp, by simp, by simp⟩
  · exact ⟨by simp, by simp, by simp⟩

theorem sound_locked : SoundItem { q with
    status := .recoveryRequired, selectable := false, reasonCode := some .recoveryRequired } :=
  ⟨fun _ => .inr rfl, by simp, by simp⟩

theorem sound_returned (card : QuarantineCard) (o : ReturnOperation) (now : Time) :
    SoundItem (returnedItem card o now q) :=
  ⟨by simp [returnedItem], by simp [returnedItem], by simp [returnedItem]⟩

/-! Every row of a run. -/

def Sound (s : Store) : Prop := ∀ (k : Text) q, s.queue[k]? = some q → SoundItem q

theorem Sound.same {s t : Store} (h : Sound s) (hqueue : t.queue = s.queue) : Sound t := by
  intro k q hq
  exact h k q (hqueue ▸ hq)

theorem Sound.put {s t : Store} {k : Text} (h : Sound s) (hq : SoundItem q)
    (hqueue : t.queue = s.queue.insert k q) : Sound t := by
  intro j b hb
  rw [hqueue, get_put] at hb
  split at hb
  · cases hb
    exact hq
  · exact h j b hb

theorem sound_effect {w t : World} (h : Sound w.store) (he : Effect layout w t) :
    Sound t.store := by
  cases he with
  | finished => exact h.put (sound_finished _ _ _ _) rfl
  | locked => exact h.put sound_locked rfl
  | returned => exact h.put (sound_returned _ _ _) rfl
  | _ => exact h.same rfl

theorem sound_change {w t : World} (h : Sound w.store) (hc : Change v w t) : Sound t.store := by
  cases hc with
  | scanned hrows =>
    intro k q hq
    exact sound_rescan (h k) (hrows k) q hq
  | _ => exact h.same rfl

theorem sound_accepting {w t : World} (h : Sound w.store) (ha : Accepting w t) :
    Sound t.store := by
  cases ha with
  | claimed => exact h.put (sound_claimed _) rfl
  | _ => exact h.same rfl

theorem run_sound {P : World → World → Prop} {m : Machine World Cmd Op Val Exn Reply}
    (h : Run v P m) : Sound m.state.store := by
  refine invariant (J := fun w => Sound w.store) ?_ (fun _ _ _ hj _ he => sound_effect hj he)
    (fun _ _ _ hj _ hc => sound_change hj hc) (fun _ _ _ hj ha => sound_accepting hj ha) h
  intro w hw k q hq
  simp [hw.queue] at hq

theorem run_left {P : World → World → Prop} {m : Machine World Cmd Op Val Exn Reply}
    (h : Run v P m) : Left m.state.store := by
  have hall : Owned m.state.store ∧ Left m.state.store := by
    refine invariant (J := fun w => Owned w.store ∧ Left w.store) ?_
      (fun _ _ hw ⟨ho, hl⟩ _ he => ⟨owned_effect hw ho he, left_effect hw ho hl he⟩)
      (fun _ _ _ ⟨ho, hl⟩ _ hc => ⟨owned_change ho hc, left_change hl hc⟩)
      (fun _ _ hw ⟨ho, hl⟩ ha => ⟨owned_accepting ho ha, left_accepting hw hl ha⟩) h
    intro w hw
    refine ⟨by constructor <;> simp [hw.claim, Working, hw.attempt], fun k q hq => ?_⟩
    simp [hw.queue] at hq
  exact hall.2

end QueueStates
