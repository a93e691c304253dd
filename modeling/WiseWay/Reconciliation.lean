import WiseWay.QueueStates

/-! # Reconciliation of an incoming source

One pass gives every file that it found an item of its own: the item of the path, else an
item with the same inode that lost its path, else a new one. What no file was given to is
missing afterwards. -/
namespace Reconciliation

open Records Services AtomicProgram Calls Intake SortingSystem Effects Changes ReturnContract
open QueueStates

variable {v : Service} {p : Pass} {queue : Table QueueItem}

/-- The item that stands for a file, with the stored row it was, if any. -/
structure Assignment where
  file : Found
  previous : Option QueueItem
  itemId : Text

def assignment (p : Pass) (assigned : List Text) (file : Found) : Assignment :=
  match p.previous assigned file with
  | some previous => ⟨file, some previous, previous.itemId⟩
  | none => ⟨file, none, p.newId assigned file⟩

/-- The choices of the loop over the found files, in its order. -/
def assignments (p : Pass) : List Found → List Text → List Assignment
  | [], _ => []
  | file :: rest, assigned =>
    assignment p assigned file :: assignments p rest
      ((assignment p assigned file).itemId :: assigned)

theorem assignment_file (p : Pass) (assigned : List Text) (file : Found) :
    (assignment p assigned file).file = file := by
  unfold assignment
  split <;> rfl

theorem assignments_files (p : Pass) : ∀ (files : List Found) (assigned : List Text),
    (assignments p files assigned).map (·.file) = files
  | [], _ => rfl
  | file :: rest, assigned => by
    simp only [assignments, List.map_cons, assignment_file, assignments_files p rest]

inductive Placed (v : Service) (p : Pass) (queue after : Table QueueItem) (a : Assignment) :
    Prop where
  | new : a.previous = none → queue[a.itemId]? = none →
      after[a.itemId]? = some (p.newItem a.itemId a.file) → Placed v p queue after a
  | known {q : QueueItem} : a.previous = some q → queue[a.itemId]? = some q →
      q.incomingSourceId = p.rootId →
      after[a.itemId]? = some (p.known v.casefold v.settings q a.file) → Placed v p queue after a

theorem Placed.later {after next : Table QueueItem} {a : Assignment}
    (h : Placed v p queue after a) (hrow : next[a.itemId]? = after[a.itemId]?) :
    Placed v p queue next a := by
  cases h with
  | new hp hq ha => exact .new hp hq (hrow.trans ha)
  | known hp hq hr ha => exact .known hp hq hr (hrow.trans ha)

theorem turn_assigned (st : ScanState) (file : Found) :
    (p.turn v.casefold v.settings st file).assigned =
      (assignment p st.assigned file).itemId :: st.assigned := by
  unfold Pass.turn assignment
  cases p.previous st.assigned file <;> rfl

theorem turn_row (st : ScanState) (file : Found) (k : Text)
    (hk : k ≠ (assignment p st.assigned file).itemId) :
    (p.turn v.casefold v.settings st file).queue[k]? = st.queue[k]? := by
  revert hk
  unfold Pass.turn assignment
  cases p.previous st.assigned file with
  | some q =>
    intro hk
    rw [get_put]
    exact if_neg (Ne.symm hk)
  | none =>
    intro hk
    rw [get_put]
    exact if_neg (Ne.symm hk)

/-- What a pass can rely on in the queue that it starts from. -/
structure Known (p : Pass) (queue : Table QueueItem) : Prop extends PassOf p queue where
  key : ∀ (k : Text) q, queue[k]? = some q → q.itemId = k ∧
    ((∃ fp, k = queueId q.incomingSourceId fp) ∨ drawnShape k)

/-- The files that are still to come, with identifiers that could be drawn for them. -/
structure Drawn (queue : Table QueueItem) (files : List Found) : Prop where
  shape : ∀ f ∈ files, drawnShape f.drawn = true ∧ queue[f.drawn]? = none
  nodup : (files.map (·.drawn)).Nodup

theorem Drawn.tail {file : Found} {rest : List Found} (h : Drawn queue (file :: rest)) :
    Drawn queue rest := by
  have hnodup := h.nodup
  rw [List.map_cons, List.nodup_cons] at hnodup
  exact ⟨fun f hf => h.shape f (List.mem_cons_of_mem _ hf), hnodup.2⟩

theorem turn_placed {st : ScanState} {file : Found} {rest : List Found} (hp : Known p queue)
    (hd : Drawn queue (file :: rest)) (hst : Progress v p queue (file :: rest) st) :
    (assignment p st.assigned file).itemId ∉ st.assigned ∧
      Placed v p queue (p.turn v.casefold v.settings st file).queue
        (assignment p st.assigned file) := by
  unfold Pass.turn assignment
  cases hprevious : p.previous st.assigned file with
  | some q =>
    obtain ⟨hmem, hfree⟩ := previous_mem hprevious
    obtain ⟨hrow, hroot⟩ := (hp.existing q).mp hmem
    refine ⟨hfree, .known rfl hrow hroot ?_⟩
    rw [get_put]
    exact if_pos rfl
  | none =>
    obtain ⟨hfree, hnone, _⟩ := newId_fresh hp.key hp.toPassOf hst
      (hd.shape file (List.mem_cons_self ..))
    refine ⟨hfree, .new rfl hnone ?_⟩
    rw [get_put]
    exact if_pos rfl

/-- The loop from one of its states to its end. -/
structure Turned (v : Service) (p : Pass) (queue : Table QueueItem) (st last : ScanState)
    (l : List Assignment) : Prop where
  ids : ∀ k : Text, k ∈ last.assigned ↔ k ∈ st.assigned ∨ ∃ a ∈ l, a.itemId = k
  distinct : (l.map (·.itemId)).Nodup
  new : ∀ a ∈ l, a.itemId ∉ st.assigned
  rows : ∀ k : Text, (∀ a ∈ l, a.itemId ≠ k) → last.queue[k]? = st.queue[k]?
  placed : ∀ a ∈ l, Placed v p queue last.queue a

theorem turns_turned (hp : Known p queue) : ∀ (files : List Found) (st : ScanState),
    Drawn queue files → Progress v p queue files st →
      Turned v p queue st (files.foldl (p.turn v.casefold v.settings) st)
        (assignments p files st.assigned)
  | [], st, _, _ => by
    refine ⟨fun k => ?_, List.nodup_nil, ?_, fun _ _ => rfl, ?_⟩
    · simp [assignments]
    · simp [assignments]
    · simp [assignments]
  | file :: rest, st, hd, hst => by
    obtain ⟨hfree, hplaced⟩ := turn_placed hp hd hst
    have hnext := turn_progress hp.key hp.toPassOf hst hd.shape hd.nodup
    have ih := turns_turned hp rest _ hd.tail hnext
    rw [turn_assigned] at ih
    have hother : ∀ a ∈ assignments p rest ((assignment p st.assigned file).itemId :: st.assigned),
        a.itemId ≠ (assignment p st.assigned file).itemId ∧ a.itemId ∉ st.assigned := by
      intro a ha
      have hnew := ih.new a ha
      rw [turn_assigned] at hnew
      exact not_or.mp (mt List.mem_cons.mpr hnew)
    rw [List.foldl_cons]
    refine ⟨fun k => ?_, ?_, ?_, fun k hk => ?_, ?_⟩
    · rw [ih.ids k, turn_assigned]
      simp only [assignments, List.mem_cons, exists_eq_or_imp]
      constructor
      · rintro ((rfl | hk) | hk)
        · exact .inr (.inl rfl)
        · exact .inl hk
        · exact .inr (.inr hk)
      · rintro (hk | rfl | hk)
        · exact .inl (.inr hk)
        · exact .inl (.inl rfl)
        · exact .inr hk
    · rw [assignments, List.map_cons, List.nodup_cons]
      refine ⟨fun hmem => ?_, ih.distinct⟩
      obtain ⟨a, ha, heq⟩ := List.mem_map.mp hmem
      exact (hother a ha).1 heq
    · intro a ha
      rcases List.mem_cons.mp ha with rfl | ha
      · exact hfree
      · exact (hother a ha).2
    · rw [ih.rows k fun a ha => hk a (List.mem_cons_of_mem _ ha)]
      exact turn_row st file k (Ne.symm (hk _ (List.mem_cons_self ..)))
    · intro a ha
      rcases List.mem_cons.mp ha with rfl | ha
      · exact hplaced.later (ih.rows _ fun a ha => (hother a ha).1)
      · exact ih.placed a ha

/-! The sweep over what was not seen. -/

theorem markMissing_marks (assigned : List Text) (l : List QueueItem) (queue : Table QueueItem)
    (q : QueueItem) (hq : q ∈ l) (hunseen : unseen assigned q = true) :
    ∃ q' ∈ l, q'.itemId = q.itemId ∧ unseen assigned q' = true ∧
      (l.foldl (markMissing assigned) queue)[q.itemId]? = some (missingItem q') := by
  induction l generalizing queue with
  | nil => cases hq
  | cons b l ih =>
    rw [List.foldl_cons]
    rcases List.mem_cons.mp hq with rfl | hq
    · rcases markMissing_spec assigned l (markMissing assigned queue q) q.itemId with
        h | ⟨q', hq', hid, hu, h⟩
      · refine ⟨q, List.mem_cons_self .., rfl, hunseen, ?_⟩
        rw [h]
        unfold markMissing
        rw [if_pos hunseen, get_put]
        exact if_pos rfl
      · exact ⟨q', List.mem_cons_of_mem _ hq', hid, hu, h⟩
    · obtain ⟨q', hq', hrest⟩ := ih (markMissing assigned queue b) hq
      exact ⟨q', List.mem_cons_of_mem _ hq', hrest⟩

/-- The row of an identifier after the sweep. -/
def swept (p : Pass) (assigned : List Text) (q : QueueItem) : QueueItem :=
  if q.incomingSourceId = p.rootId ∧ unseen assigned q = true then missingItem q else q

theorem sweep_row (hp : Known p queue) {st : ScanState} (k : Text)
    (hk : k ∉ st.assigned → st.queue[k]? = queue[k]?) :
    (p.existing.foldl (markMissing st.assigned) st.queue)[k]? =
      if k ∈ st.assigned then st.queue[k]? else (queue[k]?).map (swept p st.assigned) := by
  rcases markMissing_spec st.assigned p.existing st.queue k with h | ⟨q, hq, rfl, hu, h⟩
  · rw [h]
    split
    · rfl
    · rename_i hfree
      rw [hk hfree]
      cases hrow : queue[k]? with
      | none => rfl
      | some q =>
        have hkey := (hp.key k q hrow).1
        rw [Option.map_some, Option.some_inj, swept]
        split
        · rename_i hmarked
          have hmem : q ∈ p.existing := (hp.existing q).mpr ⟨hkey ▸ hrow, hmarked.1⟩
          obtain ⟨q', hq', hid, _, hresult⟩ :=
            markMissing_marks st.assigned p.existing st.queue q hmem hmarked.2
          have hsame : q' = q := by
            have := ((hp.existing q').mp hq').1
            rw [hid, hkey, hrow] at this
            exact (Option.some.inj this).symm
          rw [hkey, h, hk hfree, hrow, hsame] at hresult
          exact Option.some.inj hresult
        · rfl
  · obtain ⟨hrow, hroot⟩ := (hp.existing q).mp hq
    have hfree : q.itemId ∉ st.assigned := by
      have := of_decide_eq_true hu
      exact this.1
    rw [h, if_neg hfree, hrow, Option.map_some, swept, if_pos ⟨hroot, hu⟩]

/-! What a pass leaves behind. -/

/-- A present item with the path and the content that were found. -/
structure Represents (file : Found) (q : QueueItem) : Prop where
  path : q.source.relativePath = file.relative
  fingerprint : q.fingerprint = file.fingerprint
  present : q.status ≠ .missing

/-- The revision tells a change of path, of content or of presence. -/
structure Revised (q q' : QueueItem) : Prop where
  grows : q.itemRevision ≤ q'.itemRevision
  moved : (q'.source.relativePath ≠ q.source.relativePath ∨ q'.fingerprint ≠ q.fingerprint ∨
    ¬(q'.status = .missing ↔ q.status = .missing)) → q.itemRevision < q'.itemRevision

theorem Revised.refl (q : QueueItem) : Revised q q :=
  ⟨le_rfl, by simp⟩

theorem Revised.of_lt {q q' : QueueItem} (h : q.itemRevision < q'.itemRevision) : Revised q q' :=
  ⟨h.le, fun _ => h⟩

theorem sameItem_fields (q : QueueItem) (file : Found) (hpresent : q.status ≠ .missing) :
    (p.sameItem v.casefold v.settings q file).source = p.source file ∧
    (p.sameItem v.casefold v.settings q file).fingerprint = q.fingerprint ∧
    (p.sameItem v.casefold v.settings q file).itemRevision = q.itemRevision ∧
    (p.sameItem v.casefold v.settings q file).incomingSourceId = q.incomingSourceId ∧
    (p.sameItem v.casefold v.settings q file).status ≠ .missing := by
  unfold Pass.sameItem
  dsimp only
  split
  · exact ⟨rfl, rfl, rfl, rfl, by simp⟩
  split
  · exact ⟨rfl, rfl, rfl, rfl, by simp⟩
  · exact ⟨rfl, rfl, rfl, rfl, hpresent⟩

theorem known_cases (q : QueueItem) (file : Found) :
    (locked q = true ∧ p.known v.casefold v.settings q file = q) ∨
    (locked q = false ∧ Represents file (p.known v.casefold v.settings q file) ∧
      Revised q (p.known v.casefold v.settings q file)) := by
  unfold Pass.known
  cases hl : locked q with
  | true => exact .inl ⟨rfl, if_pos rfl⟩
  | false =>
    rw [if_neg (by simp)]
    refine .inr ⟨rfl, ?_⟩
    split
    · rename_i hsame
      obtain ⟨hprint, hpath, hpresent⟩ := hsame
      obtain ⟨hsource, hkept, hrevision, _, hstatus⟩ :=
        sameItem_fields (v := v) (p := p) q file hpresent
      refine ⟨⟨by rw [hsource]; rfl, hkept.trans hprint, hstatus⟩, hrevision.ge, fun h => ?_⟩
      rcases h with h | h | h
      · rw [hsource] at h
        exact absurd hpath.symm h
      · exact absurd hkept h
      · exact absurd (iff_of_false hstatus hpresent) h
    · exact ⟨⟨rfl, rfl, by simp [Pass.changedItem]⟩, .of_lt (Nat.lt_succ_self _)⟩

theorem known_root (q : QueueItem) (file : Found) :
    (p.known v.casefold v.settings q file).incomingSourceId = q.incomingSourceId := by
  unfold Pass.known Pass.sameItem
  dsimp only
  split
  · rfl
  split
  · split
    · rfl
    split <;> rfl
  · rfl

theorem missingItem_revised (q : QueueItem) : Revised q (missingItem q) := by
  unfold missingItem
  split
  · exact .refl q
  · exact .of_lt (Nat.lt_succ_self _)

theorem missingItem_status (q : QueueItem) : (missingItem q).status = .missing := by
  unfold missingItem
  split
  · assumption
  · rfl

theorem missingItem_root (q : QueueItem) :
    (missingItem q).incomingSourceId = q.incomingSourceId := by
  unfold missingItem
  split <;> rfl

/-- The queue after a pass against the queue before it and the items the files were given. -/
structure Reconciled (p : Pass) (queue after : Table QueueItem) (l : List Assignment) : Prop where
  files : l.map (·.file) = p.found
  distinct : (l.map (·.itemId)).Nodup
  generated : ∀ a ∈ l, a.previous = none → queue[a.itemId]? = none
  stored : ∀ a ∈ l, ∀ q, a.previous = some q →
    queue[a.itemId]? = some q ∧ q.incomingSourceId = p.rootId
  represented : ∀ a ∈ l, ∃ q, after[a.itemId]? = some q ∧ q.incomingSourceId = p.rootId ∧
    (a.previous = some q ∧ locked q = true ∨ Represents a.file q)
  once : ∀ a ∈ l, ∀ (k : Text) q, after[k]? = some q → q.incomingSourceId = p.rootId →
    locked q = false → q.status ≠ .missing → q.source.relativePath = a.file.relative →
      k = a.itemId
  held : ∀ (k : Text) q, queue[k]? = some q → locked q = true → after[k]? = some q
  missing : ∀ (k : Text) q, after[k]? = some q → q.incomingSourceId = p.rootId →
    (∀ a ∈ l, a.itemId ≠ k) → q.departed = false → locked q = false →
      q.status = .missing ∧ q.selectable = false
  revised : ∀ (k : Text) q, queue[k]? = some q → ∃ q', after[k]? = some q' ∧ Revised q q'
  others : ∀ (k : Text) q, after[k]? = some q → q.incomingSourceId ≠ p.rootId →
    queue[k]? = some q

/-- The rows of the finished pass: the assigned ones as they were placed, the rest swept. -/
structure Finished (v : Service) (p : Pass) (queue after : Table QueueItem) (assigned : List Text)
    (l : List Assignment) : Prop where
  ids : ∀ k : Text, k ∈ assigned ↔ ∃ a ∈ l, a.itemId = k
  distinct : (l.map (·.itemId)).Nodup
  placed : ∀ a ∈ l, Placed v p queue after a
  rest : ∀ k : Text, (∀ a ∈ l, a.itemId ≠ k) → after[k]? = (queue[k]?).map (swept p assigned)

theorem pass_finished (hp : Known p queue) (hd : Drawn queue p.found) :
    ∃ assigned, Finished v p queue (p.queue v.casefold v.settings queue) assigned
      (assignments p p.found []) := by
  have hstart : Progress v p queue p.found ⟨queue, []⟩ := ⟨fun _ _ => rfl, by simp, by simp⟩
  have hturned := turns_turned hp p.found ⟨queue, []⟩ hd hstart
  have hids : ∀ k : Text, k ∈ (p.found.foldl (p.turn v.casefold v.settings) ⟨queue, []⟩).assigned ↔
      ∃ a ∈ assignments p p.found [], a.itemId = k := by
    intro k
    rw [hturned.ids k]
    simp
  have hfree : ∀ k : Text,
      k ∉ (p.found.foldl (p.turn v.casefold v.settings) ⟨queue, []⟩).assigned →
        ∀ a ∈ assignments p p.found [], a.itemId ≠ k :=
    fun k hk a ha heq => hk ((hids k).mpr ⟨a, ha, heq⟩)
  refine ⟨_, hids, hturned.distinct, fun a ha => ?_, fun k hk => ?_⟩
  · refine (hturned.placed a ha).later ?_
    unfold Pass.queue
    rw [sweep_row hp a.itemId fun hk => hturned.rows _ (hfree _ hk)]
    exact if_pos ((hids _).mpr ⟨a, ha, rfl⟩)
  · unfold Pass.queue
    rw [sweep_row hp k fun hk => hturned.rows _ (hfree _ hk)]
    refine if_neg fun hmem => ?_
    obtain ⟨a, ha, heq⟩ := (hids k).mp hmem
    exact hk a ha heq

theorem unseen_iff {assigned : List Text} {q : QueueItem} (hsound : SoundItem q) :
    unseen assigned q = true ↔ q.itemId ∉ assigned ∧ q.departed = false ∧ locked q = false := by
  have hlocked : locked q = false ↔ ¬(q.status = .processing ∨ q.status = .recoveryRequired) := by
    rw [← hsound.locked_iff, Bool.not_eq_true]
  obtain ⟨h₁, h₂, h₃⟩ := hsound.unfinished
  simp only [unseen, hlocked, decide_eq_true_eq, List.mem_cons, List.not_mem_nil, or_false, h₁, h₂,
    h₃, false_or]

theorem swept_cases (p : Pass) (assigned : List Text) {q : QueueItem} (hsound : SoundItem q) :
    swept p assigned q = q ∧ (q.incomingSourceId ≠ p.rootId ∨ q.itemId ∈ assigned ∨
        q.departed = true ∨ locked q = true) ∨
      swept p assigned q = missingItem q ∧ q.incomingSourceId = p.rootId ∧ locked q = false := by
  unfold swept
  split
  · rename_i hmarked
    exact .inr ⟨rfl, hmarked.1, ((unseen_iff hsound).mp hmarked.2).2.2⟩
  · rename_i hkept
    rw [unseen_iff hsound] at hkept
    refine .inl ⟨rfl, ?_⟩
    by_contra hnone
    simp only [not_or, not_not, Bool.not_eq_true] at hnone
    exact hkept hnone

section Finished

variable {after : Table QueueItem} {assigned : List Text} {l : List Assignment}

theorem Finished.swept_of (h : Finished v p queue after assigned l) {k : Text} {q : QueueItem}
    (hk : ∀ a ∈ l, a.itemId ≠ k) (hq : after[k]? = some q) :
    ∃ b, queue[k]? = some b ∧ q = swept p assigned b := by
  rw [h.rest k hk] at hq
  obtain ⟨b, hb, rfl⟩ := Option.map_eq_some_iff.mp hq
  exact ⟨b, hb, rfl⟩

theorem Finished.missing (h : Finished v p queue after assigned l) (hp : Known p queue)
    (hsound : ∀ (k : Text) q, queue[k]? = some q → SoundItem q) {k : Text} {q : QueueItem}
    (hq : after[k]? = some q) (hroot : q.incomingSourceId = p.rootId)
    (hk : ∀ a ∈ l, a.itemId ≠ k) (hlive : q.departed = false) (hfree : locked q = false) :
    q.status = .missing ∧ q.selectable = false := by
  obtain ⟨b, hb, rfl⟩ := h.swept_of hk hq
  rcases swept_cases p assigned (hsound k b hb) with
    ⟨heq, hwhy⟩ | ⟨heq, _, hlb⟩
  · rw [heq] at hroot hlive hfree
    rcases hwhy with hwhy | hwhy | hwhy | hwhy
    · exact absurd hroot hwhy
    · rw [(hp.key k b hb).1, h.ids] at hwhy
      obtain ⟨a, ha, hid⟩ := hwhy
      exact absurd hid (hk a ha)
    · cases hlive.symm.trans hwhy
    · cases hfree.symm.trans hwhy
  · obtain ⟨hprocessing, hrecovery, _⟩ := locked_eq_false.mp hlb
    have hmissing := missingItem_status b
    rw [heq]
    exact ⟨hmissing, ((sound_missing (hsound k b hb) hprocessing hrecovery).missing hmissing).1⟩

theorem Finished.represented (h : Finished v p queue after assigned l) {a : Assignment}
    (ha : a ∈ l) : ∃ q, after[a.itemId]? = some q ∧ q.incomingSourceId = p.rootId ∧
      (a.previous = some q ∧ locked q = true ∨ Represents a.file q) := by
  cases h.placed a ha with
  | new _ _ hrow => exact ⟨_, hrow, rfl, .inr ⟨rfl, rfl, by simp [Pass.newItem]⟩⟩
  | @known q hq _ hroot hrow =>
    refine ⟨_, hrow, (known_root q a.file).trans hroot, ?_⟩
    rcases known_cases (v := v) (p := p) q a.file with ⟨hl, hsame⟩ | ⟨_, hrep, _⟩
    · rw [hsame]
      exact .inl ⟨hq, hl⟩
    · exact .inr hrep

theorem Finished.given (h : Finished v p queue after assigned l) (hp : Known p queue)
    (hsound : ∀ (k : Text) q, queue[k]? = some q → SoundItem q)
    (hleft : ∀ (k : Text) q, queue[k]? = some q → q.departed = true → q.status = .missing)
    {k : Text} {q : QueueItem} (hq : after[k]? = some q) (hroot : q.incomingSourceId = p.rootId)
    (hfree : locked q = false) (hpresent : q.status ≠ .missing) :
    ∃ a ∈ l, a.itemId = k ∧ q.source.relativePath = a.file.relative := by
  by_cases hassigned : ∃ a ∈ l, a.itemId = k
  · obtain ⟨a, ha, rfl⟩ := hassigned
    obtain ⟨b, hb, _, ⟨_, hl⟩ | hrep⟩ := h.represented ha
    · obtain rfl := Option.some.inj (hb.symm.trans hq)
      cases hfree.symm.trans hl
    · obtain rfl := Option.some.inj (hb.symm.trans hq)
      exact ⟨a, ha, rfl, hrep.path⟩
  · exfalso
    have hk : ∀ a ∈ l, a.itemId ≠ k := fun a ha heq => hassigned ⟨a, ha, heq⟩
    by_cases hdeparted : q.departed = true
    · obtain ⟨b, hb, rfl⟩ := h.swept_of hk hq
      rcases swept_cases p assigned (hsound k b hb) with ⟨heq, _⟩ | ⟨heq, _⟩
      · rw [heq] at hpresent hdeparted
        exact hpresent (hleft k b hb hdeparted)
      · rw [heq] at hpresent
        exact hpresent (missingItem_status b)
    · exact hpresent (h.missing hp hsound hq hroot hk (by simpa using hdeparted) hfree).1

theorem Finished.held (h : Finished v p queue after assigned l)
    (hsound : ∀ (k : Text) q, queue[k]? = some q → SoundItem q) {k : Text} {q : QueueItem}
    (hq : queue[k]? = some q) (hl : locked q = true) : after[k]? = some q := by
  by_cases hassigned : ∃ a ∈ l, a.itemId = k
  · obtain ⟨a, ha, rfl⟩ := hassigned
    cases h.placed a ha with
    | new _ hfree _ => cases hfree.symm.trans hq
    | @known b _ hb _ hrow =>
      obtain rfl := Option.some.inj (hb.symm.trans hq)
      rcases known_cases (v := v) (p := p) b a.file with ⟨_, hsame⟩ | ⟨hfree, _⟩
      · rw [hrow, hsame]
      · cases hfree.symm.trans hl
  · rw [h.rest k fun a ha heq => hassigned ⟨a, ha, heq⟩, hq, Option.map_some]
    rcases swept_cases p assigned (hsound k q hq) with ⟨heq, _⟩ | ⟨_, _, hfree⟩
    · rw [heq]
    · cases hfree.symm.trans hl

theorem Finished.revised (h : Finished v p queue after assigned l)
    (hsound : ∀ (k : Text) q, queue[k]? = some q → SoundItem q) {k : Text} {q : QueueItem}
    (hq : queue[k]? = some q) : ∃ q', after[k]? = some q' ∧ Revised q q' := by
  by_cases hassigned : ∃ a ∈ l, a.itemId = k
  · obtain ⟨a, ha, rfl⟩ := hassigned
    cases h.placed a ha with
    | new _ hfree _ => cases hfree.symm.trans hq
    | @known b _ hb _ hrow =>
      obtain rfl := Option.some.inj (hb.symm.trans hq)
      refine ⟨_, hrow, ?_⟩
      rcases known_cases (v := v) (p := p) b a.file with ⟨_, hsame⟩ | ⟨_, _, hrevised⟩
      · rw [hsame]
        exact .refl b
      · exact hrevised
  · refine ⟨swept p assigned q, ?_, ?_⟩
    · rw [h.rest k fun a ha heq => hassigned ⟨a, ha, heq⟩, hq, Option.map_some]
    · rcases swept_cases p assigned (hsound k q hq) with ⟨heq, _⟩ | ⟨heq, _⟩
      · rw [heq]
        exact .refl q
      · rw [heq]
        exact missingItem_revised q

theorem Finished.others (h : Finished v p queue after assigned l)
    (hsound : ∀ (k : Text) q, queue[k]? = some q → SoundItem q) {k : Text} {q : QueueItem}
    (hq : after[k]? = some q) (hroot : q.incomingSourceId ≠ p.rootId) : queue[k]? = some q := by
  by_cases hassigned : ∃ a ∈ l, a.itemId = k
  · obtain ⟨a, ha, rfl⟩ := hassigned
    obtain ⟨b, hb, hsame, _⟩ := h.represented ha
    obtain rfl := Option.some.inj (hb.symm.trans hq)
    exact absurd hsame hroot
  · obtain ⟨b, hb, rfl⟩ := h.swept_of (fun a ha heq => hassigned ⟨a, ha, heq⟩) hq
    rcases swept_cases p assigned (hsound k b hb) with
      ⟨heq, _⟩ | ⟨heq, hsame, _⟩
    · rw [heq]
      exact hb
    · rw [heq, missingItem_root] at hroot
      exact absurd hsame hroot

theorem Finished.reconciled (h : Finished v p queue after assigned l) (hp : Known p queue)
    (hsound : ∀ (k : Text) q, queue[k]? = some q → SoundItem q)
    (hleft : ∀ (k : Text) q, queue[k]? = some q → q.departed = true → q.status = .missing)
    (hfiles : l.map (·.file) = p.found) (hpaths : (p.found.map (·.relative)).Nodup) :
    Reconciled p queue after l := by
  have hnodup : (l.map fun a => a.file.relative).Nodup := by
    have hmap : l.map (fun a => a.file.relative) = (l.map (·.file)).map (·.relative) := by
      rw [List.map_map]
      rfl
    rw [hmap, hfiles]
    exact hpaths
  refine ⟨hfiles, h.distinct, ?_, ?_, fun a ha => h.represented ha, ?_,
    fun k q hq hl => h.held hsound hq hl,
    fun k q hq hroot hk hlive hfree => h.missing hp hsound hq hroot hk hlive hfree,
    fun k q hq => h.revised hsound hq, fun k q hq hroot => h.others hsound hq hroot⟩
  · intro a ha hnone
    cases h.placed a ha with
    | new _ hfree _ => exact hfree
    | known hsome => cases hnone.symm.trans hsome
  · intro a ha q hsome
    cases h.placed a ha with
    | new hnone => cases hnone.symm.trans hsome
    | known hq hrow hroot _ =>
      obtain rfl := Option.some.inj (hq.symm.trans hsome)
      exact ⟨hrow, hroot⟩
  · intro a ha k q hq hroot hfree hpresent hpath
    obtain ⟨b, hb, rfl, hbpath⟩ := h.given hp hsound hleft hq hroot hfree hpresent
    rw [List.inj_on_of_nodup_map hnodup hb ha (hbpath.symm.trans hpath)]

end Finished

/-! One scan of a run. -/

theorem startPass_known {w : World} (hw : Coherent w) (rootId companyId : Text) (root : Root)
    (now : Time) (found : List Found) :
    Known (startPass rootId root companyId now found w.store) w.store.queue where
  toPassOf := startPass_of rootId companyId root now found hw.queue_key
  key k q hq := ⟨hw.queue_key k q hq, hw.queue_id k q hq⟩

theorem drawn_of_fresh {found : List Found} {s : Store} (h : foundFresh found s = true) :
    Drawn s.queue found ∧ (found.map (·.relative)).Nodup := by
  simp only [foundFresh, List.all_eq_true, Bool.and_eq_true, decide_eq_true_eq,
    Option.isNone_iff_eq_none] at h
  exact ⟨⟨h.2.2, h.2.1⟩, h.1⟩

/-- The pass that a scan of a root makes over a store. -/
inductive Scanned (v : Service) (rootId : Text) (now : Time) (found : List Found) (s : Store) :
    Pass → Prop where
  | pass {root : Root} {companyId : Text} : v.layout.root rootId = some root →
      root.incomingCompany = some companyId →
      Scanned v rootId now found s (startPass rootId root companyId now found s)

theorem scan_step {m n : Machine World Cmd Op Val Exn Reply} {rootId : Text} {now : Time}
    {found : List Found} (hstep : (system v).step m (.other (.scan rootId now found)) = some n) :
    foundFresh found m.state.store = true ∧ ∃ p, Scanned v rootId now found m.state.store p ∧
      n.state.store.queue = p.queue v.casefold v.settings m.state.store.queue := by
  rcases System.step_cases hstep with ⟨_, h, _⟩ | ⟨_, _, _, _, h, _⟩ | ⟨h, _⟩ | ⟨e, t, h, ht, rfl⟩
  · cases h
  · cases h
  · rcases h with h | h <;> cases h
  · cases h
    simp only [system, other] at ht
    split at ht
    · rename_i hfound
      refine ⟨hfound, ?_⟩
      obtain ⟨s, hs, rfl⟩ := Option.map_eq_some_iff.mp ht
      unfold scan at hs
      split at hs
      · cases hs
      · rename_i root hroot
        split at hs
        · cases hs
        · rename_i companyId hcompany
          cases hs
          exact ⟨_, .pass hroot hcompany, rfl⟩
    · cases ht

theorem scan_finished {P : World → World → Prop} {m n : Machine World Cmd Op Val Exn Reply}
    {rootId : Text} {now : Time} {found : List Found} (h : Run v P m)
    (hstep : (system v).step m (.other (.scan rootId now found)) = some n) :
    ∃ p assigned, Scanned v rootId now found m.state.store p ∧ Known p m.state.store.queue ∧
      Finished v p m.state.store.queue n.state.store.queue assigned (assignments p found []) := by
  obtain ⟨hfound, p, hscanned, hqueue⟩ := scan_step hstep
  obtain ⟨hdrawn, _⟩ := drawn_of_fresh hfound
  rw [hqueue]
  cases hscanned with
  | @pass root companyId hroot hcompany =>
    have hknown := startPass_known (run_coherent h) rootId companyId root now found
    obtain ⟨assigned, hfinished⟩ := pass_finished (v := v) hknown hdrawn
    exact ⟨_, assigned, .pass hroot hcompany, hknown, hfinished⟩

/-- Every scan in every run reconciles the items of its source with the files that it found. -/
theorem scan_reconciled {m n : Machine World Cmd Op Val Exn Reply} {rootId : Text} {now : Time}
    {found : List Found} (h : Run v anyStep m)
    (hstep : (system v).step m (.other (.scan rootId now found)) = some n) :
    ∃ p, Scanned v rootId now found m.state.store p ∧
      Reconciled p m.state.store.queue n.state.store.queue (assignments p found []) := by
  obtain ⟨p, assigned, hscanned, hknown, hfinished⟩ := scan_finished h hstep
  refine ⟨p, hscanned, hfinished.reconciled hknown (run_sound h)
    (fun k q hq hd => (run_left h k q hq hd).2.1) ?_ ?_⟩
  · cases hscanned
    exact assignments_files _ _ _
  · cases hscanned
    exact (drawn_of_fresh (scan_step hstep).1).2

/-- Two names of one file, and a later walk that finds it under a third name next to another
file in the place of the second. -/
def linkedFound : List Found :=
  [⟨['a'], ⟨1, 7, 3, 0⟩, ['q', 'u', 'e', 'u', 'e', '-', '1']⟩,
    ⟨['b'], ⟨1, 7, 3, 0⟩, ['q', 'u', 'e', 'u', 'e', '-', '2']⟩]

def renamedFound : List Found :=
  [⟨['b'], ⟨1, 8, 5, 9⟩, ['q', 'u', 'e', 'u', 'e', '-', '3']⟩,
    ⟨['c'], ⟨1, 7, 3, 0⟩, ['q', 'u', 'e', 'u', 'e', '-', '4']⟩]

theorem smallLayout_in :
    small.layout.root "in".toList = some (smallRoot "In" "in" (some "co".toList)) := by
  unfold small smallLayout
  dsimp only
  exact if_pos rfl

theorem scan_reconciled_renamed : ∃ m n p,
    (system small).run (checkStep small fun _ _ => true)
      [.other (.scan "in".toList 0 linkedFound)] ⟨smallWorld true [], none⟩ = some m ∧
    (system small).step m (.other (.scan "in".toList 20 renamedFound)) = some n ∧
    (assignments p renamedFound []).map (·.itemId) =
      ["queue-2".toList, "queue-in-1-7".toList] ∧
    Reconciled p m.state.store.queue n.state.store.queue (assignments p renamedFound []) := by
  have hrun : (((system small).run (checkStep small fun _ _ => true)
      [.other (.scan "in".toList 0 linkedFound)] ⟨smallWorld true [], none⟩).bind fun m =>
        (system small).step m (.other (.scan "in".toList 20 renamedFound))).isSome = true := by
    decide +kernel
  obtain ⟨n, hn⟩ := Option.isSome_iff_exists.mp hrun
  obtain ⟨m, hm, hstep⟩ := Option.bind_eq_some_iff.mp hn
  obtain ⟨p, hp, hreconciled⟩ :=
    scan_reconciled (run_checked (fun _ _ _ => trivial) (smallWorld_start _ _) hm) hstep
  refine ⟨m, n, p, hm, hstep, ?_, hreconciled⟩
  have hids : ((system small).run (checkStep small fun _ _ => true)
      [.other (.scan "in".toList 0 linkedFound)] ⟨smallWorld true [], none⟩).all (fun m =>
        (assignments (startPass "in".toList (smallRoot "In" "in" (some "co".toList)) "co".toList 20
          renamedFound m.state.store) renamedFound []).map (·.itemId) =
            ["queue-2".toList, "queue-in-1-7".toList]) = true := by decide +kernel
  cases hp with
  | pass hroot hcompany =>
    obtain rfl := Option.some.inj (smallLayout_in.symm.trans hroot)
    obtain rfl := Option.some.inj (Eq.trans (Eq.symm hcompany) rfl)
    exact of_decide_eq_true ((Option.all_eq_true _ _).mp hids m hm)

end Reconciliation
