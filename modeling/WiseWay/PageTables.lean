import Mathlib.Algebra.Order.BigOperators.Group.List
import Mathlib.Algebra.Order.Group.Nat
import Mathlib.Data.List.Nodup
import WiseWay.ListPages

/-! # The tables of the pages

A snapshot is stored under its parts and never rewritten, a cursor expires with its snapshot,
and every new snapshot has passed the quota. -/
namespace PageTables

open Records ListPages
open Fallible (bind_eq_ok)

variable {J : Type} [DecidableEq J] {z : Sizes J} {s t : Pages J} {r : PageRequest J} {now : Time}

/-! What the tables hold. -/

/-- A cursor and a snapshot of one owner and one query that expire together. -/
structure Belongs (c : Cursor J) (x : Snapshot J) : Prop where
  owner : x.owner = c.owner
  query : x.query = c.query
  expires : x.expires = c.expires

/-- A snapshot is stored under its parts, or under the old cursor that had its payload. -/
inductive SnapshotNamed (s : Pages J) (x : Snapshot J) : Prop where
  | first {scope field payload} :
      x.snapshotId = .snapshot scope x.owner x.query field payload →
      x.body = .payload scope payload → SnapshotNamed s x
  | legacy {c payload offset} : c ∈ s.cursors → Belongs c x →
      x.snapshotId = .legacySnapshot c.cursorId → c.body = .legacy payload offset →
      x.body = .payload c.scope payload → SnapshotNamed s x
  | audit {cutoffSeq newest} : x.snapshotId = .auditSnapshot x.owner x.query cutoffSeq x.expires →
      x.body = .audit cutoffSeq newest → SnapshotNamed s x

/-- A new cursor is stored under its parts, and its snapshot is there. -/
inductive CursorNamed (s : Pages J) (c : Cursor J) : Prop where
  | compact {x offset payload} : x ∈ s.snapshots → Belongs c x →
      x.body = .payload c.scope payload →
      c.cursorId = .cursor c.scope c.owner c.query x.snapshotId offset c.expires →
      c.body = .compact x.snapshotId offset → CursorNamed s c
  | keyset {x occurredAt eventId} : x ∈ s.snapshots → Belongs c x → c.scope = auditScope →
      c.cursorId = .auditCursor c.owner c.query x.snapshotId occurredAt eventId →
      c.body = .keyset x.snapshotId occurredAt eventId → CursorNamed s c

def Old (c : Cursor J) : Prop :=
  (∃ text, c.cursorId = .given text ∧ text ≠ []) ∧ ∃ payload offset, c.body = .legacy payload offset

/-- The quota of every owner. -/
def Bounded (s : Pages J) : Prop :=
  ∀ owner, (ownSizes s owner).length ≤ maxPageSnapshotsPerUser ∧
    (ownSizes s owner).sum ≤ maxPageSnapshotTotalBytesPerUser

structure Sound (s : Pages J) : Prop where
  snapshotIds : (s.snapshots.map (·.snapshotId)).Nodup
  cursorIds : (s.cursors.map (·.cursorId)).Nodup
  snapshot : ∀ x ∈ s.snapshots, SnapshotNamed s x
  cursor : ∀ c ∈ s.cursors, Old c ∨ CursorNamed s c
  bounded : Bounded s

omit [DecidableEq J] in
theorem Sound.snapshot_unique (h : Sound s) {x y : Snapshot J} (hx : x ∈ s.snapshots)
    (hy : y ∈ s.snapshots) (hid : x.snapshotId = y.snapshotId) : x = y :=
  List.inj_on_of_nodup_map h.snapshotIds hx hy hid

omit [DecidableEq J] in
theorem Sound.cursor_unique (h : Sound s) {c d : Cursor J} (hc : c ∈ s.cursors)
    (hd : d ∈ s.cursors) (hid : c.cursorId = d.cursorId) : c = d :=
  List.inj_on_of_nodup_map h.cursorIds hc hd hid

theorem getSnapshot_some {id : Key J} {x : Snapshot J} (h : getSnapshot s id = some x) :
    x ∈ s.snapshots ∧ x.snapshotId = id :=
  ⟨List.mem_of_find?_eq_some h, by simpa using List.find?_some h⟩

theorem Sound.getSnapshot (h : Sound s) {x : Snapshot J} (hx : x ∈ s.snapshots) :
    getSnapshot s x.snapshotId = some x := by
  cases hfound : ListPages.getSnapshot s x.snapshotId with
  | none => exact absurd (List.find?_eq_none.mp hfound x hx) (by simp)
  | some y =>
    obtain ⟨hy, hid⟩ := getSnapshot_some hfound
    rw [h.snapshot_unique hy hx hid]

theorem getCursor_some {id : Key J} {c : Cursor J} (h : getCursor s id = some c) :
    c ∈ s.cursors ∧ c.cursorId = id :=
  ⟨List.mem_of_find?_eq_some h, by simpa using List.find?_some h⟩

theorem Sound.getCursor (h : Sound s) {c : Cursor J} (hc : c ∈ s.cursors) :
    getCursor s c.cursorId = some c := by
  cases hfound : ListPages.getCursor s c.cursorId with
  | none => exact absurd (List.find?_eq_none.mp hfound c hc) (by simp)
  | some d =>
    obtain ⟨hd, hid⟩ := getCursor_some hfound
    rw [h.cursor_unique hd hc hid]

omit [DecidableEq J] in
theorem SnapshotNamed.mono {x : Snapshot J} (h : SnapshotNamed s x)
    (hcursors : ∀ c ∈ s.cursors, x.expires = c.expires → Old c → c ∈ t.cursors)
    (hold : ∀ c ∈ s.cursors, ∀ payload offset, c.body = .legacy payload offset → Old c) :
    SnapshotNamed t x := by
  cases h with
  | first hid hbody => exact .first hid hbody
  | legacy hc hbelongs hid hlegacy hbody =>
    exact .legacy (hcursors _ hc hbelongs.expires (hold _ hc _ _ hlegacy)) hbelongs hid hlegacy
      hbody
  | audit hid hbody => exact .audit hid hbody

omit [DecidableEq J] in
theorem CursorNamed.mono {c : Cursor J} (h : CursorNamed s c)
    (hsnapshots : ∀ x ∈ s.snapshots, x.expires = c.expires → x ∈ t.snapshots) :
    CursorNamed t c := by
  cases h with
  | compact hx hbelongs hpayload hid hbody =>
    exact .compact (hsnapshots _ hx hbelongs.expires) hbelongs hpayload hid hbody
  | keyset hx hbelongs hscope hid hbody =>
    exact .keyset (hsnapshots _ hx hbelongs.expires) hbelongs hscope hid hbody

omit [DecidableEq J] in
theorem Sound.old (h : Sound s) {c : Cursor J} (hc : c ∈ s.cursors) {payload : Payload J}
    {offset : ℕ} (hbody : c.body = .legacy payload offset) : Old c := by
  rcases h.cursor c hc with hold | hnamed
  · exact hold
  · cases hnamed with
    | compact _ _ _ _ hcompact =>
      rw [hbody] at hcompact
      cases hcompact
    | keyset _ _ _ _ hkeyset =>
      rw [hbody] at hkeyset
      cases hkeyset

omit [DecidableEq J] in
theorem named_unique (h : Sound s) {c d : Cursor J} (hd : d ∈ s.cursors) (hc : CursorNamed s c)
    (hid : d.cursorId = c.cursorId) : d = c := by
  have hfields : ∀ {a b : Cursor J}, a.cursorId = b.cursorId → a.scope = b.scope →
      a.owner = b.owner → a.query = b.query → a.expires = b.expires → a.body = b.body → a = b := by
    intro a b h₁ h₂ h₃ h₄ h₅ h₆
    cases a
    cases b
    simp only at h₁ h₂ h₃ h₄ h₅ h₆
    subst h₁ h₂ h₃ h₄ h₅ h₆
    rfl
  rcases h.cursor d hd with ⟨⟨text, hgiven, _⟩, _⟩ | hnamed
  · rw [hgiven] at hid
    cases hc with
    | compact _ _ _ hc => rw [hc] at hid; cases hid
    | keyset _ _ _ hc => rw [hc] at hid; cases hid
  · cases hnamed with
    | compact _ _ _ hdid hdbody =>
      cases hc with
      | compact _ _ _ hcid hcbody =>
        have hparts := hdid.symm.trans (hid.trans hcid)
        injection hparts with hscope howner hquery hsnapshot hoffset hexpires
        refine hfields hid hscope howner hquery hexpires ?_
        rw [hdbody, hcbody, hsnapshot, hoffset]
      | keyset _ _ _ hcid _ =>
        cases hdid.symm.trans (hid.trans hcid)
    | keyset hx hxd hdscope hdid hdbody =>
      cases hc with
      | compact _ _ _ hcid _ =>
        cases hdid.symm.trans (hid.trans hcid)
      | keyset hy hyc hcscope hcid hcbody =>
        have hparts := hdid.symm.trans (hid.trans hcid)
        injection hparts with howner hquery hsnapshot hoccurred hevent
        have hsame := h.snapshot_unique hx hy hsnapshot
        refine hfields hid (hdscope.trans hcscope.symm) howner hquery ?_ ?_
        · rw [← hxd.expires, hsame, hyc.expires]
        · rw [hdbody, hcbody, hsnapshot, hoccurred, hevent]

theorem mem_putCursor (h : Sound s) {c d : Cursor J} (hc : CursorNamed s c) :
    d ∈ (putCursor s c).cursors ↔ d ∈ s.cursors ∨ d = c := by
  unfold putCursor
  simp only [List.mem_append, List.mem_filter, List.mem_singleton, decide_eq_true_eq]
  constructor
  · rintro (⟨hd, _⟩ | rfl)
    · exact .inl hd
    · exact .inr rfl
  · rintro (hd | rfl)
    · by_cases hid : d.cursorId = c.cursorId
      · exact .inr (named_unique h hd hc hid)
      · exact .inl ⟨hd, hid⟩
    · exact .inr rfl

/-! What the transactions do to the tables. -/

theorem sum_le_of_sublist {l l' : List ℕ} (h : l.Sublist l') : l.sum ≤ l'.sum :=
  h.sum_le_sum fun _ _ => Nat.zero_le _

omit [DecidableEq J] in
theorem sound_delete (h : Sound s) (now : Time) : Sound (deleteExpiredPages now s) := by
  refine ⟨h.snapshotIds.sublist (List.filter_sublist.map _),
    h.cursorIds.sublist (List.filter_sublist.map _), fun x hx => ?_, fun c hc => ?_,
    fun owner => ?_⟩
  · obtain ⟨hx, hlive⟩ := List.mem_filter.mp hx
    refine (h.snapshot x hx).mono (fun c hc hexpires _ => ?_) fun c hc _ _ hbody => h.old hc hbody
    exact List.mem_filter.mpr ⟨hc, by rwa [hexpires] at hlive⟩
  · obtain ⟨hc, hlive⟩ := List.mem_filter.mp hc
    refine (h.cursor c hc).imp id fun hnamed => hnamed.mono fun x hx hexpires => ?_
    exact List.mem_filter.mpr ⟨hx, by rwa [← hexpires] at hlive⟩
  · have hsub : (ownSizes (deleteExpiredPages now s) owner).Sublist (ownSizes s owner) :=
      (List.filter_sublist.filter _).map _
    obtain ⟨hlength, hsum⟩ := h.bounded owner
    exact ⟨hsub.length_le.trans hlength, (sum_le_of_sublist hsub).trans hsum⟩

theorem putSnapshot_fresh {x : Snapshot J} (h : getSnapshot s x.snapshotId = none) :
    (putSnapshot s x).snapshots = s.snapshots ++ [x] := by
  unfold putSnapshot
  simp only
  congr 1
  refine List.filter_eq_self.mpr fun y hy => ?_
  simpa using List.find?_eq_none.mp h y hy

omit [DecidableEq J] in
theorem checkPageQuota_ok {owner : Text} {bytes : ℕ}
    (h : checkPageQuota s owner bytes = .ok ()) :
    (ownSizes s owner).length < maxPageSnapshotsPerUser ∧
      (ownSizes s owner).sum + bytes ≤ maxPageSnapshotTotalBytesPerUser := by
  unfold checkPageQuota at h
  split at h
  · cases h
  · rename_i hfits
    simp only [not_or, not_le, not_lt] at hfits
    exact ⟨hfits.2.1, hfits.2.2⟩

theorem sound_putSnapshot (h : Sound s) {x : Snapshot J}
    (hfresh : getSnapshot s x.snapshotId = none)
    (hnamed : SnapshotNamed s x) (hquota : checkPageQuota s x.owner x.payloadBytes = .ok ()) :
    Sound (putSnapshot s x) := by
  have hput := putSnapshot_fresh hfresh
  have hmem : ∀ y, y ∈ (putSnapshot s x).snapshots ↔ y ∈ s.snapshots ∨ y = x := by
    intro y
    rw [hput, List.mem_append, List.mem_singleton]
  refine ⟨?_, h.cursorIds, fun y hy => ?_, fun c hc => ?_, fun owner => ?_⟩
  · rw [hput, List.map_append, List.nodup_append]
    refine ⟨h.snapshotIds, List.nodup_singleton _, fun a ha b hb => ?_⟩
    obtain ⟨y, hy, rfl⟩ := List.mem_map.mp ha
    obtain rfl := List.mem_singleton.mp hb
    simpa using List.find?_eq_none.mp hfresh y hy
  · have hkept : SnapshotNamed s y := by
      rcases (hmem y).mp hy with hy | rfl
      · exact h.snapshot y hy
      · exact hnamed
    exact hkept.mono (fun c hc _ _ => hc) fun c hc _ _ hbody => h.old hc hbody
  · exact (h.cursor c hc).imp id fun hc => hc.mono fun y hy _ => (hmem y).mpr (.inl hy)
  · obtain ⟨hlength, hsum⟩ := h.bounded owner
    have hsizes : ownSizes (putSnapshot s x) owner =
        ownSizes s owner ++ if x.owner = owner then [x.payloadBytes] else [] := by
      unfold ownSizes
      rw [hput, List.filter_append, List.map_append]
      congr 1
      by_cases howner : x.owner = owner
      · simp [howner]
      · simp [howner]
    rw [hsizes]
    by_cases howner : x.owner = owner
    · subst howner
      obtain ⟨hless, hfits⟩ := checkPageQuota_ok hquota
      rw [if_pos rfl, List.length_append, List.sum_append]
      exact ⟨hless, by simpa using hfits⟩
    · rw [if_neg howner, List.append_nil]
      exact ⟨hlength, hsum⟩

theorem sound_putCursor (h : Sound s) {c : Cursor J} (hc : CursorNamed s c) :
    Sound (putCursor s c) := by
  refine ⟨h.snapshotIds, ?_, fun x hx => ?_, fun d hd => ?_, h.bounded⟩
  · unfold putCursor
    simp only [List.map_append, List.map_cons, List.map_nil]
    refine List.nodup_append.mpr ⟨h.cursorIds.sublist (List.filter_sublist.map _),
      List.nodup_singleton _, fun a ha b hb => ?_⟩
    obtain ⟨d, hd, rfl⟩ := List.mem_map.mp ha
    obtain rfl := List.mem_singleton.mp hb
    simpa using (List.mem_filter.mp hd).2
  · refine (h.snapshot x hx).mono (fun d hd _ _ => ?_) fun d hd _ _ hbody => h.old hd hbody
    exact (mem_putCursor h hc).mpr (.inl hd)
  · have hkept : Old d ∨ CursorNamed s d := by
      rcases (mem_putCursor h hc).mp hd with hd | rfl
      · exact h.cursor d hd
      · exact .inr hc
    exact hkept.imp id fun hd => hd.mono fun x hx _ => hx

/-- What a transaction adds after it has deleted what expired. -/
inductive Grows (s : Pages J) : Pages J → Prop where
  | refl : Grows s s
  | snapshot {t x} : Grows s t → getSnapshot t x.snapshotId = none → SnapshotNamed t x →
      checkPageQuota t x.owner x.payloadBytes = .ok () → Grows s (putSnapshot t x)
  | cursor {t c} : Grows s t → CursorNamed t c → Grows s (putCursor t c)

theorem Grows.sound (h : Grows s t) (hs : Sound s) :
    Sound t ∧ (∀ x ∈ s.snapshots, x ∈ t.snapshots) ∧ ∀ c ∈ s.cursors, c ∈ t.cursors := by
  induction h with
  | refl => exact ⟨hs, fun _ hx => hx, fun _ hc => hc⟩
  | snapshot _ hfresh hnamed hquota ih =>
    obtain ⟨ht, hsnapshots, hcursors⟩ := ih
    refine ⟨sound_putSnapshot ht hfresh hnamed hquota, fun x hx => ?_, hcursors⟩
    rw [putSnapshot_fresh hfresh]
    exact List.mem_append_left _ (hsnapshots x hx)
  | cursor _ hnamed ih =>
    obtain ⟨ht, hsnapshots, hcursors⟩ := ih
    exact ⟨sound_putCursor ht hnamed, hsnapshots,
      fun c hc => (mem_putCursor ht hnamed).mpr (.inl (hcursors c hc))⟩

end PageTables
