import Mathlib.Data.List.Find
import WiseWay.AuditSnapshots
import WiseWay.PageStability
import WiseWay.Requests

/-! # One pair of tables for every page

The journal, the lists and the idempotent requests each have a model of the kinds `page_snapshot`
and `cursor` that keeps what its operations read. The tables of the lists hold all of it, and
every operation does to its own model what it does to these tables. -/
namespace SharedPages

open Records ListPages
open Fallible (Agree bind_eq_ok)
open AuditPages (Site SnapshotId AuditSnapshot CursorKey AuditCursor PayloadPage Filter AuditError
  Keyset)
open Sessions (Actor)

variable {J : Type} [DecidableEq J]

/-! The journal. -/

section Journal

variable (json : Filter → Table J)

def snapshotKey (id : SnapshotId) : Key J :=
  .auditSnapshot id.owner (json id.query) id.cutoffSeq id.expires

def snapshotRow (x : AuditSnapshot) : Snapshot J where
  snapshotId := snapshotKey json x.snapshotId
  owner := x.owner
  query := json x.query
  payloadBytes := x.payloadBytes
  expires := x.expires
  body := .audit x.cutoffSeq x.newestEventId

def cursorKey (id : CursorKey) : Key J :=
  .auditCursor id.owner (json id.query) (snapshotKey json id.snapshotId) id.position.occurredAt
    id.position.eventId

def cursorRow (c : AuditCursor) : Cursor J where
  cursorId := cursorKey json c.cursorId
  scope := auditScope
  owner := c.owner
  query := json c.query
  expires := c.expires
  body := .keyset (snapshotKey json c.snapshotId) c.position.occurredAt c.position.eventId

def ofJournal (x : Snapshot J) : Bool :=
  match x.body with
  | .audit _ _ => true
  | .payload _ _ => false

def ofKeyset (c : Cursor J) : Bool :=
  match c.body with
  | .keyset _ _ _ => true
  | _ => false

def payloadPage (x : Snapshot J) : PayloadPage := ⟨x.owner, x.payloadBytes, x.expires⟩

/-- The tables hold the rows of the journal; the other snapshots are what the quota counts. -/
structure Shows (p : Pages J) (s : Site) : Prop where
  snapshots : p.snapshots.filter ofJournal = s.snapshots.map (snapshotRow json)
  cursors : p.cursors.filter ofKeyset = s.cursors.map (cursorRow json)
  others : (p.snapshots.filter fun x => !ofJournal x).map payloadPage = s.payloadPages

/-- A signature determines the query, and both models measure a snapshot alike. -/
structure Encodes (z : Sizes J) (u : AuditPages.Library) : Prop where
  injective : Function.Injective json
  bytes : ∀ owner query cutoffSeq newest expires,
    z.audit owner (json query) cutoffSeq newest expires =
      u.snapshotBytes owner query cutoffSeq newest expires

def auditError : PageError → AuditError
  | .validationError => .validationError
  | .rateLimited => .rateLimited
  | .raised => .raised

end Journal

variable {json : Filter → Table J} {z : Sizes J} {u : AuditPages.Library} {p q : Pages J}
  {s : Site} {now : Time}

omit [DecidableEq J] in
theorem snapshotKey_inj (h : Function.Injective json) {a b : SnapshotId} :
    snapshotKey json a = snapshotKey json b ↔ a = b := by
  constructor
  · intro hkeys
    unfold snapshotKey at hkeys
    injection hkeys with howner hquery hcutoff hexpires
    cases a
    cases b
    simp only at howner hquery hcutoff hexpires
    rw [howner, h hquery, hcutoff, hexpires]
  · rintro rfl
    rfl

omit [DecidableEq J] in
theorem cursorKey_inj (h : Function.Injective json) {a b : CursorKey} :
    cursorKey json a = cursorKey json b ↔ a = b := by
  constructor
  · intro hkeys
    unfold cursorKey at hkeys
    injection hkeys with howner hquery hsnapshot hoccurred hevent
    obtain ⟨_, _, _, _, _⟩ := a
    obtain ⟨_, _, _, _, _⟩ := b
    simp only at howner hquery hsnapshot hoccurred hevent
    rw [howner, h hquery, (snapshotKey_inj h).mp hsnapshot, hoccurred, hevent]
  · rintro rfl
    rfl

omit [DecidableEq J] in
theorem ofJournal_of_key (hp : PageTables.Sound p) {x : Snapshot J} (hx : x ∈ p.snapshots)
    {id : SnapshotId} (hid : x.snapshotId = snapshotKey json id) : ofJournal x = true := by
  cases hp.snapshot x hx with
  | first hfirst _ => cases hid.symm.trans hfirst
  | legacy _ _ hlegacy _ _ => cases hid.symm.trans hlegacy
  | audit _ hbody => simp only [ofJournal, hbody]

omit [DecidableEq J] in
theorem find_shows (hs : Shows json p s) {P : Snapshot J → Bool} {Q : AuditSnapshot → Bool}
    (hrow : ∀ y, P (snapshotRow json y) = Q y)
    (hjournal : ∀ x ∈ p.snapshots, P x = true → ofJournal x = true) :
    p.snapshots.find? P = (s.snapshots.find? Q).map (snapshotRow json) := by
  have hcongr : p.snapshots.find? P = (p.snapshots.filter ofJournal).find? P := by
    rw [List.find?_filter]
    refine List.find?_congr fun x hx => ?_
    cases hP : P x with
    | false => simp
    | true => simp [hjournal x hx hP]
  rw [hcongr, hs.snapshots, List.find?_map]
  congr 2
  exact funext hrow

theorem getSnapshot_shows (h : Function.Injective json) (hp : PageTables.Sound p)
    (hs : Shows json p s) (id : SnapshotId) :
    getSnapshot p (snapshotKey json id) =
      (AuditPages.getSnapshot s id).map (snapshotRow json) := by
  refine find_shows hs (fun y => ?_) fun x hx hid => ?_
  · exact decide_eq_decide.mpr (snapshotKey_inj h)
  · exact ofJournal_of_key hp hx (of_decide_eq_true hid)

omit [DecidableEq J] in
theorem delete_shows (hs : Shows json p s) (now : Time) :
    Shows json (deleteExpiredPages now p) (AuditPages.deleteExpiredPages now s) := by
  refine ⟨?_, ?_, ?_⟩
  · unfold deleteExpiredPages AuditPages.deleteExpiredPages
    simp only
    rw [List.filter_comm, hs.snapshots, List.filter_map]
    rfl
  · unfold deleteExpiredPages AuditPages.deleteExpiredPages
    simp only
    rw [List.filter_comm, hs.cursors, List.filter_map]
    rfl
  · unfold deleteExpiredPages AuditPages.deleteExpiredPages
    simp only
    rw [List.filter_comm, ← hs.others, List.filter_map]
    rfl

omit [DecidableEq J] in
theorem ownSizes_shows (hs : Shows json p s) (owner : Text) :
    (ownSizes p owner).Perm (AuditPages.ownPages s owner) := by
  have hrows := ((List.filter_append_perm ofJournal p.snapshots).filter (·.owner = owner)).map
    (·.payloadBytes)
  rw [List.filter_append, List.map_append, hs.snapshots, List.filter_map, List.map_map] at hrows
  refine hrows.symm.trans (List.Perm.of_eq ?_)
  unfold AuditPages.ownPages
  rw [← hs.others, List.filter_map, List.map_map]
  rfl

omit [DecidableEq J] in
theorem quota_shows (hs : Shows json p s) (owner : Text) (bytes : ℕ) :
    Agree auditError (fun _ _ => True) (checkPageQuota p owner bytes)
      (AuditPages.checkPageQuota s owner bytes) := by
  have hbounds : AuditPages.checkPageQuota s owner bytes =
      if maxPageSnapshotBytes < bytes ∨
          maxPageSnapshotsPerUser ≤ (AuditPages.ownPages s owner).length ∨
          maxPageSnapshotTotalBytesPerUser < (AuditPages.ownPages s owner).sum + bytes then
        .error .rateLimited
      else .ok () := rfl
  unfold checkPageQuota
  rw [hbounds, (ownSizes_shows hs owner).length_eq, (ownSizes_shows hs owner).sum_eq]
  split
  · exact .error PageError.rateLimited
  · exact .ok trivial

/-! A snapshot and a cursor of the journal. -/

theorem putSnapshot_shows (h : Function.Injective json) (hp : PageTables.Sound p)
    (hs : Shows json p s) (x : AuditSnapshot) :
    Shows json (putSnapshot p (snapshotRow json x)) (AuditPages.putSnapshot s x) := by
  unfold putSnapshot AuditPages.putSnapshot
  refine ⟨?_, hs.cursors, ?_⟩
  · simp only [List.filter_append, List.map_append]
    rw [List.filter_comm, hs.snapshots, List.filter_map]
    congr 2
    refine List.filter_congr fun y _ => ?_
    exact decide_eq_decide.mpr (not_congr (snapshotKey_inj h))
  · simp only [List.filter_append, List.map_append]
    rw [← hs.others, List.filter_comm]
    have hkept : (p.snapshots.filter fun y => !ofJournal y).filter
        (·.snapshotId ≠ (snapshotRow json x).snapshotId) =
          p.snapshots.filter fun y => !ofJournal y := by
      refine List.filter_eq_self.mpr fun y hy => decide_eq_true fun hid => ?_
      obtain ⟨hy, hother⟩ := List.mem_filter.mp hy
      rw [ofJournal_of_key hp hy hid] at hother
      cases hother
    rw [hkept]
    exact List.append_nil _

theorem putCursor_shows (h : Function.Injective json) (hs : Shows json p s) (c : AuditCursor) :
    Shows json (putCursor p (cursorRow json c)) (AuditPages.putCursor s c) := by
  unfold putCursor AuditPages.putCursor
  refine ⟨hs.snapshots, ?_, hs.others⟩
  simp only [List.filter_append, List.map_append]
  rw [List.filter_comm, hs.cursors, List.filter_map]
  congr 2
  refine List.filter_congr fun y _ => ?_
  exact decide_eq_decide.mpr (not_congr (cursorKey_inj h))

/-- `reserve_audit_snapshot` finds or stores the same row. -/
theorem reserve_shows (hjson : Encodes json z u) (hp : PageTables.Sound p) (hs : Shows json p s)
    (actor : Actor) (query : Filter) (cutoffSeq : ℕ) (newest : Option Text) (now : Time) :
    Agree auditError (fun x y => x.1 = snapshotRow json y.1 ∧ Shows json x.2 y.2)
      (reserveAuditSnapshot z actor.userId (json query) cutoffSeq newest now p)
      (AuditPages.reserveAuditSnapshot u actor query cutoffSeq newest now s) := by
  have hdeleted := delete_shows hs now
  have hfind := find_shows hdeleted
    (P := fun saved => saved.owner = actor.userId ∧ saved.query = json query ∧
      isAudit cutoffSeq saved.body ∧ now < saved.expires)
    (Q := fun saved => saved.owner = actor.userId ∧ saved.query = query ∧
      saved.cutoffSeq = cutoffSeq ∧ now < saved.expires)
    (fun y => by simp [snapshotRow, isAudit, hjson.injective.eq_iff])
    (fun x _ hx => by
      cases hbody : x.body with
      | audit _ _ => simp [ofJournal, hbody]
      | payload _ _ => simp [isAudit, hbody] at hx)
  unfold reserveAuditSnapshot AuditPages.reserveAuditSnapshot
  simp only
  rw [hfind]
  cases (AuditPages.deleteExpiredPages now s).snapshots.find? _ with
  | some saved => exact .ok ⟨rfl, hdeleted⟩
  | none =>
    simp only [Option.map_none]
    rw [hjson.bytes]
    refine (quota_shows hdeleted actor.userId _).bind fun _ _ _ => .ok ⟨?_, ?_⟩
    · rfl
    · exact putSnapshot_shows hjson.injective (PageTables.sound_delete hp now) hdeleted
        ⟨⟨actor.userId, query, cutoffSeq, now + pageCursorSeconds⟩, actor.userId, query, cutoffSeq,
          newest, now + pageCursorSeconds,
          u.snapshotBytes actor.userId query cutoffSeq newest (now + pageCursorSeconds)⟩

/-- `create_audit_cursor` refuses the same positions and stores the same row. -/
theorem create_shows (h : Function.Injective json) (hp : PageTables.Sound p)
    (hs : Shows json p s) (actor : Actor) (query : Filter) (x : AuditSnapshot)
    (position : Keyset) (now : Time) :
    Agree auditError (fun t t' => Shows json t t'.2)
      (createAuditCursor actor.userId (json query) (snapshotKey json x.snapshotId)
        position.occurredAt position.eventId now p)
      (AuditPages.createAuditCursor actor query x position now s) := by
  unfold createAuditCursor AuditPages.createAuditCursor
  simp only
  rw [getSnapshot_shows h hp hs]
  cases hfound : AuditPages.getSnapshot s x.snapshotId with
  | none => exact .error PageError.validationError
  | some saved =>
    have hid : saved.snapshotId = x.snapshotId := by simpa using List.find?_some hfound
    simp only [Option.map_some, snapshotRow, ne_eq, h.eq_iff]
    split
    · exact .error PageError.validationError
    · refine .ok ?_
      rw [hid]
      exact putCursor_shows h hs ⟨⟨actor.userId, query, x.snapshotId, position⟩, actor.userId,
        query, x.snapshotId, saved.expires, position⟩

/-! Other lists. -/

theorem putSnapshot_listed (hs : Shows json p s) {x : Snapshot J}
    (hfresh : getSnapshot p x.snapshotId = none) (hlist : ofJournal x = false) :
    Shows json (putSnapshot p x) { s with payloadPages := s.payloadPages ++ [payloadPage x] } := by
  refine ⟨?_, hs.cursors, ?_⟩
  · rw [PageTables.putSnapshot_fresh hfresh, List.filter_append, hs.snapshots]
    simp [hlist]
  · rw [PageTables.putSnapshot_fresh hfresh, List.filter_append, List.map_append, hs.others]
    simp [hlist]

theorem putCursor_listed (hp : PageTables.Sound p) (hs : Shows json p s) {c : Cursor J}
    (hnamed : PageTables.CursorNamed p c) (hlist : ofKeyset c = false) :
    Shows json (putCursor p c) s := by
  refine ⟨hs.snapshots, ?_, hs.others⟩
  unfold putCursor
  simp only [List.filter_append]
  rw [List.filter_comm, ← hs.cursors]
  have hkept : (p.cursors.filter ofKeyset).filter (·.cursorId ≠ c.cursorId) =
      p.cursors.filter ofKeyset := by
    refine List.filter_eq_self.mpr fun d hd => decide_eq_true fun hid => ?_
    obtain ⟨hd, hkeyset⟩ := List.mem_filter.mp hd
    rw [PageTables.named_unique hp hd hnamed hid, hlist] at hkeyset
    cases hkeyset
  rw [hkept]
  simp [hlist]

theorem serve_shows (hp : PageTables.Sound p) (hs : Shows json p s) {r : PageRequest J}
    {place : Place J} (hplaced : PageStability.Placed z p r place) {page : Page J}
    (h : serve z r place p = .ok (page, q)) :
    ∃ pages, Shows json q { s with payloadPages := pages } := by
  unfold serve at h
  obtain ⟨rows, _, h⟩ := bind_eq_ok.mp h
  by_cases hmore : place.offset + r.limit < rows.length
  · rw [if_pos hmore] at h
    obtain ⟨⟨x, t⟩, hkeep, h⟩ := bind_eq_ok.mp h
    cases h
    unfold keepSnapshot at hkeep
    cases hsnapshot : place.snapshot with
    | some y =>
      rw [hsnapshot] at hkeep
      cases hkeep
      obtain ⟨hy, hserves⟩ := hplaced.kept _ hsnapshot
      exact ⟨s.payloadPages,
        putCursor_listed hp hs (PageStability.nextCursor_named hy hserves) rfl⟩
    | none =>
      obtain ⟨hfresh, hnamed⟩ := hplaced.absent hsnapshot
      rw [hsnapshot] at hkeep
      obtain ⟨_, hquota, hkeep⟩ := bind_eq_ok.mp hkeep
      cases hkeep
      refine ⟨_, putCursor_listed (PageTables.sound_putSnapshot hp hfresh hnamed hquota)
        (putSnapshot_listed hs hfresh rfl) (PageStability.nextCursor_named ?_ ?_) rfl⟩
      · exact List.mem_append_right _ (List.mem_singleton_self _)
      · exact ⟨⟨rfl, rfl, rfl⟩, rfl, rfl⟩
  · rw [if_neg hmore] at h
    cases h
    exact ⟨s.payloadPages, hs⟩

/-- A page of another list deletes what expired, or nothing, and changes what the quota counts. -/
theorem page_shows (hp : PageTables.Sound p) (hs : Shows json p s) {r : PageRequest J}
    {page : Page J} (h : ListPages.page z r now p = .ok (page, q)) :
    ∃ t pages, (t = s ∨ t = AuditPages.deleteExpiredPages now s) ∧
      Shows json q { t with payloadPages := pages } := by
  have hstart : ∀ {page : Page J} {q : Pages J},
      serve z r (start r now (deleteExpiredPages now p)) (deleteExpiredPages now p) =
        .ok (page, q) →
      ∃ t pages, (t = s ∨ t = AuditPages.deleteExpiredPages now s) ∧
        Shows json q { t with payloadPages := pages } := by
    intro page q h
    have hdeleted := PageTables.sound_delete hp now
    obtain ⟨pages, hpages⟩ :=
      serve_shows hdeleted (delete_shows hs now) (PageStability.start_placed hdeleted) h
    exact ⟨_, pages, .inr rfl, hpages⟩
  unfold ListPages.page at h
  cases hcursor : r.cursor with
  | none =>
    rw [hcursor] at h
    obtain ⟨rows, _, h⟩ := bind_eq_ok.mp h
    by_cases hshort : rows.length ≤ r.limit
    · rw [if_pos hshort] at h
      cases h
      exact ⟨s, s.payloadPages, .inl rfl, hs⟩
    · rw [if_neg hshort] at h
      exact hstart h
  | some k =>
    rw [hcursor] at h
    simp only at h
    by_cases hk : k = .given []
    · rw [if_pos hk] at h
      exact hstart h
    · rw [if_neg hk] at h
      obtain ⟨place, hplace, h⟩ := bind_eq_ok.mp h
      obtain ⟨c, hc, _, hadmitted, hsource, hexpires, hsnapshot⟩ :=
        PageStability.resume_ok hp hplace
      obtain ⟨pages, hpages⟩ := serve_shows hp hs
        (PageStability.source_placed hp hc hadmitted hsource hexpires hsnapshot) h
      exact ⟨s, pages, .inl rfl, hpages⟩

/-! Runs. -/

open AuditPages (JournalEvent visibleCutoff newestVisibleEventId)
open AuditSnapshots (Emitted Steps)
open Sessions (Role)

/-- An audit request reserves what it has read of the journal. -/
inductive Asked (json : Filter → Table J) (roleOf : Text → Role) (journal : List JournalEvent) :
    Move J → Prop where
  | page (r : PageRequest J) (now : Time) : Asked json roleOf journal (.page r now)
  | reserve (actor : Actor) (query : Filter) (seen : List JournalEvent) (now : Time) :
      actor.role = roleOf actor.userId → seen <+: journal →
        Asked json roleOf journal (.reserve actor.userId (json query)
          (visibleCutoff actor.role seen)
          (newestVisibleEventId actor.role seen (visibleCutoff actor.role seen)) now)
  | keyset (actor : Actor) (query : Filter) (x : AuditSnapshot) (position : Keyset) (now : Time) :
      Asked json roleOf journal (.keyset actor.userId (json query) (snapshotKey json x.snapshotId)
        position.occurredAt position.eventId now)
  | maintenance (now : Time) : Asked json roleOf journal (.maintenance now)

variable {roleOf : Text → Role} {clock : Time → Prop}

/-- Every transaction on the tables is one that the model of the journal has, or two. -/
theorem apply_shows (hjson : Encodes json z u) (hp : PageTables.Sound p) (hs : Shows json p s)
    {m : Move J} (hasked : Asked json roleOf s.journal m) (hclock : clock m.now) :
    ∃ t, Steps u roleOf clock s t ∧ t.journal = s.journal ∧ Shows json (apply z p m) t := by
  cases hasked with
  | page r now =>
    unfold apply
    simp only
    cases h : ListPages.page z r now p with
    | error e => exact ⟨s, .refl, rfl, hs⟩
    | ok result =>
      obtain ⟨page, q⟩ := result
      obtain ⟨t, pages, ht, hshows⟩ := page_shows hp hs h
      refine ⟨{ t with payloadPages := pages }, ?_, ?_, hshows⟩
      · rcases ht with rfl | rfl
        · exact .single (.payload _ pages)
        · exact .tail (.single (.maintain s now hclock)) (.payload _ pages)
      · rcases ht with rfl | rfl
        · rfl
        · rfl
  | reserve actor query seen now hrole hseen =>
    have hagree := reserve_shows hjson hp hs actor query (visibleCutoff actor.role seen)
      (newestVisibleEventId actor.role seen (visibleCutoff actor.role seen)) now
    unfold apply
    simp only
    generalize hx : reserveAuditSnapshot z actor.userId (json query) _ _ now p = x at hagree ⊢
    generalize hy : AuditPages.reserveAuditSnapshot u actor query _ _ now s = y at hagree
    cases hagree with
    | error e => exact ⟨s, .refl, rfl, hs⟩
    | ok hab =>
      exact ⟨_, .single (.reserve hclock hrole hseen hy), (AuditSnapshots.reserve_ok hy).1, hab.2⟩
  | keyset actor query x position now =>
    have hagree := create_shows hjson.injective hp hs actor query x position now
    unfold apply
    simp only
    generalize hx : createAuditCursor actor.userId (json query) _ _ _ now p = x' at hagree ⊢
    generalize hy : AuditPages.createAuditCursor actor query x position now s = y at hagree
    cases hagree with
    | error e => exact ⟨s, .refl, rfl, hs⟩
    | ok hab =>
      refine ⟨_, .single (.cursor hclock hy), ?_, hab⟩
      obtain ⟨_, _, _, _, _, _, hcreated⟩ := AuditSnapshots.create_ok hy
      rw [hcreated]
      rfl
  | maintenance now => exact ⟨_, .single (.maintain s now hclock), rfl, delete_shows hs now⟩

inductive Moves (z : Sizes J) (json : Filter → Table J) (roleOf : Text → Role)
    (clock : Time → Prop) : Pages J × List JournalEvent → Pages J × List JournalEvent → Prop where
  | append {p journal} (event : JournalEvent) : Emitted event →
      event.eventId ∉ journal.map (·.eventId) →
        Moves z json roleOf clock (p, journal) (p, journal ++ [event])
  | pages {p journal} {m : Move J} : Asked json roleOf journal m → clock m.now →
      Moves z json roleOf clock (p, journal) (apply z p m, journal)

theorem moves_shows (hjson : Encodes json z u) {a b : Pages J × List JournalEvent}
    (hmoves : Relation.ReflTransGen (Moves z json roleOf clock) a b)
    (hp : PageTables.Sound a.1) (hs : Shows json a.1 s) (hjournal : s.journal = a.2) :
    ∃ t, Steps u roleOf clock s t ∧ t.journal = b.2 ∧ Shows json b.1 t ∧ PageTables.Sound b.1 := by
  induction hmoves with
  | refl => exact ⟨s, .refl, hjournal, hs, hp⟩
  | tail _ hmove ih =>
    obtain ⟨t, hsteps, ht, hshows, hsound⟩ := ih
    cases hmove with
    | append event hemitted hfresh =>
      refine ⟨{ t with journal := t.journal ++ [event] }, hsteps.tail (.append event hemitted ?_),
        ?_, ⟨hshows.snapshots, hshows.cursors, hshows.others⟩, hsound⟩
      · rw [ht]
        exact hfresh
      · exact congrArg (· ++ [event]) ht
    | @pages _ journal _ hasked hclock =>
      obtain rfl : t.journal = journal := ht
      obtain ⟨t', hsteps', ht', hshows'⟩ := apply_shows hjson hsound hshows hasked hclock
      exact ⟨t', hsteps.trans hsteps', ht', hshows',
        (PageStability.apply_sound hsound _).1⟩

omit [DecidableEq J] in
theorem start_shows (hp : Start p) (journal : List JournalEvent) :
    Shows json p ⟨journal, [], [], []⟩ := by
  refine ⟨by simp [hp.snapshots], ?_, by simp [hp.snapshots]⟩
  refine List.filter_eq_nil_iff.mpr fun c hc hkeyset => ?_
  obtain ⟨_, payload, offset, hlegacy⟩ := hp.legacy c hc
  simp [ofKeyset, hlegacy] at hkeyset

/-! The idempotent requests. -/

/-- What the tables of the lists call the rows that a request knows by their contents. -/
structure Names (J : Type) where
  snapshot : Requests.PageKey → Key J
  cursor : Requests.PageCursor → Key J
  snapshot_injective : Function.Injective snapshot
  cursor_injective : Function.Injective cursor

abbrev SnapshotFields (J : Type) := Key J × Text × ℕ × Time

def Names.fields (n : Names J) (x : Requests.PageSnapshot) : SnapshotFields J :=
  (n.snapshot x.key, x.key.owner, x.payloadBytes, x.expires)

def snapshotFields (x : Snapshot J) : SnapshotFields J :=
  (x.snapshotId, x.owner, x.payloadBytes, x.expires)

/-- The same rows in another order. -/
structure Holds (n : Names J) (p : Pages J) (q : Requests.Pages) : Prop where
  snapshots : (p.snapshots.map snapshotFields).Perm (q.snapshots.map n.fields)
  cursors : (p.cursors.map fun c => (c.cursorId, c.expires)).Perm
    (q.cursors.map fun c => (n.cursor c, c.expires))

/-- A request for the first page of what `payload` stands for. -/
structure Lists (n : Names J) (z : Sizes J) (bytes : Requests.Payload → ℕ) (owner : Text)
    (payload : Requests.Payload) (rows : List J) (r : PageRequest J) : Prop where
  cursor : r.cursor = none
  limit : r.limit = Requests.pageLimit
  owned : r.owner = owner
  rows : rowsOf r.payload r.field = .ok rows
  bytes : z.payload r.payload = bytes payload
  snapshot : n.snapshot ⟨owner, payload⟩ =
    .snapshot r.scope owner (filters r.query) r.field r.payload
  following : ∀ expires, n.cursor ⟨⟨owner, payload⟩, Requests.pageLimit, expires⟩ =
    .cursor r.scope owner (filters r.query) (n.snapshot ⟨owner, payload⟩) Requests.pageLimit expires

def requestError : PageError → Exn
  | .validationError => apiError .validationError
  | .rateLimited => apiError .rateLimited
  | .raised => .failure

variable {n : Names J} {k : Requests.Pages} {bytes : Requests.Payload → ℕ} {owner : Text}
  {payload : Requests.Payload} {rows : List J} {r : PageRequest J}

omit [DecidableEq J] in
theorem delete_holds (hk : Holds n p k) (now : Time) :
    Holds n (deleteExpiredPages now p) (Requests.deleteExpiredPages now k) := by
  constructor
  · have h := hk.snapshots.filter (now < ·.2.2.2)
    rw [List.filter_map, List.filter_map] at h
    exact h
  · have h := hk.cursors.filter (now < ·.2)
    rw [List.filter_map, List.filter_map] at h
    exact h

omit [DecidableEq J] in
theorem quota_holds (hk : Holds n p k) (owner : Text) (size : ℕ) :
    Agree requestError (fun _ _ => True) (checkPageQuota p owner size)
      (Requests.checkPageQuota k owner size) := by
  have hown : (ownSizes p owner).Perm
      ((k.snapshots.filter (·.key.owner = owner)).map (·.payloadBytes)) := by
    have h := (hk.snapshots.filter (·.2.1 = owner)).map (·.2.2.1)
    rw [List.filter_map, List.filter_map, List.map_map, List.map_map] at h
    exact h
  have hbounds : Requests.checkPageQuota k owner size =
      if maxPageSnapshotBytes < size ∨ maxPageSnapshotsPerUser ≤
            (k.snapshots.filter (·.key.owner = owner)).length ∨
          maxPageSnapshotTotalBytesPerUser <
            ((k.snapshots.filter (·.key.owner = owner)).map (·.payloadBytes)).sum + size then
        .error (apiError .rateLimited)
      else .ok () := rfl
  unfold checkPageQuota
  rw [hbounds, hown.length_eq, hown.sum_eq, List.length_map]
  split
  · exact .error PageError.rateLimited
  · exact .ok trivial

theorem find_holds (hp : PageTables.Sound p) (hk : Holds n p k) (key : Requests.PageKey) :
    (getSnapshot p (n.snapshot key)).map snapshotFields =
      (k.snapshots.find? (·.key = key)).map n.fields := by
  cases hfound : k.snapshots.find? (·.key = key) with
  | some x =>
    have hkey : x.key = key := by simpa using List.find?_some hfound
    have hmem := hk.snapshots.mem_iff.mpr
      (List.mem_map_of_mem (List.mem_of_find?_eq_some hfound))
    obtain ⟨y, hy, hfields⟩ := List.mem_map.mp hmem
    have hid : y.snapshotId = n.snapshot key := by
      rw [← hkey]
      exact congrArg Prod.fst hfields
    rw [← hid, hp.getSnapshot hy]
    exact congrArg some hfields
  | none =>
    rw [Option.map_none, Option.map_eq_none_iff]
    refine List.find?_eq_none.mpr fun y hy hid => ?_
    have hmem := hk.snapshots.mem_iff.mp (List.mem_map_of_mem hy)
    obtain ⟨x, hx, hfields⟩ := List.mem_map.mp hmem
    have hkey : n.snapshot x.key = n.snapshot key :=
      (congrArg Prod.fst hfields).trans (of_decide_eq_true hid)
    exact List.find?_eq_none.mp hfound x hx (decide_eq_true (n.snapshot_injective hkey))

theorem putSnapshot_holds (hk : Holds n p k) {x : Snapshot J} {y : Requests.PageSnapshot}
    (hfresh : getSnapshot p x.snapshotId = none) (hfields : snapshotFields x = n.fields y) :
    Holds n (putSnapshot p x) { k with snapshots := y :: k.snapshots } := by
  refine ⟨?_, hk.cursors⟩
  rw [PageTables.putSnapshot_fresh hfresh, List.map_append, List.map_singleton, hfields]
  exact List.perm_append_comm.trans (hk.snapshots.cons _)

theorem putCursor_holds (hp : (p.cursors.map (·.cursorId)).Nodup) (hk : Holds n p k)
    {c : Cursor J} {d : Requests.PageCursor} (hid : c.cursorId = n.cursor d)
    (hexpires : c.expires = d.expires) :
    Holds n (putCursor p c) { k with cursors := d :: k.cursors.erase d } := by
  have hinjective : Function.Injective fun d : Requests.PageCursor => (n.cursor d, d.expires) :=
    fun a b hab => n.cursor_injective (congrArg Prod.fst hab)
  have hdistinct : (p.cursors.map fun c => (c.cursorId, c.expires)).Nodup := by
    refine List.Nodup.of_map Prod.fst ?_
    rw [List.map_map]
    exact hp
  -- The names keep the moment of expiry, so the row that is replaced is the one that is erased.
  have hreplaced : (p.cursors.filter (·.cursorId ≠ c.cursorId)).map
      (fun c => (c.cursorId, c.expires)) =
        (p.cursors.map fun c => (c.cursorId, c.expires)).erase (n.cursor d, d.expires) := by
    rw [hdistinct.erase_eq_filter, List.filter_map]
    refine congrArg _ (List.filter_congr fun e he => ?_)
    have hsame : e.cursorId = c.cursorId ↔ (e.cursorId, e.expires) = (n.cursor d, d.expires) := by
      constructor
      · intro hec
        obtain ⟨d', _, hd'⟩ := List.mem_map.mp (hk.cursors.mem_iff.mp (List.mem_map_of_mem he))
        obtain rfl : d' = d :=
          n.cursor_injective ((congrArg Prod.fst hd').trans (hec.trans hid))
        exact hd'.symm
      · intro hed
        exact (congrArg Prod.fst hed).trans hid.symm
    simp only [Function.comp_apply, bne, beq_eq_decide, hsame, decide_not]
  refine ⟨hk.snapshots, ?_⟩
  unfold putCursor
  simp only [List.map_append, List.map_cons, List.map_nil]
  rw [hreplaced, hid, hexpires, List.map_erase hinjective]
  exact List.perm_append_comm.trans ((hk.cursors.erase _).cons _)

theorem serve_more {place : Place J} (hrows : rowsOf place.payload r.field = .ok rows)
    (hmore : place.offset + r.limit < rows.length) :
    serve z r place p = keepSnapshot z r place p >>= fun x =>
      .ok (result place.payload r.field ((rows.drop place.offset).take r.limit)
        (some (nextCursor r place x.1).cursorId), putCursor x.2 (nextCursor r place x.1)) := by
  unfold serve
  rw [hrows]
  exact if_pos hmore

theorem keepSnapshot_fresh {place : Place J} (h : place.snapshot = none) :
    keepSnapshot z r place p = checkPageQuota p r.owner (z.payload place.payload) >>= fun _ =>
      .ok (PageStability.fresh z r place, putSnapshot p (PageStability.fresh z r place)) := by
  unfold keepSnapshot
  rw [h]
  rfl

omit [DecidableEq J] in
theorem Lists.cursorId (hr : Lists n z bytes owner payload rows r) (place : Place J)
    (x : Snapshot J) (hoffset : place.offset = 0)
    (hx : x.snapshotId = n.snapshot ⟨owner, payload⟩) :
    (nextCursor r place x).cursorId =
      n.cursor ⟨⟨owner, payload⟩, Requests.pageLimit, place.expires⟩ := by
  rw [hr.following]
  unfold nextCursor
  simp only
  rw [hr.owned, hx, hoffset, Nat.zero_add, hr.limit]

/-- A first page that has successors; `p` has no expired rows any more. -/
theorem serve_holds (hp : PageTables.Sound p)
    (hk : Holds n p (Requests.deleteExpiredPages now k))
    (hr : Lists n z bytes owner payload rows r) (hmore : Requests.pageLimit < rows.length) :
    Agree requestError (fun x y => x.1.nextCursor = y.1.map n.cursor ∧ Holds n x.2 y.2)
      (serve z r (start r now p) p) (Requests.page bytes now owner payload rows.length k) := by
  have hfound := find_holds hp hk ⟨owner, payload⟩
  unfold Requests.page
  rw [if_neg (Nat.not_le.mpr hmore)]
  simp only
  cases hrow : (Requests.deleteExpiredPages now k).snapshots.find?
      (·.key = ⟨owner, payload⟩) with
  | some x =>
    rw [hrow] at hfound
    obtain ⟨y, hy, hfields⟩ := Option.map_eq_some_iff.mp hfound
    have hexpires : y.expires = x.expires := congrArg (·.2.2.2) hfields
    have hstart : start r now p =
        ⟨r.payload, 0, x.expires, n.snapshot ⟨owner, payload⟩, some y⟩ := by
      unfold start
      simp only
      rw [hr.owned, ← hr.snapshot, hy, ← hexpires]
    rw [hstart, serve_more hr.rows (by rw [Nat.zero_add, hr.limit]; exact hmore)]
    have hid := hr.cursorId ⟨r.payload, 0, x.expires, n.snapshot ⟨owner, payload⟩, some y⟩ y rfl
      (PageTables.getSnapshot_some hy).2
    exact .ok ⟨congrArg some hid, putCursor_holds hp.cursorIds hk hid rfl⟩
  | none =>
    rw [hrow, Option.map_none, Option.map_eq_none_iff] at hfound
    let place : Place J :=
      ⟨r.payload, 0, now + pageCursorSeconds, n.snapshot ⟨owner, payload⟩, none⟩
    have hstart : start r now p = place := by
      unfold start
      simp only
      rw [hr.owned, ← hr.snapshot, hfound]
    rw [hstart, serve_more hr.rows (by rw [Nat.zero_add, hr.limit]; exact hmore)]
    rw [keepSnapshot_fresh rfl, bind_assoc, hr.owned, hr.bytes]
    refine (quota_holds hk owner (bytes payload)).bind fun _ _ _ => ?_
    have hid := hr.cursorId place (PageStability.fresh z r place) rfl rfl
    have hput := putSnapshot_holds hk (x := PageStability.fresh z r place)
      (y := ⟨⟨owner, payload⟩, bytes payload, now + Requests.pageCursorTime⟩) hfound (by
        unfold snapshotFields PageStability.fresh Names.fields
        simp only
        rw [hr.owned, hr.bytes]
        rfl)
    have hboth := putCursor_holds (p := putSnapshot p (PageStability.fresh z r place))
      hp.cursorIds hput hid rfl
    exact .ok ⟨congrArg some hid, hboth⟩

/-- Without a cursor, `page` shows a request what it shows a list. -/
theorem page_holds (hp : PageTables.Sound p) (hk : Holds n p k)
    (hr : Lists n z bytes owner payload rows r) (now : Time) :
    Agree requestError (fun x y => x.1.nextCursor = y.1.map n.cursor ∧ Holds n x.2 y.2)
      (ListPages.page z r now p) (Requests.page bytes now owner payload rows.length k) := by
  by_cases hshort : rows.length ≤ Requests.pageLimit
  · unfold ListPages.page Requests.page
    rw [hr.cursor]
    simp only
    rw [hr.rows, hr.limit]
    simp only [bind, Except.bind, if_pos hshort]
    exact .ok ⟨rfl, hk⟩
  · have hpage : ListPages.page z r now p =
        serve z r (start r now (deleteExpiredPages now p)) (deleteExpiredPages now p) := by
      unfold ListPages.page
      rw [hr.cursor]
      simp only
      rw [hr.rows, hr.limit]
      exact if_neg hshort
    rw [hpage]
    exact serve_holds (PageTables.sound_delete hp now) (delete_holds hk now) hr
      (Nat.lt_of_not_le hshort)

end SharedPages
