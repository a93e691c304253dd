import WiseWay.PageTables

/-! # Stable and bounded pages

A cursor is read the same way as long as it lives, whatever happens to the data in between:
a page finds the snapshot of the first one, or the payload that its cursor had. -/
namespace PageStability

open Records ListPages PageTables
open Fallible (bind_eq_ok)

variable {J : Type} [DecidableEq J] {z : Sizes J} {s t : Pages J} {r : PageRequest J} {now : Time}

/-! One page. -/

/-- What a cursor stands for: the payload, the offset and the snapshot of the pages after it. -/
inductive Source (s : Pages J) (c : Cursor J) : Payload J → ℕ → Key J → Prop where
  | legacy {payload offset} : c.body = .legacy payload offset →
      Source s c payload offset (.legacySnapshot c.cursorId)
  | compact {x payload offset} : x ∈ s.snapshots → Belongs c x →
      x.body = .payload c.scope payload → c.body = .compact x.snapshotId offset →
      Source s c payload offset x.snapshotId

omit [DecidableEq J] in
theorem Source.mono {c : Cursor J} {payload : Payload J} {offset : ℕ} {id : Key J}
    (h : Source s c payload offset id)
    (hsnapshots : ∀ x ∈ s.snapshots, x.expires = c.expires → x ∈ t.snapshots) :
    Source t c payload offset id := by
  cases h with
  | legacy hbody => exact .legacy hbody
  | compact hx hbelongs hpayload hbody =>
    exact .compact (hsnapshots _ hx hbelongs.expires) hbelongs hpayload hbody

/-- A snapshot that the pages of `c` read. -/
structure Serves (c : Cursor J) (payload : Payload J) (id : Key J) (x : Snapshot J) : Prop where
  belongs : Belongs c x
  named : x.snapshotId = id
  body : x.body = .payload c.scope payload

omit [DecidableEq J] in
theorem Source.serves (hs : Sound s) {c : Cursor J} (hc : c ∈ s.cursors) {payload : Payload J}
    {offset : ℕ} {id : Key J} (h : Source s c payload offset id) {x : Snapshot J}
    (hx : x ∈ s.snapshots) (hid : x.snapshotId = id) : Serves c payload id x := by
  cases h with
  | compact hy hbelongs hpayload _ =>
    have hsame := hs.snapshot_unique hx hy hid
    subst hsame
    exact ⟨hbelongs, rfl, hpayload⟩
  | legacy hbody =>
    cases hs.snapshot x hx with
    | first hfirst _ => cases hid.symm.trans hfirst
    | audit haudit _ => cases hid.symm.trans haudit
    | legacy hd hbelongs hlegacy hlbody hpayload =>
      have hids := hid.symm.trans hlegacy
      injection hids with hids
      have hsame := hs.cursor_unique hc hd hids
      subst hsame
      rw [hbody] at hlbody
      injection hlbody with hkept
      subst hkept
      exact ⟨hbelongs, hid, hpayload⟩

structure Admitted (c : Cursor J) (r : PageRequest J) (now : Time) : Prop where
  scope : c.scope = r.scope
  owner : c.owner = r.owner
  query : c.query = filters r.query
  live : now < c.expires

theorem admits_iff {scope owner : Text} {query : Table J} {expires : Time} :
    admits scope owner query expires r now = true ↔
      scope = r.scope ∧ owner = r.owner ∧ query = filters r.query ∧ now < expires := by
  unfold admits
  simp

theorem Admitted.admits {c : Cursor J} (h : Admitted c r now) :
    admits c.scope c.owner c.query c.expires r now = true :=
  admits_iff.mpr ⟨h.scope, h.owner, h.query, h.live⟩

theorem Admitted.serves {c : Cursor J} (h : Admitted c r now) {payload : Payload J} {id : Key J}
    {x : Snapshot J} (hx : Serves c payload id x) :
    ListPages.admits c.scope x.owner x.query x.expires r now = true := by
  rw [hx.belongs.owner, hx.belongs.query, hx.belongs.expires]
  exact h.admits

theorem resume_ok (hs : Sound s) {k : Key J} {place : Place J}
    (h : resume r k now s = .ok place) :
    ∃ c ∈ s.cursors, c.cursorId = k ∧ Admitted c r now ∧
      Source s c place.payload place.offset place.snapshotId ∧ place.expires = c.expires ∧
      place.snapshot = getSnapshot s place.snapshotId := by
  unfold resume at h
  cases hfound : getCursor s k with
  | none =>
    rw [hfound] at h
    cases h
  | some c =>
    obtain ⟨hc, rfl⟩ := getCursor_some hfound
    rw [hfound] at h
    simp only at h
    by_cases hno : admits c.scope c.owner c.query c.expires r now = false
    · rw [if_pos hno] at h
      cases h
    rw [if_neg hno] at h
    obtain ⟨hscope, howner, hquery, hlive⟩ := admits_iff.mp (Bool.not_eq_false _ ▸ hno)
    refine ⟨c, hc, rfl, ⟨hscope, howner, hquery, hlive⟩, ?_⟩
    cases hbody : c.body with
    | keyset _ _ _ =>
      rw [hbody] at h
      cases h
    | legacy payload offset =>
      rw [hbody] at h
      simp only at h
      have hsource : Source s c payload offset (.legacySnapshot c.cursorId) := .legacy hbody
      cases hkept : getSnapshot s (.legacySnapshot c.cursorId) with
      | none =>
        rw [hkept] at h
        cases h
        exact ⟨hsource, rfl, hkept.symm⟩
      | some x =>
        obtain ⟨hx, hid⟩ := getSnapshot_some hkept
        rw [hkept] at h
        simp only [(hsource.serves hs hc hx hid).body] at h
        cases h
        exact ⟨hsource, rfl, hkept.symm⟩
    | compact id offset =>
      rw [hbody] at h
      simp only at h
      rcases hs.cursor c hc with ⟨_, _, _, hold⟩ | hnamed
      · rw [hbody] at hold
        cases hold
      cases hnamed with
      | keyset _ _ _ _ hkeyset =>
        rw [hbody] at hkeyset
        cases hkeyset
      | compact hx hbelongs hpayload _ hcompact =>
        have hsame := hbody.symm.trans hcompact
        injection hsame with hid hoffset
        subst hid hoffset
        have hsource : Source s c _ offset _ := .compact hx hbelongs hpayload hcompact
        have hadmitted : Admitted c r now := ⟨hscope, howner, hquery, hlive⟩
        rw [hs.getSnapshot hx] at h
        simp only [hpayload] at h
        rw [if_neg (by simp [hadmitted.serves ⟨hbelongs, rfl, hpayload⟩])] at h
        cases h
        exact ⟨hsource, rfl, (hs.getSnapshot hx).symm⟩

theorem resume_source (hs : Sound s) {c : Cursor J} (hc : c ∈ s.cursors)
    (hadmitted : Admitted c r now) {payload : Payload J} {offset : ℕ} {id : Key J}
    (hsource : Source s c payload offset id) :
    resume r c.cursorId now s = .ok ⟨payload, offset, c.expires, id, getSnapshot s id⟩ := by
  have hserves : ∀ {x : Snapshot J}, x ∈ s.snapshots → x.snapshotId = id →
      Serves c payload id x := hsource.serves hs hc
  unfold resume
  rw [hs.getCursor hc]
  simp only
  rw [if_neg (by simp [hadmitted.admits])]
  cases hsource with
  | legacy hbody =>
    rw [hbody]
    simp only
    cases hkept : getSnapshot s (.legacySnapshot c.cursorId) with
    | none => rfl
    | some x =>
      obtain ⟨hx, hid⟩ := getSnapshot_some hkept
      simp only [(hserves hx hid).body]
  | compact hx hbelongs hpayload hbody =>
    rw [hbody]
    simp only
    rw [hs.getSnapshot hx]
    simp only [hpayload]
    rw [if_neg (by simp [hadmitted.serves ⟨hbelongs, rfl, hpayload⟩])]

/-- The snapshot that a page stores when it found none. -/
def fresh (z : Sizes J) (r : PageRequest J) (place : Place J) : Snapshot J where
  snapshotId := place.snapshotId
  owner := r.owner
  query := filters r.query
  payloadBytes := z.payload place.payload
  expires := place.expires
  body := .payload r.scope place.payload

/-- A place whose snapshot is there or may be stored. -/
structure Placed (z : Sizes J) (s : Pages J) (r : PageRequest J) (place : Place J) : Prop where
  kept : ∀ x, place.snapshot = some x → x ∈ s.snapshots ∧
    Serves (nextCursor r place x) place.payload place.snapshotId x
  absent : place.snapshot = none → getSnapshot s place.snapshotId = none ∧
    SnapshotNamed s (fresh z r place)

def served (r : PageRequest J) (place : Place J) (rows : List J) : Page J :=
  result place.payload r.field ((rows.drop place.offset).take r.limit)
    (if place.offset + r.limit < rows.length then
      some (.cursor r.scope r.owner (filters r.query) place.snapshotId (place.offset + r.limit)
        place.expires)
    else none)

/-- The cursor after a page is stored, with the snapshot that it reads. -/
def Continues (r : PageRequest J) (place : Place J) (t : Pages J) : Prop :=
  ∃ x ∈ t.snapshots, nextCursor r place x ∈ t.cursors ∧
    Serves (nextCursor r place x) place.payload place.snapshotId x

omit [DecidableEq J] in
theorem nextCursor_named {place : Place J} {x : Snapshot J} (hx : x ∈ s.snapshots)
    (hserves : Serves (nextCursor r place x) place.payload place.snapshotId x) :
    CursorNamed s (nextCursor r place x) :=
  .compact hx hserves.belongs hserves.body rfl rfl

theorem putCursor_continues (hs : Sound s) {place : Place J} {x : Snapshot J}
    (hx : x ∈ s.snapshots)
    (hserves : Serves (nextCursor r place x) place.payload place.snapshotId x) :
    Continues r place (putCursor s (nextCursor r place x)) :=
  ⟨x, hx, (mem_putCursor hs (nextCursor_named hx hserves)).mpr (.inr rfl), hserves⟩

theorem serve_ok (hs : Sound s) {place : Place J} (hplaced : Placed z s r place) {p : Page J}
    (h : serve z r place s = .ok (p, t)) :
    ∃ rows, rowsOf place.payload r.field = .ok rows ∧ Grows s t ∧ p = served r place rows ∧
      (place.offset + r.limit < rows.length → Continues r place t) := by
  unfold serve at h
  obtain ⟨rows, hrows, h⟩ := bind_eq_ok.mp h
  refine ⟨rows, hrows, ?_⟩
  unfold served
  by_cases hmore : place.offset + r.limit < rows.length
  · rw [if_pos hmore] at h ⊢
    obtain ⟨⟨x, u⟩, hkeep, h⟩ := bind_eq_ok.mp h
    simp only [pure, Except.pure, Except.ok.injEq, Prod.mk.injEq] at h
    obtain ⟨rfl, rfl⟩ := h
    have hu : Grows s u ∧ x ∈ u.snapshots ∧
        Serves (nextCursor r place x) place.payload place.snapshotId x := by
      unfold keepSnapshot at hkeep
      cases hsnapshot : place.snapshot with
      | some y =>
        rw [hsnapshot] at hkeep
        cases hkeep
        exact ⟨.refl, hplaced.kept _ hsnapshot⟩
      | none =>
        obtain ⟨habsent, hnamed⟩ := hplaced.absent hsnapshot
        rw [hsnapshot] at hkeep
        obtain ⟨_, hquota, hkeep⟩ := bind_eq_ok.mp hkeep
        cases hkeep
        refine ⟨.snapshot .refl habsent hnamed hquota, ?_, ⟨⟨rfl, rfl, rfl⟩, rfl, rfl⟩⟩
        exact List.mem_append_right _ (List.mem_singleton_self _)
    obtain ⟨hgrows, hx, hserves⟩ := hu
    refine ⟨.cursor hgrows (nextCursor_named hx hserves), ?_, fun _ => ?_⟩
    · rw [← hserves.named]
      rfl
    · exact putCursor_continues (hgrows.sound hs).1 hx hserves
  · rw [if_neg hmore] at h ⊢
    cases h
    exact ⟨.refl, rfl, fun hmore' => absurd hmore' hmore⟩

theorem serve_succeeds {place : Place J} (hplaced : Placed z s r place) {rows : List J}
    (hrows : rowsOf place.payload r.field = .ok rows)
    (hkept : place.offset + r.limit < rows.length → place.snapshot ≠ none) :
    ∃ t, serve z r place s = .ok (served r place rows, t) := by
  unfold serve served
  rw [hrows]
  by_cases hmore : place.offset + r.limit < rows.length
  · obtain ⟨x, hsnapshot⟩ := Option.ne_none_iff_exists'.mp (hkept hmore)
    obtain ⟨_, hserves⟩ := hplaced.kept x hsnapshot
    refine ⟨putCursor s (nextCursor r place x), ?_⟩
    simp only [bind, Except.bind, if_pos hmore, keepSnapshot, hsnapshot]
    rw [← hserves.named]
    rfl
  · refine ⟨s, ?_⟩
    simp only [bind, Except.bind, if_neg hmore]
    rfl

theorem start_placed (hs : Sound s) : Placed z s r (start r now s) := by
  cases hfound : getSnapshot s (.snapshot r.scope r.owner (filters r.query) r.field r.payload) with
  | none =>
    have hstart : start r now s = ⟨r.payload, 0, now + pageCursorSeconds,
        .snapshot r.scope r.owner (filters r.query) r.field r.payload, none⟩ := by
      simp only [start, hfound]
    rw [hstart]
    refine ⟨fun _ h => (by cases h), fun _ => ⟨hfound, ?_⟩⟩
    exact .first rfl rfl
  | some x =>
    have hstart : start r now s = ⟨r.payload, 0, x.expires,
        .snapshot r.scope r.owner (filters r.query) r.field r.payload, some x⟩ := by
      simp only [start, hfound]
    rw [hstart]
    refine ⟨fun y h => ?_, fun h => (by cases h)⟩
    cases h
    obtain ⟨hx, hid⟩ := getSnapshot_some hfound
    refine ⟨hx, ?_⟩
    cases hs.snapshot x hx with
    | first hfirst hbody =>
      have hparts := hid.symm.trans hfirst
      injection hparts with hscope howner hquery _ hpayload
      exact ⟨⟨howner.symm, hquery.symm, rfl⟩, hid, by rw [hbody, ← hscope, ← hpayload]; rfl⟩
    | legacy _ _ hlegacy _ _ => cases hid.symm.trans hlegacy
    | audit haudit _ => cases hid.symm.trans haudit

theorem source_placed (hs : Sound s) {c : Cursor J} (hc : c ∈ s.cursors)
    (hadmitted : Admitted c r now) {place : Place J}
    (hsource : Source s c place.payload place.offset place.snapshotId)
    (hexpires : place.expires = c.expires)
    (hsnapshot : place.snapshot = getSnapshot s place.snapshotId) : Placed z s r place := by
  refine ⟨fun x hx => ?_, fun hnone => ?_⟩
  · obtain ⟨hx, hid⟩ := getSnapshot_some (hsnapshot.symm.trans hx)
    have hserves := hsource.serves hs hc hx hid
    refine ⟨hx, ⟨hserves.belongs.owner.trans hadmitted.owner,
      hserves.belongs.query.trans hadmitted.query, ?_⟩, hid, ?_⟩
    · exact hserves.belongs.expires.trans hexpires.symm
    · rw [hserves.body, hadmitted.scope]
      rfl
  · have habsent := hsnapshot.symm.trans hnone
    refine ⟨habsent, ?_⟩
    generalize hpayload : place.payload = payload at hsource
    generalize hoffset : place.offset = offset at hsource
    generalize hid : place.snapshotId = id at hsource habsent
    cases hsource with
    | legacy hbody =>
      refine .legacy hc ⟨hadmitted.owner.symm, hadmitted.query.symm, hexpires⟩ hid hbody ?_
      unfold fresh
      simp only [hadmitted.scope, hpayload]
    | compact hx _ _ _ =>
      rw [hs.getSnapshot hx] at habsent
      cases habsent

theorem page_resumed (hs : Sound s) {k : Key J} (hcursor : r.cursor = some k)
    (hk : k ≠ .given []) {p : Page J} (h : page z r now s = .ok (p, t)) :
    ∃ c ∈ s.cursors, c.cursorId = k ∧ Admitted c r now ∧ ∃ place rows,
      Source s c place.payload place.offset place.snapshotId ∧ place.expires = c.expires ∧
      rowsOf place.payload r.field = .ok rows ∧ Grows s t ∧ p = served r place rows ∧
      (place.offset + r.limit < rows.length → Continues r place t) := by
  unfold page at h
  rw [hcursor] at h
  simp only at h
  rw [if_neg hk] at h
  obtain ⟨place, hplace, h⟩ := bind_eq_ok.mp h
  obtain ⟨c, hc, hid, hadmitted, hsource, hexpires, hsnapshot⟩ := resume_ok hs hplace
  obtain ⟨rows, hrows, hgrows, hp, hmore⟩ :=
    serve_ok hs (source_placed hs hc hadmitted hsource hexpires hsnapshot) h
  exact ⟨c, hc, hid, hadmitted, place, rows, hsource, hexpires, hrows, hgrows, hp, hmore⟩

theorem page_of_source (hs : Sound s) {c : Cursor J} (hc : c ∈ s.cursors)
    (hcursor : r.cursor = some c.cursorId) (hk : c.cursorId ≠ .given [])
    (hadmitted : Admitted c r now) {payload : Payload J} {offset : ℕ} {id : Key J}
    (hsource : Source s c payload offset id) {rows : List J}
    (hrows : rowsOf payload r.field = .ok rows)
    (hkept : offset + r.limit < rows.length → getSnapshot s id ≠ none) :
    ∃ t place, place.payload = payload ∧ place.offset = offset ∧ place.expires = c.expires ∧
      place.snapshotId = id ∧ page z r now s = .ok (served r place rows, t) ∧ Grows s t ∧
      (offset + r.limit < rows.length → Continues r place t) := by
  have hplaced : Placed z s r ⟨payload, offset, c.expires, id, getSnapshot s id⟩ :=
    source_placed hs hc hadmitted hsource rfl rfl
  obtain ⟨t, ht⟩ := serve_succeeds hplaced hrows hkept
  obtain ⟨rows', hrows', hgrows, -, hmore⟩ := serve_ok hs hplaced ht
  have hsame := hrows.symm.trans hrows'
  injection hsame with hsame
  subst hsame
  refine ⟨t, _, rfl, rfl, rfl, rfl, ?_, hgrows, hmore⟩
  unfold page
  rw [hcursor]
  simp only
  rw [if_neg hk, resume_source hs hc hadmitted hsource]
  exact ht

theorem page_first (hs : Sound s) (hcursor : r.cursor = none ∨ r.cursor = some (.given []))
    {p : Page J} (h : page z r now s = .ok (p, t)) :
    ∃ place rows, place.payload = r.payload ∧ place.offset = 0 ∧
      rowsOf r.payload r.field = .ok rows ∧ p = served r place rows ∧
      (∃ u, (u = s ∨ u = deleteExpiredPages now s) ∧ Grows u t) ∧
      (r.limit < rows.length → Continues r place t) := by
  have hstart : ∀ {p : Page J} {t : Pages J},
      serve z r (start r now (deleteExpiredPages now s)) (deleteExpiredPages now s) = .ok (p, t) →
      ∃ place rows, place.payload = r.payload ∧ place.offset = 0 ∧
        rowsOf r.payload r.field = .ok rows ∧ p = served r place rows ∧
        (∃ u, (u = s ∨ u = deleteExpiredPages now s) ∧ Grows u t) ∧
        (r.limit < rows.length → Continues r place t) := by
    intro p t h
    have hdeleted := sound_delete hs now
    obtain ⟨rows, hrows, hgrows, hp, hmore⟩ := serve_ok hdeleted (start_placed hdeleted) h
    have hfields : (start r now (deleteExpiredPages now s)).payload = r.payload ∧
        (start r now (deleteExpiredPages now s)).offset = 0 := by
      unfold start
      simp only
      split
      · exact ⟨rfl, rfl⟩
      · exact ⟨rfl, rfl⟩
    rw [hfields.1] at hrows
    rw [hfields.2, Nat.zero_add] at hmore
    exact ⟨_, rows, hfields.1, hfields.2, hrows, hp, ⟨_, .inr rfl, hgrows⟩, hmore⟩
  unfold page at h
  rcases hcursor with hcursor | hcursor
  · rw [hcursor] at h
    obtain ⟨rows, hrows, h⟩ := bind_eq_ok.mp h
    by_cases hshort : rows.length ≤ r.limit
    · rw [if_pos hshort] at h
      cases h
      refine ⟨⟨r.payload, 0, now, .given [], none⟩, rows, rfl, rfl, hrows, ?_,
        ⟨s, .inl rfl, .refl⟩, fun hmore => absurd hshort (Nat.not_le.mpr hmore)⟩
      unfold served
      rw [if_neg (by simpa using hshort)]
      rfl
    · rw [if_neg hshort] at h
      exact hstart h
  · rw [hcursor] at h
    exact hstart h

/-! Runs. -/

theorem reserve_grows (hs : Sound s) {owner : Text} {query : Table J} {cutoffSeq : ℕ}
    {newest : Option Text} {x : Snapshot J}
    (h : reserveAuditSnapshot z owner query cutoffSeq newest now s = .ok (x, t)) :
    Grows (deleteExpiredPages now s) t := by
  unfold reserveAuditSnapshot at h
  simp only at h
  split at h
  · cases h
    exact .refl
  · rename_i hnone
    obtain ⟨_, hquota, h⟩ := bind_eq_ok.mp h
    cases h
    refine .snapshot .refl ?_ (.audit rfl rfl) hquota
    -- A row under the new identifier would have been found.
    refine List.find?_eq_none.mpr fun x hx hid => ?_
    simp only [decide_eq_true_eq] at hid
    refine List.find?_eq_none.mp hnone x hx ?_
    cases (sound_delete hs now).snapshot x hx with
    | first hfirst _ => cases hid.symm.trans hfirst
    | legacy _ _ hlegacy _ _ => cases hid.symm.trans hlegacy
    | audit haudit hbody =>
      have hparts := hid.symm.trans haudit
      injection hparts with howner hquery hcutoff hexpires
      have hlive : now < x.expires := by
        rw [← hexpires]
        exact Int.lt_add_of_pos_right now (by decide)
      simp [howner, hquery, hbody, isAudit, hcutoff, hlive]

theorem keyset_grows {owner : Text} {query : Table J} {id : Key J}
    {occurredAt eventId : Text}
    (h : createAuditCursor owner query id occurredAt eventId now s = .ok t) : Grows s t := by
  unfold createAuditCursor at h
  cases hfound : getSnapshot s id with
  | none =>
    rw [hfound] at h
    cases h
  | some x =>
    obtain ⟨hx, rfl⟩ := getSnapshot_some hfound
    rw [hfound] at h
    simp only at h
    split at h
    · cases h
    · split at h
      · cases h
      · rename_i hok
        simp only [not_or, not_not, not_le] at hok
        cases h
        obtain ⟨howner, hquery, _⟩ := hok
        exact .cursor .refl (.keyset hx ⟨howner, hquery, rfl⟩ rfl rfl rfl)

/-- A transaction deletes what expired, or nothing, and then adds rows. -/
theorem apply_grows (hs : Sound s) (m : Move J) :
    ∃ u, (u = s ∨ u = deleteExpiredPages m.now s) ∧ Grows u (apply z s m) := by
  have hfails : ∃ u, (u = s ∨ u = deleteExpiredPages m.now s) ∧ Grows u s := ⟨s, .inl rfl, .refl⟩
  cases m with
  | page r now =>
    simp only [apply]
    cases h : page z r now s with
    | error _ => exact hfails
    | ok result =>
      obtain ⟨p, t⟩ := result
      by_cases hfirst : r.cursor = none ∨ r.cursor = some (.given [])
      · obtain ⟨_, _, _, _, _, _, hgrows, _⟩ := page_first hs hfirst h
        exact hgrows
      · rw [not_or] at hfirst
        obtain ⟨k, hk⟩ := Option.ne_none_iff_exists'.mp hfirst.1
        have hgiven : k ≠ .given [] := fun he => hfirst.2 (he ▸ hk)
        obtain ⟨_, _, _, _, _, _, _, _, _, hgrows, _⟩ := page_resumed hs hk hgiven h
        exact ⟨s, .inl rfl, hgrows⟩
  | reserve owner query cutoffSeq newest now =>
    simp only [apply]
    cases h : reserveAuditSnapshot z owner query cutoffSeq newest now s with
    | error _ => exact hfails
    | ok result => exact ⟨_, .inr rfl, reserve_grows hs h⟩
  | keyset owner query id occurredAt eventId now =>
    simp only [apply]
    cases h : createAuditCursor owner query id occurredAt eventId now s with
    | error _ => exact hfails
    | ok t => exact ⟨s, .inl rfl, keyset_grows h⟩
  | maintenance now => exact ⟨_, .inr rfl, .refl⟩

/-- The rows that live until `e` stay. -/
structure Keeps (e : Time) (s t : Pages J) : Prop where
  snapshots : ∀ x ∈ s.snapshots, e ≤ x.expires → x ∈ t.snapshots
  cursors : ∀ c ∈ s.cursors, e ≤ c.expires → c ∈ t.cursors

omit [DecidableEq J] in
theorem Keeps.trans {e : Time} {u : Pages J} (h : Keeps e s t) (h' : Keeps e t u) : Keeps e s u :=
  ⟨fun x hx he => h'.snapshots x (h.snapshots x hx he) he,
    fun c hc he => h'.cursors c (h.cursors c hc he) he⟩

theorem apply_sound (hs : Sound s) (m : Move J) :
    Sound (apply z s m) ∧ ∀ e, m.now < e → Keeps e s (apply z s m) := by
  obtain ⟨u, rfl | rfl, hgrows⟩ := apply_grows (z := z) hs m
  · obtain ⟨hsound, hsnapshots, hcursors⟩ := hgrows.sound hs
    exact ⟨hsound, fun _ _ => ⟨fun x hx _ => hsnapshots x hx, fun c hc _ => hcursors c hc⟩⟩
  · obtain ⟨hsound, hsnapshots, hcursors⟩ := hgrows.sound (sound_delete hs m.now)
    refine ⟨hsound, fun e he => ⟨fun x hx hlive => ?_, fun c hc hlive => ?_⟩⟩
    · exact hsnapshots x (List.mem_filter.mpr ⟨hx, decide_eq_true (he.trans_le hlive)⟩)
    · exact hcursors c (List.mem_filter.mpr ⟨hc, decide_eq_true (he.trans_le hlive)⟩)

theorem run_sound (hs : Sound s) (moves : List (Move J)) :
    Sound (run z moves s) ∧
      ∀ e, (∀ m ∈ moves, m.now < e) → Keeps e s (run z moves s) := by
  induction moves generalizing s with
  | nil => exact ⟨hs, fun _ _ => ⟨fun _ hx _ => hx, fun _ hc _ => hc⟩⟩
  | cons m moves ih =>
    obtain ⟨hm, hkeeps⟩ := apply_sound (z := z) hs m
    obtain ⟨hrun, hrest⟩ := ih hm
    refine ⟨hrun, fun e he => ?_⟩
    exact (hkeeps e (he m (List.mem_cons_self ..))).trans
      (hrest e fun m' hm' => he m' (List.mem_cons_of_mem _ hm'))

omit [DecidableEq J] in
theorem start_sound (h : Start s) : Sound s := by
  refine ⟨?_, h.distinct, fun x hx => ?_, fun c hc => .inl (h.legacy c hc), fun owner => ?_⟩
  · rw [h.snapshots]
    exact List.nodup_nil
  · rw [h.snapshots] at hx
    cases hx
  · unfold ownSizes
    rw [h.snapshots]
    exact ⟨Nat.zero_le _, Nat.zero_le _⟩

/-! Following `next_cursor`. -/

/-- A later request of the list, after whatever else happened. -/
structure Read (J : Type) where
  others : List (Move J)
  query : Table J
  payload : Payload J
  limit : ℕ
  now : Time

def Read.request (read : Read J) (first : PageRequest J) (cursor : Key J) : PageRequest J :=
  { first with query := read.query, payload := read.payload, cursor := some cursor,
               limit := read.limit }

/-- The pages after the first one, and the cursor that is left. -/
def follow (z : Sizes J) (first : PageRequest J) :
    List (Read J) → Option (Key J) → Pages J → Except PageError (List (Page J) × Option (Key J))
  | [], cursor, _ => .ok ([], cursor)
  | _ :: _, none, _ => .ok ([], none)
  | read :: reads, some cursor, s => do
    let (p, t) ← page z (read.request first cursor) read.now (run z read.others s)
    let (pages, left) ← follow z first reads p.nextCursor t
    return (p :: pages, left)

/-- A request of the same list while every clock reading is before `e`. -/
structure Timely (e : Time) (first : PageRequest J) (read : Read J) : Prop where
  query : filters read.query = filters first.query
  live : read.now < e
  others : ∀ m ∈ read.others, m.now < e

def items (field : Text) (p : Page J) : List J :=
  match p.fields[field]? with
  | some (.rows rows) => rows
  | _ => []

/-- The fields of the payload but for the list and the cursor. -/
def Unchanged (payload : Payload J) (field : Text) (p : Page J) : Prop :=
  ∀ k : Text, k ≠ field → k ≠ "next_cursor".toList → p.fields[k]? = payload[k]?

omit [DecidableEq J] in
theorem items_served {place : Place J} {rows : List J} (hfield : r.field ≠ "next_cursor".toList) :
    items r.field (served r place rows) = (rows.drop place.offset).take r.limit := by
  unfold items served result
  simp only
  rw [get_delete, if_neg (Ne.symm hfield), get_put, if_pos rfl]

omit [DecidableEq J] in
theorem unchanged_served {place : Place J} {rows : List J} :
    Unchanged place.payload r.field (served r place rows) := by
  intro k hfield hcursor
  unfold served result
  simp only
  rw [get_delete, if_neg (Ne.symm hcursor), get_put, if_neg (Ne.symm hfield)]

/-- The cursor of a page that is not the last. -/
structure Ahead (e : Time) (first : PageRequest J) (payload : Payload J) (offset : ℕ) (k : Key J)
    (s : Pages J) : Prop where
  stored : ∃ c ∈ s.cursors, c.cursorId = k ∧ k ≠ .given [] ∧ c.scope = first.scope ∧
    c.owner = first.owner ∧ c.query = filters first.query ∧ c.expires = e ∧
    ∃ x ∈ s.snapshots, Serves c payload x.snapshotId x ∧ c.body = .compact x.snapshotId offset

omit [DecidableEq J] in
theorem Continues.ahead {place : Place J} (h : Continues r place t) {rows : List J}
    (hmore : place.offset + r.limit < rows.length) {e : Time} (he : place.expires = e) :
    ∃ k, (served r place rows).nextCursor = some k ∧
      Ahead e r place.payload (place.offset + r.limit) k t := by
  obtain ⟨x, hx, hc, hserves⟩ := h
  refine ⟨_, ?_, ⟨nextCursor r place x, hc, rfl, ?_, rfl, rfl, rfl, he, x, hx, ?_, rfl⟩⟩
  · unfold served result nextCursor
    simp only
    rw [if_pos hmore, hserves.named]
  · unfold nextCursor
    simp
  · exact ⟨hserves.belongs, rfl, hserves.body⟩

omit [DecidableEq J] in
theorem Ahead.keeps {e : Time} {first : PageRequest J} {payload : Payload J} {offset : ℕ}
    {k : Key J} (h : Ahead e first payload offset k s) (hkeeps : Keeps e s t) :
    Ahead e first payload offset k t := by
  obtain ⟨c, hc, hid, hgiven, hscope, howner, hquery, hexpires, x, hx, hserves, hbody⟩ := h.stored
  refine ⟨c, hkeeps.cursors c hc hexpires.ge, hid, hgiven, hscope, howner, hquery, hexpires, x, ?_,
    hserves, hbody⟩
  exact hkeeps.snapshots x hx (hserves.belongs.expires.trans hexpires).ge

theorem Ahead.page (hs : Sound s) {e : Time} {first : PageRequest J} {payload : Payload J}
    {offset : ℕ} {k : Key J} (h : Ahead e first payload offset k s) {read : Read J}
    (htimely : Timely e first read) {rows : List J}
    (hrows : rowsOf payload first.field = .ok rows) :
    ∃ t place, place.payload = payload ∧ place.offset = offset ∧
      page z (read.request first k) read.now s =
        .ok (served (read.request first k) place rows, t) ∧ Sound t ∧
      (offset + read.limit < rows.length → ∃ k',
        (served (read.request first k) place rows).nextCursor = some k' ∧
          Ahead e first payload (offset + read.limit) k' t) := by
  obtain ⟨c, hc, hid, hgiven, hscope, howner, hquery, hexpires, x, hx, hserves, hbody⟩ := h.stored
  subst hid
  have hadmitted : Admitted c (read.request first c.cursorId) read.now :=
    ⟨hscope, howner, hquery.trans htimely.query.symm, hexpires ▸ htimely.live⟩
  have hsource : Source s c payload offset x.snapshotId :=
    .compact hx hserves.belongs hserves.body hbody
  have hkept : getSnapshot s x.snapshotId ≠ none := by
    rw [hs.getSnapshot hx]
    simp
  obtain ⟨t, place, hpayload, hoffset, hplace, -, hpage, hgrows, hmore⟩ :=
    page_of_source hs hc rfl hgiven hadmitted hsource hrows fun _ => hkept
  refine ⟨t, place, hpayload, hoffset, hpage, (hgrows.sound hs).1, fun hlong => ?_⟩
  subst hpayload hoffset
  obtain ⟨k', hk', hahead⟩ := (hmore hlong).ahead hlong (hplace.trans hexpires)
  refine ⟨k', hk', ?_⟩
  obtain ⟨d, hd, hdid, hdgiven, hdscope, hdowner, hdquery, hrest⟩ := hahead.stored
  exact ⟨d, hd, hdid, hdgiven, hdscope, hdowner, hdquery.trans htimely.query, hrest⟩

/-- The pages after a cursor are the rows after its offset. -/
theorem follow_ahead {e : Time} {first : PageRequest J}
    (hfield : first.field ≠ "next_cursor".toList)
    {payload : Payload J} {rows : List J} (hrows : rowsOf payload first.field = .ok rows)
    {reads : List (Read J)} (htimely : ∀ read ∈ reads, Timely e first read) :
    ∀ {s : Pages J} {offset : ℕ} {k : Key J}, Sound s → Ahead e first payload offset k s →
      offset < rows.length →
      ∃ pages left, follow z first reads (some k) s = .ok (pages, left) ∧
        pages.flatMap (items first.field) = (rows.drop offset).take (reads.map (·.limit)).sum ∧
        (left = none ↔ rows.length ≤ offset + (reads.map (·.limit)).sum) ∧
        ∀ p ∈ pages, Unchanged payload first.field p := by
  induction reads with
  | nil =>
    intro s offset k _ _ hless
    refine ⟨[], some k, rfl, ?_, ?_, fun _ hp => by cases hp⟩
    · simp
    · simp only [reduceCtorEq, List.map_nil, List.sum_nil, Nat.add_zero, false_iff]
      omega
  | cons read reads ih =>
    intro s offset k hs hahead hless
    have hread := htimely read (List.mem_cons_self ..)
    obtain ⟨hrun, hkeeps⟩ := run_sound (z := z) hs read.others
    obtain ⟨t, place, hpayload, hoffset, hpage, ht, hmore⟩ :=
      (hahead.keeps (hkeeps e hread.others)).page (z := z) hrun hread hrows
    have hitems : items first.field (served (read.request first k) place rows) =
        (rows.drop offset).take read.limit := by
      rw [← hoffset]
      exact items_served hfield
    have hunchanged : Unchanged payload first.field (served (read.request first k) place rows) := by
      rw [← hpayload]
      exact unchanged_served (r := read.request first k)
    simp only [List.map_cons, List.sum_cons]
    by_cases hlong : offset + read.limit < rows.length
    · obtain ⟨k', hk', hnext⟩ := hmore hlong
      obtain ⟨pages, left, hfollow, hpages, hleft, hfields⟩ :=
        ih (fun read hr => htimely read (List.mem_cons_of_mem _ hr)) ht hnext hlong
      refine ⟨served (read.request first k) place rows :: pages, left, ?_, ?_, ?_, ?_⟩
      · simp only [follow, hpage, bind, Except.bind, hk', hfollow]
        rfl
      · rw [List.flatMap_cons, hitems, hpages, ← List.drop_drop, ← List.take_add]
      · rw [hleft, Nat.add_assoc]
      · intro p hp
        rcases List.mem_cons.mp hp with rfl | hp
        · exact hunchanged
        · exact hfields p hp
    · have hnone : (served (read.request first k) place rows).nextCursor = none := by
        unfold served result
        simp only
        rw [hoffset]
        exact if_neg hlong
      have hend : follow z first reads none t = .ok ([], none) := by
        cases reads with
        | nil => rfl
        | cons _ _ => rfl
      have hshort : (rows.drop offset).length ≤ read.limit := by
        rw [List.length_drop]
        omega
      refine ⟨[served (read.request first k) place rows], none, ?_, ?_, ?_, ?_⟩
      · simp only [follow, hpage, bind, Except.bind, hnone, hend]
        rfl
      · rw [List.flatMap_cons, List.flatMap_nil, List.append_nil, hitems,
          List.take_of_length_le hshort,
          List.take_of_length_le (hshort.trans (Nat.le_add_right _ _))]
      · simp only [true_iff]
        omega
      · intro p hp
        obtain rfl := List.mem_singleton.mp hp
        exact hunchanged

/-- What the pages of every list promise, whatever else happens to the tables. -/
structure Pagination (z : Sizes J) (s : Pages J) : Prop where
  /-- The quota of every owner. -/
  bounded : ∀ owner, (ownSizes s owner).length ≤ 64 ∧ (ownSizes s owner).sum ≤ 32 * 1024 * 1024
  /-- A snapshot is not rewritten before it has expired. -/
  fixed : ∀ moves, ∀ x ∈ s.snapshots, ∀ y ∈ (run z moves s).snapshots,
    y.snapshotId = x.snapshotId → y = x ∨ ∃ m ∈ moves, x.expires ≤ m.now
  /-- A cursor works for its scope, owner and query only, and until it expires. -/
  restricted : ∀ r now p t k, r.cursor = some k → k ≠ .given [] → page z r now s = .ok (p, t) →
    ∃ c, getCursor s k = some c ∧ c.scope = r.scope ∧ c.owner = r.owner ∧
      c.query = filters r.query ∧ now < c.expires
  /-- A cursor that a page gave works for the list of that page only. -/
  bound : ∀ r now p t k, page z r now s = .ok (p, t) → p.nextCursor = some k →
    ∀ moves r' now' p' t', r'.cursor = some k → page z r' now' (run z moves t) = .ok (p', t') →
      r'.scope = r.scope ∧ r'.owner = r.owner ∧ filters r'.query = filters r.query
  /-- A cursor gives the same page again, with whatever payload, until it expires. -/
  replayed : ∀ r now p t k c, r.cursor = some k → k ≠ .given [] → page z r now s = .ok (p, t) →
    getCursor s k = some c → ∀ moves, (∀ m ∈ moves, m.now < c.expires) →
      ∀ query payload now', filters query = filters r.query → now' < c.expires →
        ∃ t', page z { r with query := query, payload := payload } now' (run z moves t) =
          .ok (p, t')
  /-- The pages after a first page are the rest of its list. -/
  followed : ∀ r now p t, r.cursor = none ∨ r.cursor = some (.given []) →
    r.field ≠ "next_cursor".toList → page z r now s = .ok (p, t) →
    ∃ rows, rowsOf r.payload r.field = .ok rows ∧
      ∃ e, (∀ k, p.nextCursor = some k → ∃ c, getCursor t k = some c ∧ c.expires = e) ∧
      ∀ reads, (∀ read ∈ reads, Timely e r read) →
        ∃ pages left, follow z r reads p.nextCursor t = .ok (pages, left) ∧
          (p :: pages).flatMap (items r.field) =
            rows.take (r.limit + (reads.map (·.limit)).sum) ∧
          (left = none ↔ rows.length ≤ r.limit + (reads.map (·.limit)).sum) ∧
          ∀ q ∈ p :: pages, Unchanged r.payload r.field q

theorem run_fixed (hs : Sound s) (moves : List (Move J)) {x y : Snapshot J}
    (hx : x ∈ s.snapshots) (hy : y ∈ (run z moves s).snapshots)
    (hid : y.snapshotId = x.snapshotId) : y = x ∨ ∃ m ∈ moves, x.expires ≤ m.now := by
  by_cases hlive : ∀ m ∈ moves, m.now < x.expires
  · obtain ⟨hrun, hkeeps⟩ := run_sound (z := z) hs moves
    have hkept := (hkeeps x.expires hlive).snapshots x hx le_rfl
    exact .inl (hrun.snapshot_unique hy hkept hid)
  · simp only [not_forall, not_lt] at hlive
    obtain ⟨m, hm, hlate⟩ := hlive
    exact .inr ⟨m, hm, hlate⟩

omit [DecidableEq J] in
theorem served_cursor {place : Place J} {rows : List J} {k : Key J}
    (h : (served r place rows).nextCursor = some k) : ∃ id offset expires,
      k = .cursor r.scope r.owner (filters r.query) id offset expires := by
  unfold served result at h
  simp only at h
  split at h
  · injection h with h
    exact ⟨_, _, _, h.symm⟩
  · cases h

theorem page_sound (hs : Sound s) {p : Page J} (h : page z r now s = .ok (p, t)) : Sound t := by
  have happly : apply z s (.page r now) = t := by simp only [apply, h, Except.map, committed]
  exact happly ▸ (apply_sound hs (.page r now)).1

theorem page_served (hs : Sound s) {p : Page J} (h : page z r now s = .ok (p, t)) :
    ∃ place rows, p = served r place rows := by
  by_cases hfirst : r.cursor = none ∨ r.cursor = some (.given [])
  · obtain ⟨place, rows, _, _, _, hp, _, _⟩ := page_first hs hfirst h
    exact ⟨place, rows, hp⟩
  · rw [not_or] at hfirst
    obtain ⟨k, hk⟩ := Option.ne_none_iff_exists'.mp hfirst.1
    have hgiven : k ≠ .given [] := fun he => hfirst.2 (he ▸ hk)
    obtain ⟨_, _, _, _, place, rows, _, _, _, _, hp, _⟩ := page_resumed hs hk hgiven h
    exact ⟨place, rows, hp⟩

theorem bound_cursor (hs : Sound s) {scope owner : Text} {query : Table J} {id : Key J}
    {offset : ℕ} {expires : Time} (hcursor : r.cursor = some (.cursor scope owner query id offset
      expires)) {p : Page J} (h : page z r now s = .ok (p, t)) :
    r.scope = scope ∧ r.owner = owner ∧ filters r.query = query := by
  obtain ⟨c, hc, hid, hadmitted, _⟩ := page_resumed hs hcursor (by simp) h
  rcases hs.cursor c hc with ⟨⟨_, hgiven, _⟩, _⟩ | hnamed
  · cases hid.symm.trans hgiven
  · cases hnamed with
    | compact _ _ _ hcompact _ =>
      have hparts := hid.symm.trans hcompact
      injection hparts with hscope howner hquery
      exact ⟨hadmitted.scope.symm.trans hscope.symm, hadmitted.owner.symm.trans howner.symm,
        hadmitted.query.symm.trans hquery.symm⟩
    | keyset _ _ _ hkeyset _ => cases hid.symm.trans hkeyset

theorem replay (hs : Sound s) {k : Key J} {c : Cursor J} (hcursor : r.cursor = some k)
    (hk : k ≠ .given []) {p : Page J} (h : page z r now s = .ok (p, t))
    (hfound : getCursor s k = some c) {moves : List (Move J)}
    (hmoves : ∀ m ∈ moves, m.now < c.expires) {query : Table J} {payload : Payload J}
    {now' : Time} (hquery : filters query = filters r.query) (hlive : now' < c.expires) :
    ∃ t', page z { r with query := query, payload := payload } now' (run z moves t) =
      .ok (p, t') := by
  obtain ⟨d, hd, rfl, hadmitted, place, rows, hsource, hexpires, hrows, hgrows, rfl, hmore⟩ :=
    page_resumed hs hcursor hk h
  obtain rfl : d = c := by
    rw [hs.getCursor hd] at hfound
    exact Option.some.inj hfound
  obtain ⟨ht, hsnapshots, hcursors⟩ := hgrows.sound hs
  obtain ⟨hrun, hkeeps⟩ := run_sound (z := z) ht moves
  have hkept := hkeeps d.expires hmoves
  have hlater : Source (run z moves t) d place.payload place.offset place.snapshotId :=
    hsource.mono fun x hx he => hkept.snapshots x (hsnapshots x hx) he.ge
  have hpresent : place.offset + r.limit < rows.length →
      getSnapshot (run z moves t) place.snapshotId ≠ none := by
    intro hlong
    obtain ⟨x, hx, _, hserves⟩ := hmore hlong
    have hx' := hkept.snapshots x hx (hserves.belongs.expires.trans hexpires).ge
    rw [← hserves.named, hrun.getSnapshot hx']
    simp
  have hadmitted' : Admitted d { r with query := query, payload := payload } now' :=
    ⟨hadmitted.scope, hadmitted.owner, hadmitted.query.trans hquery.symm, hlive⟩
  obtain ⟨t', place', hpayload', hoffset', hexpires', hid', hpage, _⟩ :=
    page_of_source (r := { r with query := query, payload := payload }) hrun
      (hkept.cursors d (hcursors d hd) le_rfl) hcursor hk hadmitted' hlater hrows hpresent
  refine ⟨t', hpage.trans ?_⟩
  unfold served
  simp only [hpayload', hoffset', hexpires', hid', hquery, hexpires]

theorem follow_first (hs : Sound s) (hcursor : r.cursor = none ∨ r.cursor = some (.given []))
    (hfield : r.field ≠ "next_cursor".toList) {p : Page J} (h : page z r now s = .ok (p, t)) :
    ∃ rows, rowsOf r.payload r.field = .ok rows ∧
      ∃ e, (∀ k, p.nextCursor = some k → ∃ c, getCursor t k = some c ∧ c.expires = e) ∧
      ∀ reads, (∀ read ∈ reads, Timely e r read) →
        ∃ pages left, follow z r reads p.nextCursor t = .ok (pages, left) ∧
          (p :: pages).flatMap (items r.field) =
            rows.take (r.limit + (reads.map (·.limit)).sum) ∧
          (left = none ↔ rows.length ≤ r.limit + (reads.map (·.limit)).sum) ∧
          ∀ q ∈ p :: pages, Unchanged r.payload r.field q := by
  have ht := page_sound hs h
  obtain ⟨place, rows, hpayload, hoffset, hrows, rfl, _, hmore⟩ := page_first hs hcursor h
  refine ⟨rows, hrows, place.expires, ?_⟩
  have hitems : items r.field (served r place rows) = rows.take r.limit := by
    rw [items_served hfield, hoffset, List.drop_zero]
  have hunchanged : Unchanged r.payload r.field (served r place rows) :=
    hpayload ▸ unchanged_served
  by_cases hlong : r.limit < rows.length
  · have hlong' : place.offset + r.limit < rows.length := by omega
    obtain ⟨k, hk, hahead⟩ := (hmore hlong).ahead hlong' rfl
    rw [hk]
    rw [hpayload, hoffset, Nat.zero_add] at hahead
    refine ⟨fun k' hk' => ?_, fun reads htimely => ?_⟩
    · obtain rfl := Option.some.inj hk'
      obtain ⟨c, hc, hid, _, _, _, _, hexpires, _⟩ := hahead.stored
      exact ⟨c, hid ▸ ht.getCursor hc, hexpires⟩
    · obtain ⟨pages, left, hfollow, hpages, hleft, hfields⟩ :=
        follow_ahead hfield hrows htimely ht hahead hlong
      refine ⟨pages, left, hfollow, ?_, hleft, fun q hq => ?_⟩
      · rw [List.flatMap_cons, hitems, hpages, ← List.take_add]
      · rcases List.mem_cons.mp hq with rfl | hq
        · exact hunchanged
        · exact hfields q hq
  · have hnone : (served r place rows).nextCursor = none := by
      unfold served result
      simp only
      exact if_neg (by omega)
    rw [hnone]
    refine ⟨fun k hk => (by cases hk), fun reads _ => ⟨[], none, ?_, ?_, ?_, fun q hq => ?_⟩⟩
    · cases reads with
      | nil => rfl
      | cons _ _ => rfl
    · rw [List.flatMap_cons, List.flatMap_nil, List.append_nil, hitems,
        List.take_of_length_le (by omega), List.take_of_length_le (by omega)]
    · simp only [true_iff]
      omega
    · obtain rfl := List.mem_singleton.mp hq
      exact hunchanged

theorem sound_pagination (hs : Sound s) : Pagination z s where
  bounded := hs.bounded
  fixed moves _ hx _ hy hid := run_fixed hs moves hx hy hid
  restricted r now p t k hcursor hk h := by
    obtain ⟨c, hc, hid, hadmitted, _⟩ := page_resumed hs hcursor hk h
    exact ⟨c, hid ▸ hs.getCursor hc, hadmitted.scope, hadmitted.owner, hadmitted.query,
      hadmitted.live⟩
  bound r now p t k h hk moves r' now' p' t' hcursor h' := by
    obtain ⟨place, rows, rfl⟩ := page_served hs h
    obtain ⟨id, offset, expires, rfl⟩ := served_cursor hk
    exact bound_cursor (run_sound (page_sound hs h) moves).1 hcursor h'
  replayed r now p t k c hcursor hk h hfound moves hmoves query payload now' hquery hlive :=
    replay hs hcursor hk h hfound hmoves hquery hlive
  followed r now p t hcursor hfield h := follow_first hs hcursor hfield h

/-- Lists are paged stably and within the quota in every state that a run reaches. -/
theorem list_pagination (h : Start s) (moves : List (Move J)) : Pagination z (run z moves s) :=
  sound_pagination (run_sound (start_sound h) moves).1

/-! Six rows on pages of two, beside a cursor of an older version. -/

def smallSizes : Sizes ℕ := ⟨fun _ => 40, fun _ _ _ _ _ => 40⟩

def oldCursor : Cursor ℕ where
  cursorId := .given "cursor-old".toList
  scope := "retention-test".toList
  owner := "user-a".toList
  query := ∅
  expires := 1000
  body := .legacy ∅ 0

def oldPages : Pages ℕ := ⟨[], [oldCursor]⟩

theorem oldPages_start : Start oldPages := by
  refine ⟨rfl, List.nodup_singleton _, fun c hc => ?_⟩
  obtain rfl := List.mem_singleton.mp hc
  exact ⟨⟨_, rfl, by decide⟩, _, _, rfl⟩

def smallRequest : PageRequest ℕ where
  scope := "retention-test".toList
  owner := "user-a".toList
  query := ∅
  payload := (∅ : Payload ℕ).insert "items".toList (.rows [0, 1, 2, 3, 4, 5])
  field := "items".toList
  cursor := none
  limit := 2

theorem list_pagination_small :
    Pagination smallSizes (run smallSizes [.page smallRequest 0, .maintenance 2000] oldPages) :=
  list_pagination oldPages_start _

example : (page smallSizes smallRequest 0 oldPages).map (fun p => items "items".toList p.1) =
    .ok [0, 1] := by
  decide +kernel

end PageStability
