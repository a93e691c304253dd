import Mathlib.Logic.Relation
import WiseWay.AuditPages
import WiseWay.Fallible

/-! # The pages of one query

The events of a page are ordered like `query_events` orders them, a cursor stands for a place in
that order, and its snapshot for a part of the journal that no later event changes. -/
namespace AuditSnapshots

open Records Calendar AuditTimes AuditPages
open Sessions (Role Actor)
open Fallible (bind_eq_ok)

variable {u : Library} {actor : Actor} {filter : Filter}

/-! Events. -/

/-- An event whose time `emit` wrote, close enough to the epoch for doubles to tell microseconds
apart. -/
structure Emitted (event : JournalEvent) : Prop where
  written : ∃ civil microsecond, civil.Valid ∧ 1 ≤ civil.year ∧ civil.year < 10000 ∧
    event.occurredAt = utc civil microsecond ∧ Recent (stamp civil microsecond).instant

/-- A bound that both readers understand. -/
def Readable (bound : Text) : Prop := ∃ v : Rfc3339, v.Valid ∧ v.Normal ∧ v.text = bound

def instantOf (text : Text) : ℤ := (fromisoformat (text.flatMap replaceZ)).getD 0

theorem instantOf_text {v : Rfc3339} (h : v.Valid) : instantOf v.text = v.instant := by
  rw [instantOf, fromisoformat_text h, Option.getD_some]

theorem Emitted.value {event : JournalEvent} (h : Emitted event) :
    ∃ v : Rfc3339, v.Valid ∧ v.Normal ∧ v.text = event.occurredAt ∧ Recent v.instant := by
  obtain ⟨civil, microsecond, hvalid, hlow, hhigh, hoccurred, hrecent⟩ := h.written
  exact ⟨stamp civil microsecond, stamp_valid hvalid hlow hhigh microsecond,
    stamp_normal hvalid hhigh microsecond, hoccurred ▸ stamp_text civil microsecond, hrecent⟩

theorem Emitted.recent {event : JournalEvent} (h : Emitted event) :
    Recent (instantOf event.occurredAt) := by
  obtain ⟨v, hvalid, _, htext, hrecent⟩ := h.value
  rw [← htext, instantOf_text hvalid]
  exact hrecent

theorem Emitted.readable {event : JournalEvent} (h : Emitted event) :
    Readable event.occurredAt := by
  obtain ⟨v, hvalid, hnormal, htext, _⟩ := h.value
  exact ⟨v, hvalid, hnormal, htext⟩

theorem Readable.timestamp {text : Text} (h : Readable text) :
    AuditTimes.timestamp text = some (toTimestamp (instantOf text)) := by
  obtain ⟨v, hvalid, _, rfl⟩ := h
  rw [timestamp_text hvalid, instantOf_text hvalid]

theorem normalized_compare {a b : Text} (ha : Readable a) (hb : Readable b) :
    ∃ na nb, normalizedUtc a = some na ∧ normalizedUtc b = some nb ∧
      (na < nb ↔ instantOf a < instantOf b) ∧ (na = nb ↔ instantOf a = instantOf b) := by
  obtain ⟨v, hv, hnv, rfl⟩ := ha
  obtain ⟨w, hw, hnw, rfl⟩ := hb
  refine ⟨v.normalized, w.normalized, normalizedUtc_text hv hnv, normalizedUtc_text hw hnw, ?_, ?_⟩
  · rw [instantOf_text hv, instantOf_text hw]
    exact normalized_lt_iff hv hnv hw hnw
  · rw [instantOf_text hv, instantOf_text hw]
    refine ⟨fun h => ?_, normalized_eq hv hw⟩
    rcases lt_trichotomy v.instant w.instant with hlt | heq | hlt
    · exact absurd h (normalized_lt hv hnv hw hnw hlt).ne
    · exact heq
    · exact absurd h (normalized_lt hw hnw hv hnv hlt).ne'

/-- The place of an event in the order of the journal. -/
abbrev Place := ℤ ×ₗ Text

def placeOf (event : JournalEvent) : Place :=
  toLex (instantOf event.occurredAt, event.eventId)

theorem sqlKey_lt {a b : JournalEvent} (ha : Emitted a) (hb : Emitted b) :
    sqlKey a < sqlKey b ↔ placeOf a < placeOf b := by
  obtain ⟨na, nb, hna, hnb, hlt, heq⟩ := normalized_compare ha.readable hb.readable
  unfold sqlKey placeOf
  rw [hna, hnb, Option.getD_some, Option.getD_some, Prod.Lex.toLex_lt_toLex,
    Prod.Lex.toLex_lt_toLex]
  dsimp only
  rw [hlt, heq]

theorem sqlKey_le {a b : JournalEvent} (ha : Emitted a) (hb : Emitted b) :
    sqlKey a ≤ sqlKey b ↔ placeOf a ≤ placeOf b := by
  rw [← not_lt, sqlKey_lt hb ha, not_lt]

def Selected (u : Library) (actor : Actor) (filter : Filter) (event : JournalEvent) : Prop :=
  instantOf filter.from ≤ instantOf event.occurredAt ∧
    instantOf event.occurredAt < instantOf filter.to ∧
      visible actor.role event = true ∧ chosen u filter event = true

/-- An event stands before a position: it belongs to a later page. -/
def Below (after : Option Keyset) (event : JournalEvent) : Prop :=
  ∀ keyset ∈ after, placeOf event < toLex (instantOf keyset.occurredAt, keyset.eventId)

theorem selects_iff {α : Type} [DecidableEq α] (wanted found : Option α) :
    selects wanted found = sqlEquals wanted found := by
  cases wanted with
  | none => simp [selects, sqlEquals]
  | some a => simp [selects, sqlEquals]

theorem chosen_iff (hcasefold : ∀ text, u.casefold text = [] ↔ text = []) (event : JournalEvent) :
    chosen u filter event = true ↔ sqlEquals filter.companyId event.companyId = true ∧
      sqlEquals filter.action (some event.action) = true ∧
      sqlEquals filter.result (some event.result) = true ∧
      sqlEquals filter.actorId event.actor = true ∧
      (filter.queryText = [] ∨ casefoldContains u event.source filter.queryText = true ∨
        casefoldContains u event.target filter.queryText = true) := by
  have hpath : ∀ path : Option Text, filter.queryText ≠ [] →
      ((u.casefold filter.queryText <:+: u.casefold (path.getD [])) ↔
        casefoldContains u path filter.queryText = true) := by
    intro path hne
    cases path with
    | none =>
      rw [Option.getD_none, (hcasefold []).mpr rfl]
      simpa [casefoldContains] using mt (hcasefold _).mp hne
    | some path => simp [casefoldContains]
  unfold chosen
  simp only [decide_eq_true_eq, selects_iff, hcasefold, List.any_cons, List.any_nil, Bool.or_false,
    Bool.or_eq_true]
  by_cases hne : filter.queryText = []
  · simp [hne]
  · simp only [hpath event.source hne, hpath event.target hne]

theorem isAfter_iff {after : Option Keyset} {event : JournalEvent} (hevent : Emitted event)
    (hafter : ∀ keyset ∈ after, Readable keyset.occurredAt) {occurred : Text}
    (hoccurred : normalizedUtc event.occurredAt = some occurred) :
    isAfter after occurred event.eventId = true ↔ Below after event := by
  cases after with
  | none => simp [isAfter, Below]
  | some keyset =>
    obtain ⟨na, nb, hna, hnb, hlt, heq⟩ :=
      normalized_compare hevent.readable (hafter keyset rfl)
    obtain rfl : na = occurred := Option.some.inj (hna.symm.trans hoccurred)
    simp only [isAfter, hnb, Below, Option.mem_def, Option.some.injEq, forall_eq', placeOf,
      Prod.Lex.toLex_lt_toLex, decide_eq_true_eq, hlt, heq]

theorem whereClause_iff (hcasefold : ∀ text, u.casefold text = [] ↔ text = [])
    (hfrom : Readable filter.from) (hto : Readable filter.to) {after : Option Keyset}
    (hafter : ∀ keyset ∈ after, Readable keyset.occurredAt) {event : JournalEvent}
    (hevent : Emitted event) : whereClause u actor filter after event = true ↔
      Selected u actor filter event ∧ Below after event := by
  obtain ⟨nf, ne, hnf, hne, hlt, _⟩ := normalized_compare hfrom hevent.readable
  obtain ⟨ne', nt, hne', hnt, hlt', _⟩ := normalized_compare hevent.readable hto
  obtain rfl : ne = ne' := Option.some.inj (hne.symm.trans hne')
  have hlow : nf ≤ ne ↔ instantOf filter.from ≤ instantOf event.occurredAt := by
    obtain ⟨ne'', nf'', hne'', hnf'', hlt'', _⟩ := normalized_compare hevent.readable hfrom
    obtain rfl : ne = ne'' := Option.some.inj (hne.symm.trans hne'')
    obtain rfl : nf = nf'' := Option.some.inj (hnf.symm.trans hnf'')
    rw [← not_lt, hlt'', not_lt]
  unfold whereClause Selected
  rw [hne, hnf, hnt]
  simp only [decide_eq_true_eq, hlow, hlt', visible, chosen_iff hcasefold,
    isAfter_iff hevent hafter hne]
  constructor
  · rintro ⟨hstart, hstop, hvisible, h1, h2, h3, h4, h5, hbelow⟩
    exact ⟨⟨hstart, hstop, hvisible, h1, h2, h3, h4, h5⟩, hbelow⟩
  · rintro ⟨⟨hstart, hstop, hvisible, h1, h2, h3, h4, h5⟩, hbelow⟩
    exact ⟨hstart, hstop, hvisible, h1, h2, h3, h4, h5, hbelow⟩

/-! The order. -/

/-- A journal as the database keeps it. -/
structure Kept (journal : List JournalEvent) : Prop where
  emitted : ∀ event ∈ journal, Emitted event
  distinct : (journal.map (·.eventId)).Nodup

def Descending (events : List JournalEvent) : Prop :=
  events.Pairwise fun a b => placeOf b < placeOf a

theorem descending_unique {a b : List JournalEvent} (ha : Descending a) (hb : Descending b)
    (h : ∀ event, event ∈ a ↔ event ∈ b) : a = b := by
  have hirrefl : Std.Irrefl fun a b : JournalEvent => placeOf b < placeOf a :=
    ⟨fun a => lt_irrefl (placeOf a)⟩
  have hantisymm : Std.Antisymm fun a b : JournalEvent => placeOf b < placeOf a :=
    ⟨fun a b hab hba => absurd hab (lt_asymm hba)⟩
  exact List.Pairwise.eq_of_mem_iff ha hb h

theorem descending_sort {α K : Type} [LinearOrder K] (key : α → K) (event : α → JournalEvent)
    {rows : List α}
    (hkey : ∀ a ∈ rows, ∀ b ∈ rows, key a ≤ key b ↔ placeOf (event a) ≤ placeOf (event b))
    (hdistinct : (rows.map fun row => (event row).eventId).Nodup) :
    Descending ((rows.insertionSort fun a b => key b ≤ key a).map event) := by
  have hperm := List.perm_insertionSort (fun a b : α => key b ≤ key a) rows
  have htotal : Std.Total fun a b : α => key b ≤ key a := ⟨fun a b => le_total (key b) (key a)⟩
  have htrans : IsTrans α fun a b : α => key b ≤ key a := ⟨fun _ _ _ hab hbc => hbc.trans hab⟩
  have hsorted := List.pairwise_insertionSort (fun a b : α => key b ≤ key a) rows
  have hnodup := (hperm.map fun row => (event row).eventId).nodup_iff.mpr hdistinct
  rw [Descending, List.pairwise_map]
  rw [List.Nodup, List.pairwise_map] at hnodup
  refine (hsorted.and hnodup).imp_of_mem fun {a b} ha hb h => ?_
  refine lt_of_le_of_ne ((hkey b (hperm.subset hb) a (hperm.subset ha)).mp h.1) fun heq => h.2 ?_
  exact (congrArg (fun place : Place => (ofLex place).2) heq).symm

/-- The bounds can be read. -/
structure Legible (u : Library) (filter : Filter) : Prop where
  «from» : Readable filter.from
  «to» : Readable filter.to
  casefold : ∀ text, u.casefold text = [] ↔ text = []

theorem mem_selectRows (hfilter : Legible u filter) {journal : List JournalEvent}
    (hkept : Kept journal) {cutoffSeq : ℕ} {after : Option Keyset}
    (hafter : ∀ keyset ∈ after, Readable keyset.occurredAt) {event : JournalEvent} :
    event ∈ selectRows u actor filter journal cutoffSeq after ↔
      event ∈ journal.take cutoffSeq ∧ Selected u actor filter event ∧ Below after event := by
  rw [selectRows, List.mem_insertionSort, List.mem_filter]
  refine and_congr_right fun hmem => ?_
  exact whereClause_iff hfilter.casefold hfilter.from hfilter.to hafter
    (hkept.emitted event (List.mem_of_mem_take hmem))

theorem selectRows_descending {journal : List JournalEvent} (hkept : Kept journal)
    (cutoffSeq : ℕ) (after : Option Keyset) :
    Descending (selectRows u actor filter journal cutoffSeq after) := by
  have hmem : ∀ event ∈ (journal.take cutoffSeq).filter (whereClause u actor filter after),
      Emitted event := fun event hevent =>
    hkept.emitted event (List.mem_of_mem_take (List.mem_filter.mp hevent).1)
  have hdescending := descending_sort sqlKey id
    (fun a ha b hb => sqlKey_le (hmem a ha) (hmem b hb))
    (hkept.distinct.sublist ((List.filter_sublist.trans (List.take_sublist ..)).map _))
  rwa [List.map_id] at hdescending

/-- The rows behind a row are those that come after it. -/
theorem selectRows_after (hfilter : Legible u filter) {journal : List JournalEvent}
    (hkept : Kept journal) {cutoffSeq : ℕ} {before rest : List JournalEvent} {row : JournalEvent}
    (h : selectRows u actor filter journal cutoffSeq none = before ++ row :: rest) :
    selectRows u actor filter journal cutoffSeq (some ⟨row.occurredAt, row.eventId⟩) = rest := by
  have hdescending : Descending (selectRows u actor filter journal cutoffSeq none) :=
    selectRows_descending hkept cutoffSeq none
  have hall : ∀ event, event ∈ selectRows u actor filter journal cutoffSeq none ↔
      event ∈ journal.take cutoffSeq ∧ Selected u actor filter event ∧ Below none event :=
    fun event => mem_selectRows hfilter hkept (by simp)
  rw [h] at hdescending hall
  have hrow : Emitted row := by
    have hmem := ((hall row).mp (by simp)).1
    exact hkept.emitted row (List.mem_of_mem_take hmem)
  have hafter : ∀ keyset ∈ (some ⟨row.occurredAt, row.eventId⟩ : Option Keyset),
      Readable keyset.occurredAt := by
    rintro _ ⟨⟩
    exact hrow.readable
  have hsplit := List.pairwise_append.mp hdescending
  have htail := List.pairwise_cons.mp hsplit.2.1
  refine descending_unique (selectRows_descending hkept _ _) htail.2 fun event => ?_
  rw [mem_selectRows hfilter hkept hafter]
  have hnone : Below none event := by simp [Below]
  have hplace : Below (some ⟨row.occurredAt, row.eventId⟩) event ↔ placeOf event < placeOf row := by
    simp [Below, placeOf]
  rw [hplace]
  constructor
  · rintro ⟨hmem, hselected, hlt⟩
    rcases List.mem_append.mp ((hall event).mpr ⟨hmem, hselected, hnone⟩) with hbefore | hrest
    · exact absurd hlt (lt_asymm (hsplit.2.2 event hbefore row (List.mem_cons_self ..)))
    · rcases List.mem_cons.mp hrest with rfl | hrest
      · exact absurd hlt (lt_irrefl _)
      · exact hrest
  · intro hrest
    obtain ⟨hmem, hselected, _⟩ := (hall event).mp
      (List.mem_append_right _ (List.mem_cons_of_mem _ hrest))
    exact ⟨hmem, hselected, htail.1 event hrest⟩

/-! The cutoff. -/

theorem seq_le_cutoff {role : Role} {journal : List JournalEvent} {i : ℕ} {event : JournalEvent}
    (hevent : journal[i]? = some event) (hvisible : visible role event = true) :
    i < visibleCutoff role journal := by
  have hmem : i + 1 ∈ ((journal.zipIdx 1).filter fun row => visible role row.1).map Prod.snd := by
    refine List.mem_map.mpr ⟨(event, i + 1), List.mem_filter.mpr ⟨?_, hvisible⟩, rfl⟩
    rw [List.mk_mem_zipIdx_iff_le_and_getElem?_sub]
    exact ⟨by omega, by simpa using hevent⟩
  unfold visibleCutoff
  cases hmax : (((journal.zipIdx 1).filter fun row => visible role row.1).map Prod.snd).max? with
  | none =>
    rw [List.max?_eq_none_iff] at hmax
    rw [hmax] at hmem
    cases hmem
  | some seq =>
    have := (List.max?_eq_some_iff.mp hmax).2 _ hmem
    rw [Option.getD_some]
    omega

theorem visibleCutoff_le (role : Role) (journal : List JournalEvent) :
    visibleCutoff role journal ≤ journal.length := by
  unfold visibleCutoff
  cases hmax : (((journal.zipIdx 1).filter fun row => visible role row.1).map Prod.snd).max? with
  | none => exact Nat.zero_le _
  | some seq =>
    obtain ⟨row, hrow, rfl⟩ := List.mem_map.mp (List.max?_eq_some_iff.mp hmax).1
    have := List.mk_mem_zipIdx_iff_le_and_getElem?_sub.mp
      (show (row.1, row.2) ∈ journal.zipIdx 1 from (List.mem_filter.mp hrow).1)
    obtain ⟨hlt, _⟩ := List.getElem?_eq_some_iff.mp this.2
    rw [Option.getD_some]
    omega

theorem mem_take_cutoff {role : Role} {journal : List JournalEvent} {event : JournalEvent}
    (hvisible : visible role event = true) :
    event ∈ journal.take (visibleCutoff role journal) ↔ event ∈ journal := by
  refine ⟨List.mem_of_mem_take, fun hmem => ?_⟩
  obtain ⟨i, hi⟩ := List.mem_iff_getElem?.mp hmem
  refine List.mem_iff_getElem?.mpr ⟨i, ?_⟩
  rw [List.getElem?_take_of_lt (seq_le_cutoff hi hvisible), hi]

/-! The reference. -/

theorem queryBounds_ok (hfilter : Legible u filter) {bounds : ℚ × ℚ}
    (h : queryBounds actor filter = .ok bounds) :
    bounds = (toTimestamp (instantOf filter.from), toTimestamp (instantOf filter.to)) := by
  unfold queryBounds at h
  rw [hfilter.from.timestamp, hfilter.to.timestamp] at h
  dsimp only at h
  split at h
  · cases h
  · split at h
    · cases h
    · exact (Except.ok.inj h).symm

/-- A row of `query_events`. -/
def timed (event : JournalEvent) : TimeKey × JournalEvent :=
  (toLex (toTimestamp (instantOf event.occurredAt), event.eventId), event)

theorem timed_le {a b : JournalEvent} (ha : Emitted a) (hb : Emitted b) :
    (timed a).1 ≤ (timed b).1 ↔ placeOf a ≤ placeOf b := by
  have hlt := toTimestamp_lt_iff (.inl hb.recent : Recent _ ∨ Recent (instantOf a.occurredAt))
  have hlt' := toTimestamp_lt_iff (.inl ha.recent : Recent _ ∨ Recent (instantOf b.occurredAt))
  have heq : toTimestamp (instantOf b.occurredAt) = toTimestamp (instantOf a.occurredAt) ↔
      instantOf b.occurredAt = instantOf a.occurredAt := by
    refine ⟨fun h => ?_, fun h => by rw [h]⟩
    rcases lt_trichotomy (instantOf b.occurredAt) (instantOf a.occurredAt) with hba | hba | hab
    · exact absurd h (hlt.mpr hba).ne
    · exact hba
    · exact absurd h (hlt'.mpr hab).ne'
  rw [← not_lt, ← not_lt, timed, timed, placeOf, placeOf, Prod.Lex.toLex_lt_toLex,
    Prod.Lex.toLex_lt_toLex]
  dsimp only
  rw [hlt, heq]

theorem queryEvents_eq (hfilter : Legible u filter) {journal : List JournalEvent}
    (hkept : Kept journal) {bounds : ℚ × ℚ} (h : queryBounds actor filter = .ok bounds) :
    queryEvents u actor filter (visibleEvents actor journal) =
      .ok (selectRows u actor filter journal (visibleCutoff actor.role journal) none) := by
  have hvisible : ∀ event ∈ visibleEvents actor journal,
      Emitted event ∧ event ∈ journal ∧ visible actor.role event = true := fun event hevent => by
    obtain ⟨hmem, hvisible⟩ := List.mem_filter.mp hevent
    have hmem := List.mem_reverse.mp hmem
    exact ⟨hkept.emitted event hmem, hmem, hvisible⟩
  have htimed : (visibleEvents actor journal).mapM timedRow =
      .ok ((visibleEvents actor journal).map timed) := by
    refine Fallible.mapM_eq_map fun event hevent => ?_
    rw [timedRow, (hvisible event hevent).1.readable.timestamp]
    rfl
  rw [queryEvents, h, queryBounds_ok hfilter h]
  simp only [bind, Except.bind, htimed, pure, Except.pure]
  refine congrArg Except.ok (descending_unique ?_ (selectRows_descending hkept _ _) fun event => ?_)
  · refine descending_sort (fun row : TimeKey × JournalEvent => row.1) Prod.snd
      (fun a ha b hb => ?_) ?_
    · obtain ⟨a', ha', rfl⟩ := List.mem_map.mp (List.mem_filter.mp ha).1
      obtain ⟨b', hb', rfl⟩ := List.mem_map.mp (List.mem_filter.mp hb).1
      exact timed_le (hvisible a' ha').1 (hvisible b' hb').1
    · have hids : ((visibleEvents actor journal).map timed).map
          (fun row : TimeKey × JournalEvent => row.2.eventId) =
            (visibleEvents actor journal).map (·.eventId) := by
        rw [List.map_map]
        rfl
      refine List.Nodup.sublist (List.filter_sublist.map _) ?_
      rw [hids]
      exact ((List.reverse_perm journal).map _).nodup_iff.mpr hkept.distinct |>.sublist
        (List.filter_sublist.map _)
  · rw [mem_selectRows hfilter hkept (by simp)]
    have hbelow : Below none event := by simp [Below]
    simp only [List.mem_map, List.mem_insertionSort, List.mem_filter, decide_eq_true_eq]
    constructor
    · rintro ⟨_, ⟨⟨event, hevent, rfl⟩, hstart, hstop, hchosen⟩, rfl⟩
      obtain ⟨hemitted, hmem, hvisible⟩ := hvisible event hevent
      refine ⟨(mem_take_cutoff hvisible).mpr hmem, ⟨?_, ?_, hvisible, hchosen⟩, hbelow⟩
      · exact not_lt.mp (mt (toTimestamp_lt (.inl hemitted.recent)) (not_lt.mpr hstart))
      · exact (toTimestamp_lt_iff (.inl hemitted.recent)).mp hstop
    · rintro ⟨hmem, ⟨hstart, hstop, hvisible', hchosen⟩, _⟩
      have hevent : event ∈ visibleEvents actor journal :=
        List.mem_filter.mpr ⟨List.mem_reverse.mpr ((mem_take_cutoff hvisible').mp hmem), hvisible'⟩
      have hrecent := (hvisible event hevent).1.recent
      refine ⟨timed event, ⟨⟨event, hevent, rfl⟩, ?_, ?_, hchosen⟩, rfl⟩
      · exact not_lt.mp (mt (toTimestamp_lt_iff (.inl hrecent)).mp (not_lt.mpr hstart))
      · exact toTimestamp_lt (.inl hrecent) hstop

/-! Requests that run at the same time. -/

/-- One transaction of the site at a time that the clock can show. A snapshot is reserved for what
its request has read of the journal before; the roles of users never change. -/
inductive Step (u : Library) (roleOf : Text → Role) (clock : Time → Prop) : Site → Site → Prop
  | append {s : Site} (event : JournalEvent) : Emitted event →
      event.eventId ∉ s.journal.map (·.eventId) →
        Step u roleOf clock s { s with journal := s.journal ++ [event] }
  | maintain (s : Site) (now : Time) : clock now →
      Step u roleOf clock s (deleteExpiredPages now s)
  | payload (s : Site) (pages : List PayloadPage) :
      Step u roleOf clock s { s with payloadPages := pages }
  | reserve {s s' : Site} {actor : Actor} {query : Filter} {seen : List JournalEvent} {now : Time}
      {snapshot : AuditSnapshot} : clock now → actor.role = roleOf actor.userId →
      seen <+: s.journal →
        reserveAuditSnapshot u actor query (visibleCutoff actor.role seen)
          (newestVisibleEventId actor.role seen (visibleCutoff actor.role seen)) now s =
            .ok (snapshot, s') → Step u roleOf clock s s'
  | cursor {s s' : Site} {actor : Actor} {query : Filter} {snapshot : AuditSnapshot}
      {position : Keyset} {now : Time} {key : CursorKey} : clock now →
        createAuditCursor actor query snapshot position now s = .ok (key, s') →
          Step u roleOf clock s s'

abbrev Steps (u : Library) (roleOf : Text → Role) (clock : Time → Prop) : Site → Site → Prop :=
  Relation.ReflTransGen (Step u roleOf clock)

variable {roleOf : Text → Role} {clock : Time → Prop}

/-- What the transactions keep. A snapshot is stored under its parts and holds what a request
with its owner's role has read; the parts of a cursor are those of its row. -/
structure Sound (roleOf : Text → Role) (s : Site) : Prop where
  kept : Kept s.journal
  snapshot : ∀ snapshot ∈ s.snapshots,
    snapshot.snapshotId = ⟨snapshot.owner, snapshot.query, snapshot.cutoffSeq, snapshot.expires⟩ ∧
      ∃ seen, seen <+: s.journal ∧ snapshot.cutoffSeq = visibleCutoff (roleOf snapshot.owner) seen ∧
        snapshot.newestEventId =
          newestVisibleEventId (roleOf snapshot.owner) seen snapshot.cutoffSeq
  cursor : ∀ cursor ∈ s.cursors, cursor.expires = cursor.snapshotId.expires ∧
    cursor.cursorId = ⟨cursor.owner, cursor.query, cursor.snapshotId, cursor.position⟩

theorem reserve_ok {actor : Actor} {query : Filter} {cutoffSeq : ℕ} {newest : Option Text}
    {now : Time} {s s' : Site} {snapshot : AuditSnapshot}
    (h : reserveAuditSnapshot u actor query cutoffSeq newest now s = .ok (snapshot, s')) :
    s'.journal = s.journal ∧ s'.cursors = (deleteExpiredPages now s).cursors ∧
      snapshot.owner = actor.userId ∧ snapshot.query = query ∧ snapshot.cutoffSeq = cutoffSeq ∧
      (snapshot ∈ s.snapshots ∧ s'.snapshots = (deleteExpiredPages now s).snapshots ∨
        snapshot.snapshotId = ⟨actor.userId, query, cutoffSeq, snapshot.expires⟩ ∧
          snapshot.newestEventId = newest ∧
            s' = putSnapshot (deleteExpiredPages now s) snapshot) := by
  unfold reserveAuditSnapshot at h
  dsimp only at h
  split at h
  · rename_i saved hfound
    cases h
    have hsaved := List.find?_some hfound
    rw [decide_eq_true_eq] at hsaved
    have hmem := (List.mem_filter.mp (List.mem_of_find?_eq_some hfound)).1
    exact ⟨rfl, rfl, hsaved.1, hsaved.2.1, hsaved.2.2.1, .inl ⟨hmem, rfl⟩⟩
  · obtain ⟨_, _, h⟩ := bind_eq_ok.mp h
    cases h
    exact ⟨rfl, rfl, rfl, rfl, rfl, .inr ⟨rfl, rfl, rfl⟩⟩

theorem create_ok {actor : Actor} {query : Filter} {snapshot : AuditSnapshot} {position : Keyset}
    {now : Time} {s s' : Site} {key : CursorKey}
    (h : createAuditCursor actor query snapshot position now s = .ok (key, s')) :
    key = ⟨actor.userId, query, snapshot.snapshotId, position⟩ ∧ ∃ saved ∈ s.snapshots,
      saved.snapshotId = snapshot.snapshotId ∧ saved.owner = actor.userId ∧ saved.query = query ∧
      s' = putCursor s
        ⟨key, actor.userId, query, snapshot.snapshotId, saved.expires, position⟩ := by
  unfold createAuditCursor at h
  dsimp only at h
  split at h
  · cases h
  · rename_i saved hfound
    split at h
    · cases h
    · rename_i hown
      cases h
      have hid : saved.snapshotId = snapshot.snapshotId := by
        simpa using List.find?_some hfound
      exact ⟨rfl, saved, List.mem_of_find?_eq_some hfound, hid,
        not_ne_iff.mp fun hne => hown (.inl hne), not_ne_iff.mp fun hne => hown (.inr (.inl hne)),
        by rw [hid]⟩

theorem Step.journal {s s' : Site} (h : Step u roleOf clock s s') :
    s.journal <+: s'.journal := by
  cases h with
  | append event _ _ => exact List.prefix_append ..
  | maintain now _ => exact List.prefix_rfl
  | payload pages => exact List.prefix_rfl
  | reserve _ _ _ h => exact (reserve_ok h).1 ▸ List.prefix_rfl
  | cursor _ h =>
    obtain ⟨_, _, _, _, _, _, rfl⟩ := create_ok h
    exact List.prefix_rfl

theorem Sound.step {s s' : Site} (hs : Sound roleOf s) (h : Step u roleOf clock s s') :
    Sound roleOf s' := by
  cases h with
  | append event hemitted hfresh =>
    refine ⟨⟨fun other hother => ?_, ?_⟩, fun snapshot hsnapshot => ?_, hs.cursor⟩
    · rcases List.mem_append.mp hother with hother | hother
      · exact hs.kept.emitted other hother
      · exact List.mem_singleton.mp hother ▸ hemitted
    · rw [List.map_append, List.map_singleton, List.nodup_append]
      refine ⟨hs.kept.distinct, List.nodup_singleton _, fun id hid other hother heq => ?_⟩
      exact hfresh (List.mem_singleton.mp hother ▸ heq ▸ hid)
    · obtain ⟨hid, seen, hseen, hrest⟩ := hs.snapshot snapshot hsnapshot
      exact ⟨hid, seen, hseen.trans (List.prefix_append ..), hrest⟩
  | maintain now _ =>
    exact ⟨hs.kept, fun snapshot hsnapshot => hs.snapshot snapshot (List.mem_filter.mp hsnapshot).1,
      fun cursor hcursor => hs.cursor cursor (List.mem_filter.mp hcursor).1⟩
  | payload pages => exact ⟨hs.kept, hs.snapshot, hs.cursor⟩
  | @reserve _ actor query seen now snapshot _ hrole hseen h =>
    obtain ⟨hjournal, hcursors, howner, hquery, hcutoff, hsnapshots⟩ := reserve_ok h
    have hold : ∀ other ∈ (deleteExpiredPages now s).snapshots, other ∈ s.snapshots :=
      fun other hother => (List.mem_filter.mp hother).1
    refine ⟨hjournal ▸ hs.kept, fun other hother => ?_, fun cursor hcursor => ?_⟩
    · rw [hjournal]
      rcases hsnapshots with ⟨_, hsame⟩ | ⟨hid, hnewest, rfl⟩
      · exact hs.snapshot other (hold other (hsame ▸ hother))
      · rcases List.mem_append.mp hother with hother | hother
        · exact hs.snapshot other (hold other (List.mem_filter.mp hother).1)
        · obtain rfl := List.mem_singleton.mp hother
          rw [howner, hquery, hcutoff, ← hrole]
          exact ⟨hid, seen, hseen, rfl, hnewest⟩
    · rw [hcursors] at hcursor
      exact hs.cursor cursor (List.mem_filter.mp hcursor).1
  | cursor _ h =>
    obtain ⟨rfl, saved, hsaved, hid, _, _, rfl⟩ := create_ok h
    refine ⟨hs.kept, hs.snapshot, fun cursor hcursor => ?_⟩
    rcases List.mem_append.mp hcursor with hcursor | hcursor
    · exact hs.cursor cursor (List.mem_filter.mp hcursor).1
    · rw [List.mem_singleton.mp hcursor]
      refine ⟨?_, rfl⟩
      dsimp only
      rw [← hid, (hs.snapshot saved hsaved).1]

theorem Sound.steps {s s' : Site} (hs : Sound roleOf s) (h : Steps u roleOf clock s s') :
    Sound roleOf s' ∧ s.journal <+: s'.journal := by
  induction h with
  | refl => exact ⟨hs, List.prefix_rfl⟩
  | tail _ hstep ih => exact ⟨ih.1.step hstep, ih.2.trans hstep.journal⟩

/-! Calls. -/

def positionOf (row : JournalEvent) : Keyset := ⟨row.occurredAt, row.eventId⟩

/-- `query_page` with what other requests do between its transactions. -/
inductive PageCall (u : Library) (roleOf : Text → Role) (clock : Time → Prop) (actor : Actor) :
    Site → PageRequest → Page → Site → Prop
  | last {s : Site} {request : PageRequest} {now : Time} {reading : Reading} :
      readPage u actor request now s = .ok reading → reading.more = false →
        PageCall u roleOf clock actor s request ⟨reading.items, none, reading.newestEventId⟩ s
  | next {s s₁ s₂ : Site} {request : PageRequest} {now later : Time} {reading : Reading}
      {snapshot : AuditSnapshot} {row : JournalEvent} {key : CursorKey} :
      readPage u actor request now s = .ok reading → reading.more = true →
        reading.snapshot = some snapshot → reading.items.getLast? = some row →
          Steps u roleOf clock s s₁ → clock later →
            createAuditCursor actor request.filter snapshot (positionOf row) later s₁ =
              .ok (key, s₂) →
                PageCall u roleOf clock actor s request
                  ⟨reading.items, some key, reading.newestEventId⟩ s₂
  | first {s s₁ s₂ s₃ s₄ : Site} {request : PageRequest} {now later latest : Time}
      {reading : Reading} {snapshot : AuditSnapshot} {row : JournalEvent} {key : CursorKey} :
      readPage u actor request now s = .ok reading → reading.more = true →
        reading.snapshot = none → reading.items.getLast? = some row →
        Steps u roleOf clock s s₁ → clock later →
          reserveAuditSnapshot u actor request.filter reading.cutoffSeq reading.newestEventId
            later s₁ = .ok (snapshot, s₂) → Steps u roleOf clock s₂ s₃ → clock latest →
              createAuditCursor actor request.filter snapshot (positionOf row) latest s₃ =
                .ok (key, s₄) →
                  PageCall u roleOf clock actor s request
                    ⟨reading.items, some key, reading.newestEventId⟩ s₄

/-- Pages obtained by following cursors, the first with a given cursor, and the cursor that is
left. The limit of a page is the client's choice. -/
inductive Follow (u : Library) (roleOf : Text → Role) (clock : Time → Prop) (actor : Actor)
    (filter : Filter) :
    Site → Option CursorKey → List Page → Option CursorKey → Site → Prop
  | one {s s' : Site} {cursor : Option CursorKey} {limit : ℕ} {page : Page} :
      PageCall u roleOf clock actor s ⟨filter, cursor, limit⟩ page s' →
        Follow u roleOf clock actor filter s cursor [page] page.nextCursor s'
  | more {s s₁ s₂ s' : Site} {cursor last : Option CursorKey} {limit : ℕ} {page : Page}
      {pages : List Page} {key : CursorKey} :
      PageCall u roleOf clock actor s ⟨filter, cursor, limit⟩ page s₁ →
        page.nextCursor = some key → Steps u roleOf clock s₁ s₂ →
          Follow u roleOf clock actor filter s₂ (some key) pages last s' →
            Follow u roleOf clock actor filter s cursor (page :: pages) last s'

theorem readPage_ok {request : PageRequest} {now : Time} {s : Site} {reading : Reading}
    (h : readPage u actor request now s = .ok reading) :
    (∃ bounds, queryBounds actor request.filter = .ok bounds) ∧ ∃ start,
      pageStart actor request now s = .ok (reading.cutoffSeq, reading.newestEventId, start) ∧
        reading.snapshot = start.map Prod.fst ∧
          reading.items = (selectRows u actor request.filter s.journal reading.cutoffSeq
            (start.map Prod.snd)).take request.limit ∧
          (reading.more = false → reading.items = selectRows u actor request.filter s.journal
            reading.cutoffSeq (start.map Prod.snd)) := by
  obtain ⟨bounds, hbounds, h⟩ := bind_eq_ok.mp h
  obtain ⟨⟨cutoffSeq, newestEventId, start⟩, hstart, h⟩ := bind_eq_ok.mp h
  cases h
  refine ⟨⟨bounds, hbounds⟩, start, hstart, rfl, ?_, fun hmore => ?_⟩
  · dsimp only
    rw [List.take_take, Nat.min_eq_left (by omega)]
  · dsimp only at hmore ⊢
    rw [decide_eq_false_iff_not, List.length_take] at hmore
    rw [List.take_take, Nat.min_eq_left (by omega), List.take_of_length_le (by omega)]

structure Owned (actor : Actor) (filter : Filter) (key : CursorKey) : Prop where
  owner : key.owner = actor.userId
  query : key.query = filter
  snapshotOwner : key.snapshotId.owner = actor.userId
  snapshotQuery : key.snapshotId.query = filter

theorem created_owned {actor : Actor} {filter : Filter} {s : Site} (hs : Sound roleOf s)
    {saved snapshot : AuditSnapshot} (hsaved : saved ∈ s.snapshots)
    (hid : saved.snapshotId = snapshot.snapshotId) (howner : saved.owner = actor.userId)
    (hquery : saved.query = filter) (position : Keyset) :
    Owned actor filter ⟨actor.userId, filter, snapshot.snapshotId, position⟩ := by
  refine ⟨rfl, rfl, ?_, ?_⟩
  · dsimp only
    rw [← hid, (hs.snapshot saved hsaved).1, ← howner]
  · dsimp only
    rw [← hid, (hs.snapshot saved hsaved).1, ← hquery]

/-- What a page says about the rows that it was read from. -/
structure Turns (u : Library) (actor : Actor) (filter : Filter) (cutoffSeq : ℕ)
    (rows : List JournalEvent) (page : Page) : Prop where
  initial : page.items <+: rows
  last : page.nextCursor = none → page.items = rows
  next : ∀ key, page.nextCursor = some key → ∃ row, page.items.getLast? = some row ∧
    Owned actor filter key ∧ key.snapshotId.cutoffSeq = cutoffSeq ∧ key.position = positionOf row

theorem Step.of_reserve {s s' : Site} {request : PageRequest} {now : Time}
    {reading : Reading} {before : Site} {snapshot : AuditSnapshot}
    (hrole : actor.role = roleOf actor.userId) (hseen : before.journal <+: s.journal)
    (hread : pageStart actor request now before =
      .ok (reading.cutoffSeq, reading.newestEventId, none)) {later : Time} (hclock : clock later)
    (h : reserveAuditSnapshot u actor request.filter reading.cutoffSeq reading.newestEventId later
      s = .ok (snapshot, s')) : Step u roleOf clock s s' := by
  unfold pageStart at hread
  split at hread
  · obtain ⟨found, _, hread⟩ := bind_eq_ok.mp hread
    have hsome := (Prod.mk.inj (Prod.mk.inj (Except.ok.inj hread)).2).2
    cases hsome
  · obtain ⟨hcutoff, hrest⟩ := Prod.mk.inj (Except.ok.inj hread)
    obtain ⟨hnewest, _⟩ := Prod.mk.inj hrest
    rw [← hnewest, ← hcutoff] at h
    exact .reserve hclock hrole hseen h

theorem pageStart_snapshot {request : PageRequest} {now : Time} {s : Site} {cutoffSeq : ℕ}
    {newest : Option Text} {snapshot : AuditSnapshot} {after : Keyset}
    (h : pageStart actor request now s = .ok (cutoffSeq, newest, some (snapshot, after))) :
    snapshot ∈ s.snapshots ∧ snapshot.cutoffSeq = cutoffSeq := by
  unfold pageStart at h
  split at h
  · obtain ⟨⟨found, position⟩, hfound, h⟩ := bind_eq_ok.mp h
    cases h
    unfold snapshotForCursor at hfound
    split at hfound
    · cases hfound
    · split at hfound
      · cases hfound
      · split at hfound
        · cases hfound
        · rename_i hget
          split at hfound
          · cases hfound
          · cases hfound
            exact ⟨List.mem_of_find?_eq_some hget, rfl⟩
  · cases h

/-- A page that is read of a sound site turns over the rows behind its start. -/
theorem PageCall.turns {s s' : Site} {request : PageRequest} {page : Page}
    (hrole : actor.role = roleOf actor.userId) (hs : Sound roleOf s)
    (h : PageCall u roleOf clock actor s request page s') :
    Steps u roleOf clock s s' ∧ (∃ bounds, queryBounds actor request.filter = .ok bounds) ∧
      ∃ now cutoffSeq start,
        pageStart actor request now s = .ok (cutoffSeq, page.newestEventId, start) ∧
          Turns u actor request.filter cutoffSeq
            (selectRows u actor request.filter s.journal cutoffSeq (start.map Prod.snd)) page := by
  cases h with
  | @last _ now reading hread hmore =>
    obtain ⟨hbounds, start, hstart, _, hitems, hlast⟩ := readPage_ok hread
    refine ⟨.refl, hbounds, now, reading.cutoffSeq, start, hstart, ?_, ?_, ?_⟩
    · rw [hitems]
      exact List.take_prefix ..
    · intro _
      exact hlast hmore
    · intro key hkey
      cases hkey
  | @next s₁ _ _ now later reading snapshot row key hread hmore hsnapshot hrow hsteps hclock
      hcreate =>
    obtain ⟨hbounds, start, hstart, hstart', hitems, _⟩ := readPage_ok hread
    obtain ⟨rfl, saved, hsaved, hid, howner, hquery, rfl⟩ := create_ok hcreate
    refine ⟨hsteps.tail (.cursor hclock hcreate), hbounds, now, reading.cutoffSeq, start, hstart,
      ?_, ?_, ?_⟩
    · rw [hitems]
      exact List.take_prefix ..
    · intro hnone
      cases hnone
    · rintro _ ⟨⟩
      obtain ⟨⟨_, after⟩, rfl, rfl⟩ := Option.map_eq_some_iff.mp (hstart' ▸ hsnapshot)
      obtain ⟨hmem, hcutoff⟩ := pageStart_snapshot hstart
      refine ⟨row, hrow, created_owned (hs.steps hsteps).1 hsaved hid howner hquery _, ?_, rfl⟩
      rw [(hs.snapshot _ hmem).1]
      exact hcutoff
  | @first s₁ s₂ s₃ _ _ now later latest reading snapshot row key hread hmore hsnapshot hrow
      hsteps hclock hreserve hsteps' hclock' hcreate =>
    obtain ⟨hbounds, start, hstart, hstart', hitems, _⟩ := readPage_ok hread
    obtain ⟨rfl, saved, hsaved, hid, howner, hquery, rfl⟩ := create_ok hcreate
    obtain rfl : start = none := by
      cases start with
      | none => rfl
      | some start => rw [hsnapshot] at hstart'; cases hstart'
    obtain ⟨hs₁, hjournal⟩ := hs.steps hsteps
    have hstep := Step.of_reserve hrole hjournal hstart hclock hreserve
    refine ⟨((hsteps.tail hstep).trans hsteps').tail (.cursor hclock' hcreate), hbounds, now,
      reading.cutoffSeq, none, hstart, ?_, ?_, ?_⟩
    · rw [hitems]
      exact List.take_prefix ..
    · intro hnone
      cases hnone
    · rintro _ ⟨⟩
      have hs₃ := ((hs₁.step hstep).steps hsteps').1
      refine ⟨row, hrow, created_owned hs₃ hsaved hid howner hquery _, ?_, rfl⟩
      obtain ⟨_, _, _, _, hcutoff, hsnapshots⟩ := reserve_ok hreserve
      rcases hsnapshots with ⟨hmem, _⟩ | ⟨hid, _, _⟩
      · rw [(hs₁.snapshot _ hmem).1]
        exact hcutoff
      · rw [hid]

theorem take_of_prefix {α : Type} {a b : List α} {n : ℕ} (h : a <+: b) (hn : n ≤ a.length) :
    b.take n = a.take n := by
  obtain ⟨c, rfl⟩ := h
  exact List.take_append_of_le_length hn

/-- A cursor starts behind its position, with the cutoff of its snapshot. -/
theorem pageStart_cursor {s : Site} {filter : Filter} {key : CursorKey}
    {limit : ℕ} {now : Time} {cutoffSeq : ℕ} {newest : Option Text}
    {start : Option (AuditSnapshot × Keyset)} (hrole : actor.role = roleOf actor.userId)
    (hs : Sound roleOf s)
    (h : pageStart actor ⟨filter, some key, limit⟩ now s = .ok (cutoffSeq, newest, start)) :
    key.owner = actor.userId ∧ key.query = filter ∧ cutoffSeq = key.snapshotId.cutoffSeq ∧
      start.map Prod.snd = some key.position ∧ ∃ seen, seen <+: s.journal ∧
        cutoffSeq = visibleCutoff actor.role seen ∧
          newest = newestVisibleEventId actor.role seen cutoffSeq := by
  obtain ⟨⟨found, position⟩, hfound, h⟩ := bind_eq_ok.mp h
  obtain ⟨hcutoff, hrest⟩ := Prod.mk.inj (Except.ok.inj h)
  obtain ⟨hnewest, hstart⟩ := Prod.mk.inj hrest
  unfold snapshotForCursor at hfound
  split at hfound
  · cases hfound
  · rename_i saved hsaved
    split at hfound
    · cases hfound
    · rename_i hown
      split at hfound
      · cases hfound
      · rename_i snapshot hget
        split at hfound
        · cases hfound
        · rename_i hlive
          obtain ⟨rfl, rfl⟩ := Prod.mk.inj (Except.ok.inj hfound)
          have hkey : saved.cursorId = key := by simpa using List.find?_some hsaved
          have hid : snapshot.snapshotId = saved.snapshotId := by
            simpa using List.find?_some hget
          have hparts := (hs.cursor saved (List.mem_of_find?_eq_some hsaved)).2
          obtain ⟨hsnapshot, seen, hseen, hseenCutoff, hseenNewest⟩ :=
            hs.snapshot snapshot (List.mem_of_find?_eq_some hget)
          have howner : snapshot.owner = actor.userId := not_ne_iff.mp fun hne => hlive (.inl hne)
          have howner' : saved.owner = actor.userId := not_ne_iff.mp fun hne => hown (.inl hne)
          have hquery : saved.query = filter := not_ne_iff.mp fun hne => hown (.inr (.inl hne))
          rw [← hkey, hparts]
          dsimp only
          rw [← hid, hsnapshot]
          rw [howner, ← hrole] at hseenCutoff hseenNewest
          exact ⟨howner', hquery, hcutoff.symm, by rw [← hstart]; rfl, seen, hseen,
            by rw [← hcutoff]; exact hseenCutoff, by rw [← hnewest, ← hcutoff]; exact hseenNewest⟩

theorem Turns.split {cutoffSeq : ℕ} {rows : List JournalEvent} {page : Page} {key : CursorKey}
    (h : Turns u actor filter cutoffSeq rows page) (hkey : page.nextCursor = some key) :
    ∃ before row rest, rows = before ++ row :: rest ∧ page.items = before ++ [row] ∧
      key.position = positionOf row := by
  obtain ⟨row, hrow, _, _, hposition⟩ := h.next key hkey
  obtain ⟨rest, hrest⟩ := h.initial
  obtain ⟨before, hbefore⟩ := List.getLast?_eq_some_iff.mp hrow
  refine ⟨before, row, rest, ?_, hbefore, hposition⟩
  rw [← hrest, hbefore, List.append_assoc, List.singleton_append]

theorem PageCall.behind {journal : List JournalEvent} {cutoffSeq : ℕ}
    (hfilter : Legible u filter) (hrole : actor.role = roleOf actor.userId)
    (hcutoff : cutoffSeq ≤ journal.length) {s s' : Site} {key : CursorKey} {limit : ℕ}
    {page : Page} (hs : Sound roleOf s) (hjournal : journal <+: s.journal)
    (hkey : key.snapshotId.cutoffSeq = cutoffSeq) {before rest : List JournalEvent}
    {row : JournalEvent} (hposition : key.position = positionOf row)
    (hrows : selectRows u actor filter journal cutoffSeq none = before ++ row :: rest)
    (h : PageCall u roleOf clock actor s ⟨filter, some key, limit⟩ page s') :
    Turns u actor filter cutoffSeq rest page ∧
      page.newestEventId = newestVisibleEventId actor.role journal cutoffSeq := by
  obtain ⟨_, _, now, cutoff, start, hstart, hturns⟩ := h.turns hrole hs
  obtain ⟨_, _, rfl, hafter, seen, hseen, hseenCutoff, hnewest⟩ := pageStart_cursor hrole hs hstart
  rw [hkey] at *
  have htake := take_of_prefix hjournal hcutoff
  have htake' : seen.take cutoffSeq = journal.take cutoffSeq := by
    rw [← htake, take_of_prefix hseen (hseenCutoff ▸ visibleCutoff_le _ _)]
  refine ⟨?_, ?_⟩
  · have hsame : ∀ after, selectRows u actor filter s.journal cutoffSeq after =
        selectRows u actor filter journal cutoffSeq after := fun after => by
      rw [selectRows, selectRows, htake]
    rw [hafter, hposition, positionOf, selectRows_after hfilter hs.kept
      ((hsame none).trans hrows)] at hturns
    exact hturns
  · rw [hnewest, newestVisibleEventId, newestVisibleEventId, htake']

theorem Follow.behind {journal : List JournalEvent} {cutoffSeq : ℕ}
    (hfilter : Legible u filter) (hrole : actor.role = roleOf actor.userId)
    (hcutoff : cutoffSeq ≤ journal.length) {s s' : Site} {cursor last : Option CursorKey}
    {pages : List Page} (h : Follow u roleOf clock actor filter s cursor pages last s') :
    ∀ {key : CursorKey} {before rest : List JournalEvent} {row : JournalEvent},
      cursor = some key → Sound roleOf s → journal <+: s.journal →
      key.snapshotId.cutoffSeq = cutoffSeq → key.position = positionOf row →
      selectRows u actor filter journal cutoffSeq none = before ++ row :: rest →
        pages.flatMap (·.items) <+: rest ∧ (last = none → pages.flatMap (·.items) = rest) ∧
        (∀ page ∈ pages, page.newestEventId = newestVisibleEventId actor.role journal cutoffSeq) ∧
        ∀ page ∈ pages, ∀ key ∈ page.nextCursor, Owned actor filter key := by
  induction h with
  | @one s s' cursor limit page hpage =>
    rintro key before rest row rfl hs hjournal hkey hposition hrows
    obtain ⟨hturns, hnewest⟩ := hpage.behind hfilter hrole hcutoff hs hjournal hkey hposition hrows
    simp only [List.flatMap_cons, List.flatMap_nil, List.append_nil, List.forall_mem_singleton]
    refine ⟨hturns.initial, hturns.last, hnewest, fun key hkey => ?_⟩
    obtain ⟨_, _, howned, _⟩ := hturns.next key hkey
    exact howned
  | @more s s₁ s₂ s' cursor last limit page pages next hpage hnext hsteps _ ih =>
    rintro key before rest row rfl hs hjournal hkey hposition hrows
    obtain ⟨hturns, hnewest⟩ := hpage.behind hfilter hrole hcutoff hs hjournal hkey hposition hrows
    obtain ⟨before', row', rest', rfl, hitems, hposition'⟩ := hturns.split hnext
    obtain ⟨_, _, howned, hcutoff', _⟩ := hturns.next next hnext
    obtain ⟨hs₂, hjournal₂⟩ := hs.steps ((hpage.turns hrole hs).1.trans hsteps)
    obtain ⟨hinitial, hlast, hnewest', hkeys⟩ := ih rfl hs₂ (hjournal.trans hjournal₂) hcutoff'
      hposition' (show _ = (before ++ row :: before') ++ row' :: rest' by simpa using hrows)
    rw [List.flatMap_cons, hitems, List.append_assoc, List.singleton_append]
    simp only [List.forall_mem_cons]
    refine ⟨?_, fun hnone => ?_, ⟨hnewest, hnewest'⟩, ⟨fun other hother => ?_, hkeys⟩⟩
    · exact (List.prefix_append_right_inj _).mpr (List.cons_prefix_cons.mpr ⟨rfl, hinitial⟩)
    · rw [hlast hnone]
    · rw [hnext] at hother
      cases hother
      exact howned

/-! The life of a cursor. -/

structure Live (key : CursorKey) (s : Site) : Prop where
  cursor : ∃ cursor ∈ s.cursors, cursor.cursorId = key
  snapshot : ∃ snapshot ∈ s.snapshots, snapshot.snapshotId = key.snapshotId

theorem PageCall.live {s s' : Site} {request : PageRequest} {page : Page} {key : CursorKey}
    (h : PageCall u roleOf clock actor s request page s') (hkey : page.nextCursor = some key) :
    Live key s' := by
  have hcreated : ∀ {t t' : Site} {snapshot : AuditSnapshot} {position : Keyset} {now : Time}
      {key : CursorKey}, createAuditCursor actor request.filter snapshot position now t =
        .ok (key, t') → Live key t' := by
    intro t t' snapshot position now key hcreate
    obtain ⟨rfl, saved, hsaved, hid, _, _, rfl⟩ := create_ok hcreate
    exact ⟨⟨_, List.mem_append_right _ (List.mem_singleton_self _), rfl⟩, saved, hsaved, hid⟩
  cases h with
  | last _ _ => cases hkey
  | next _ _ _ _ _ _ hcreate =>
    cases hkey
    exact hcreated hcreate
  | first _ _ _ _ _ _ _ _ _ hcreate =>
    cases hkey
    exact hcreated hcreate

theorem maintain_live {key : CursorKey} {now : Time} {s : Site} (hs : Sound roleOf s)
    (hnow : now < key.snapshotId.expires) (h : Live key s) :
    Live key (deleteExpiredPages now s) := by
  obtain ⟨⟨cursor, hcursor, rfl⟩, snapshot, hsnapshot, hid⟩ := h
  obtain ⟨hexpires, hparts⟩ := hs.cursor cursor hcursor
  have hid' : cursor.snapshotId = snapshot.snapshotId := by rw [hid, hparts]
  have hexpires' : snapshot.expires = snapshot.snapshotId.expires := by
    rw [(hs.snapshot snapshot hsnapshot).1]
  rw [← hid] at hnow
  refine ⟨⟨cursor, List.mem_filter.mpr ⟨hcursor, decide_eq_true ?_⟩, rfl⟩, snapshot,
    List.mem_filter.mpr ⟨hsnapshot, decide_eq_true ?_⟩, hid⟩
  · rw [hexpires, hid']
    exact hnow
  · rw [hexpires']
    exact hnow

theorem Live.step {key : CursorKey} {s s' : Site} (hs : Sound roleOf s) (h : Live key s)
    (hstep : Step u roleOf (· < key.snapshotId.expires) s s') : Live key s' := by
  cases hstep with
  | append event _ _ => exact ⟨h.cursor, h.snapshot⟩
  | maintain now hnow => exact maintain_live hs hnow h
  | payload pages => exact ⟨h.cursor, h.snapshot⟩
  | @reserve _ _ _ _ now snapshot hnow _ _ hreserve =>
    have hlive := maintain_live hs hnow h
    obtain ⟨_, hcursors, _, _, _, hsnapshots⟩ := reserve_ok hreserve
    refine ⟨hcursors ▸ hlive.cursor, ?_⟩
    rcases hsnapshots with ⟨_, hsame⟩ | ⟨_, _, rfl⟩
    · exact hsame ▸ hlive.snapshot
    · obtain ⟨saved, hsaved, hid⟩ := hlive.snapshot
      by_cases heq : saved.snapshotId = snapshot.snapshotId
      · exact ⟨snapshot, List.mem_append_right _ (List.mem_singleton_self _), heq ▸ hid⟩
      · exact ⟨saved, List.mem_append_left _ (List.mem_filter.mpr ⟨hsaved, decide_eq_true heq⟩),
          hid⟩
  | @cursor _ actor query snapshot position _ _ _ hcreate =>
    obtain ⟨rfl, _, _, _, _, _, rfl⟩ := create_ok hcreate
    refine ⟨?_, h.snapshot⟩
    obtain ⟨saved, hsaved, hid⟩ := h.cursor
    by_cases heq : saved.cursorId = ⟨actor.userId, query, snapshot.snapshotId, position⟩
    · exact ⟨_, List.mem_append_right _ (List.mem_singleton_self _), heq ▸ hid⟩
    · exact ⟨saved, List.mem_append_left _ (List.mem_filter.mpr ⟨hsaved, decide_eq_true heq⟩), hid⟩

theorem Live.steps {key : CursorKey} {s s' : Site} (hs : Sound roleOf s) (h : Live key s)
    (hsteps : Steps u roleOf (· < key.snapshotId.expires) s s') : Live key s' := by
  induction hsteps with
  | refl => exact h
  | tail hsteps hstep ih => exact ih.step (hs.steps hsteps).1 hstep

theorem Live.accepted {key : CursorKey} {s : Site} (hs : Sound roleOf s) (h : Live key s)
    (howned : Owned actor filter key) {bounds : ℚ × ℚ}
    (hbounds : queryBounds actor filter = .ok bounds) {now : Time}
    (hnow : now < key.snapshotId.expires) (limit : ℕ) :
    ∃ reading, readPage u actor ⟨filter, some key, limit⟩ now s = .ok reading := by
  obtain ⟨cursor, hget⟩ : ∃ cursor, getCursor s key = some cursor := by
    obtain ⟨cursor, hcursor, hid⟩ := h.cursor
    exact Option.isSome_iff_exists.mp (List.find?_isSome.mpr ⟨cursor, hcursor, by simpa using hid⟩)
  obtain ⟨snapshot, hget'⟩ : ∃ snapshot, getSnapshot s key.snapshotId = some snapshot := by
    obtain ⟨snapshot, hsnapshot, hid⟩ := h.snapshot
    exact Option.isSome_iff_exists.mp
      (List.find?_isSome.mpr ⟨snapshot, hsnapshot, by simpa using hid⟩)
  have hid : cursor.cursorId = key := by simpa using List.find?_some hget
  have hid' : snapshot.snapshotId = key.snapshotId := by simpa using List.find?_some hget'
  obtain ⟨hexpires, hparts⟩ := hs.cursor cursor (List.mem_of_find?_eq_some hget)
  have hparts' := (hs.snapshot snapshot (List.mem_of_find?_eq_some hget')).1
  rw [hid] at hparts
  rw [hid'] at hparts'
  obtain ⟨howner, hquery, hsnapshotOwner, hsnapshotQuery⟩ := howned
  rw [hparts] at howner hquery hsnapshotOwner hsnapshotQuery hnow hget' hparts'
  dsimp only at howner hquery hsnapshotOwner hsnapshotQuery hnow hget' hparts'
  rw [hparts'] at hsnapshotOwner hsnapshotQuery hnow
  have hown : ¬(cursor.owner ≠ actor.userId ∨ cursor.query ≠ filter ∨ cursor.expires ≤ now) := by
    rw [hexpires, hparts']
    rintro (hne | hne | hle)
    · exact hne howner
    · exact hne hquery
    · exact not_lt.mpr hle hnow
  have hown' : ¬(snapshot.owner ≠ actor.userId ∨ snapshot.query ≠ filter ∨
      snapshot.expires ≤ now) := by
    rintro (hne | hne | hle)
    · exact hne hsnapshotOwner
    · exact hne hsnapshotQuery
    · exact not_lt.mpr hle hnow
  have hcursor : snapshotForCursor actor filter key now s = .ok (snapshot, cursor.position) := by
    unfold snapshotForCursor
    rw [hget]
    dsimp only
    rw [if_neg hown, hget']
    dsimp only
    rw [if_neg hown']
  unfold readPage pageStart
  simp only [hbounds, hcursor, bind, Except.bind, pure, Except.pure]
  exact ⟨_, rfl⟩

theorem refused {key : CursorKey} {s : Site} (hs : Sound roleOf s) (howned : Owned actor filter key)
    {other : Actor} {query : Filter} (hother : other.userId ≠ actor.userId ∨ query ≠ filter)
    (limit : ℕ) (now : Time) (reading : Reading) :
    readPage u other ⟨query, some key, limit⟩ now s ≠ .ok reading := by
  intro h
  obtain ⟨_, start, hstart, _⟩ := readPage_ok h
  obtain ⟨⟨found, position⟩, hfound, _⟩ := bind_eq_ok.mp hstart
  unfold snapshotForCursor at hfound
  split at hfound
  · cases hfound
  · rename_i saved hsaved
    split at hfound
    · cases hfound
    · rename_i hown
      have hid : saved.cursorId = key := by simpa using List.find?_some hsaved
      have hparts := (hs.cursor saved (List.mem_of_find?_eq_some hsaved)).2
      have howner : saved.owner = actor.userId := by
        rw [← howned.owner, ← hid, hparts]
      have hquery : saved.query = filter := by
        rw [← howned.query, ← hid, hparts]
      refine hown (hother.imp (fun hne heq => hne ?_) fun hne => .inl fun heq => hne ?_)
      · rw [← howner, heq]
      · rw [← hquery, heq]

/-! A whole walk. -/

theorem Follow.steps (hrole : actor.role = roleOf actor.userId) {s s' : Site}
    {cursor last : Option CursorKey} {pages : List Page}
    (h : Follow u roleOf clock actor filter s cursor pages last s') :
    Sound roleOf s → Steps u roleOf clock s s' ∧ ∀ key ∈ last, Live key s' := by
  induction h with
  | one hpage => exact fun hs => ⟨(hpage.turns hrole hs).1, fun key hkey => hpage.live hkey⟩
  | more hpage _ hsteps _ ih =>
    intro hs
    have hsteps' := (hpage.turns hrole hs).1.trans hsteps
    obtain ⟨hrest, hlive⟩ := ih (hs.steps hsteps').1
    exact ⟨hsteps'.trans hrest, hlive⟩

theorem Follow.last {s s' : Site} {cursor last : Option CursorKey} {pages : List Page}
    (h : Follow u roleOf clock actor filter s cursor pages last s') {key : CursorKey}
    (hkey : key ∈ last) : ∃ page ∈ pages, key ∈ page.nextCursor := by
  induction h with
  | @one _ _ _ _ page _ => exact ⟨page, List.mem_singleton_self _, hkey⟩
  | more _ _ _ _ ih =>
    obtain ⟨page, hpage, hnext⟩ := ih hkey
    exact ⟨page, List.mem_cons_of_mem _ hpage, hnext⟩

structure Walk (u : Library) (actor : Actor) (filter : Filter) (journal : List JournalEvent)
    (events : List JournalEvent) (pages : List Page) (last : Option CursorKey) : Prop where
  bounds : ∃ bounds, queryBounds actor filter = .ok bounds
  initial : pages.flatMap (·.items) <+: events
  whole : last = none → pages.flatMap (·.items) = events
  newest : ∀ page ∈ pages, page.newestEventId =
    newestVisibleEventId actor.role journal (visibleCutoff actor.role journal)
  owned : ∀ page ∈ pages, ∀ key ∈ page.nextCursor, Owned actor filter key

theorem Follow.walk (hfilter : Legible u filter) (hrole : actor.role = roleOf actor.userId)
    {s s' : Site} (hs : Sound roleOf s) {pages : List Page} {last : Option CursorKey}
    (h : Follow u roleOf clock actor filter s none pages last s') :
    Walk u actor filter s.journal
      (selectRows u actor filter s.journal (visibleCutoff actor.role s.journal) none) pages
      last := by
  cases h with
  | @one _ _ _ limit page hpage =>
    obtain ⟨_, hbounds, _, _, _, hstart, hturns⟩ := hpage.turns hrole hs
    obtain ⟨rfl, hrest⟩ := Prod.mk.inj (Except.ok.inj hstart)
    obtain ⟨hnewest, rfl⟩ := Prod.mk.inj hrest
    refine ⟨hbounds, ?_, ?_, ?_, ?_⟩
    · simpa using hturns.initial
    · simpa using hturns.last
    · simpa using hnewest.symm
    · simp only [List.forall_mem_singleton]
      intro key hkey
      obtain ⟨_, _, howned, _⟩ := hturns.next key hkey
      exact howned
  | @more _ s₁ s₂ _ _ _ limit page pages next hpage hnext hsteps hfollow =>
    obtain ⟨hsteps', hbounds, _, _, _, hstart, hturns⟩ := hpage.turns hrole hs
    obtain ⟨rfl, hrest⟩ := Prod.mk.inj (Except.ok.inj hstart)
    obtain ⟨hnewest, rfl⟩ := Prod.mk.inj hrest
    obtain ⟨before, row, rest, hrows, hitems, hposition⟩ := hturns.split hnext
    obtain ⟨_, _, howned, hcutoff, _⟩ := hturns.next next hnext
    obtain ⟨hs₂, hjournal⟩ := hs.steps (hsteps'.trans hsteps)
    obtain ⟨hinitial, hwhole, hnewest', howned'⟩ := hfollow.behind hfilter hrole
      (visibleCutoff_le _ _) rfl hs₂ hjournal hcutoff hposition hrows
    rw [Option.map_none] at hrows
    rw [hrows]
    refine ⟨hbounds, ?_, fun hnone => ?_, ?_, ?_⟩
    · rw [List.flatMap_cons, hitems, List.append_assoc, List.singleton_append]
      exact (List.prefix_append_right_inj _).mpr (List.cons_prefix_cons.mpr ⟨rfl, hinitial⟩)
    · rw [List.flatMap_cons, hitems, hwhole hnone, List.append_assoc, List.singleton_append]
    · exact List.forall_mem_cons.mpr ⟨hnewest.symm, hnewest'⟩
    · refine List.forall_mem_cons.mpr ⟨fun key hkey => ?_, howned'⟩
      rw [hnext] at hkey
      cases hkey
      exact howned

theorem Sound.empty {journal : List JournalEvent} (hkept : Kept journal) :
    Sound roleOf ⟨journal, [], [], []⟩ :=
  ⟨hkept, fun _ hmem => absurd hmem List.not_mem_nil, fun _ hmem => absurd hmem List.not_mem_nil⟩

/-- The pages that a client gets by following cursors are the events of `query_events` at the
first page, each cursor serves its owner and its query only, and until it expires it serves
them. -/
theorem audit_pages {journal : List JournalEvent} {s s' : Site} {pages : List Page}
    {last : Option CursorKey} (hfilter : Legible u filter)
    (hrole : actor.role = roleOf actor.userId) (hkept : Kept journal)
    (hreach : Steps u roleOf clock ⟨journal, [], [], []⟩ s)
    (h : Follow u roleOf clock actor filter s none pages last s') :
    (∃ events, queryEvents u actor filter (visibleEvents actor s.journal) = .ok events ∧
      (events.map (·.eventId)).Nodup ∧ pages.flatMap (·.items) <+: events ∧
        (last = none → pages.flatMap (·.items) = events)) ∧
    (∃ newest, ∀ page ∈ pages, page.newestEventId = newest) ∧
    (∀ page ∈ pages, ∀ key ∈ page.nextCursor, ∀ later, Steps u roleOf clock s later →
      ∀ (other : Actor) (query : Filter), other.userId ≠ actor.userId ∨ query ≠ filter →
        ∀ limit now reading,
          readPage u other ⟨query, some key, limit⟩ now later ≠ .ok reading) ∧
    (∀ key ∈ last, ∀ later, Steps u roleOf (· < key.snapshotId.expires) s' later →
      ∀ limit now, now < key.snapshotId.expires →
        ∃ reading, readPage u actor ⟨filter, some key, limit⟩ now later = .ok reading) := by
  have hs := ((Sound.empty hkept).steps hreach).1
  obtain ⟨⟨bounds, hbounds⟩, hinitial, hwhole, hnewest, howned⟩ := h.walk hfilter hrole hs
  obtain ⟨hsteps, hlive⟩ := h.steps hrole hs
  refine ⟨⟨_, queryEvents_eq hfilter hs.kept hbounds, ?_, hinitial, hwhole⟩, ⟨_, hnewest⟩, ?_, ?_⟩
  · have hperm := List.perm_insertionSort (fun a b => sqlKey b ≤ sqlKey a)
      ((s.journal.take (visibleCutoff actor.role s.journal)).filter
        (whereClause u actor filter none))
    refine (hperm.map (·.eventId)).nodup_iff.mpr (hs.kept.distinct.sublist ?_)
    exact (List.filter_sublist.trans (List.take_sublist ..)).map _
  · intro page hpage key hkey later hlater other query hother limit now reading
    exact refused (hs.steps hlater).1 (howned page hpage key hkey) hother limit now reading
  · intro key hkey later hlater limit now hnow
    have hs' := (hs.steps hsteps).1
    obtain ⟨page, hpage, hnext⟩ := h.last hkey
    exact ((hlive key hkey).steps hs' hlater).accepted (hs'.steps hlater).1
      (howned page hpage key hnext) hbounds hnow limit

/-! Small journals. -/

def ascii : Library where
  casefold text := text.map Char.toLower
  snapshotBytes owner _ _ _ _ := 300 + owner.length

def auditor : Actor := ⟨"user-1".toList, "first".toList, "First".toList, .admin⟩

def published (eventId : Text) (occurredAt : Text) : JournalEvent where
  eventId := eventId
  occurredAt := occurredAt
  actor := some "user-2".toList
  category := .business
  action := .dictionaryPublished
  result := .success
  companyId := some "company-1".toList
  source := none
  target := some "Archive/Atlas".toList

def period («from» «to» : Text) : Filter :=
  ⟨none, «from», «to», none, none, none, []⟩

def morning (second microsecond : ℕ) : Text := utc ⟨2026, 1, 1, 9, 0, second⟩ microsecond

def smallJournal : List JournalEvent :=
  [published "event-1".toList (morning 1 5), published "event-2".toList (morning 1 5)]

def smallFilter : Filter := period (morning 0 0) (morning 2 0)

def smallSite : Site := ⟨smallJournal, [], [], []⟩

def smallSnapshot : AuditSnapshot where
  snapshotId := ⟨"user-1".toList, smallFilter, 2, 86400000000⟩
  owner := "user-1".toList
  query := smallFilter
  cutoffSeq := 2
  newestEventId := some "event-2".toList
  expires := 86400000000
  payloadBytes := 306

def smallKey : CursorKey :=
  ⟨"user-1".toList, smallFilter, smallSnapshot.snapshotId, ⟨morning 1 5, "event-2".toList⟩⟩

def smallCursor : AuditCursor where
  cursorId := smallKey
  owner := "user-1".toList
  query := smallFilter
  snapshotId := smallSnapshot.snapshotId
  expires := 86400000000
  position := ⟨morning 1 5, "event-2".toList⟩

instance (instant : ℤ) : Decidable (Recent instant) :=
  inferInstanceAs (Decidable (_ ∧ _))

theorem smallJournal_kept : Kept smallJournal := by
  refine ⟨fun event hevent => ?_, by decide⟩
  have hwritten : event.occurredAt = morning 1 5 := by
    rcases List.mem_pair.mp hevent with rfl | rfl <;> rfl
  exact ⟨⟨2026, 1, 1, 9, 0, 1⟩, 5,
    ⟨by decide, by decide, by decide, by decide, by decide, by decide, by decide⟩,
    by decide, by decide, hwritten, by decide +kernel⟩

theorem morning_readable {second : ℕ} (h : second < 60) : Readable (morning second 0) :=
  have hvalid : Civil.Valid ⟨2026, 1, 1, 9, 0, second⟩ :=
    ⟨show 1 ≤ 1 by decide, show 1 ≤ 12 by decide, show 1 ≤ 1 by decide, show 1 ≤ 31 by decide,
      show 9 < 24 by decide, show 0 < 60 by decide, h⟩
  have hyear : 2026 < 10000 := by decide
  ⟨stamp ⟨2026, 1, 1, 9, 0, second⟩ 0, stamp_valid hvalid (show 1 ≤ 2026 by decide) hyear 0,
    stamp_normal hvalid hyear 0, stamp_text _ _⟩

theorem smallFilter_legible : Legible ascii smallFilter where
  «from» := morning_readable (by decide)
  «to» := morning_readable (by decide)
  casefold text := by simp [ascii]

def smallPages : List Page :=
  [⟨[published "event-2".toList (morning 1 5)], some smallKey, some "event-2".toList⟩,
    ⟨[published "event-1".toList (morning 1 5)], none, some "event-2".toList⟩]

def pagedSite : Site := { smallSite with snapshots := [smallSnapshot], cursors := [smallCursor] }

theorem smallFollow : Follow ascii (fun _ => .admin) (fun _ => True) auditor smallFilter smallSite
    none smallPages none pagedSite := by
  have hread : readPage ascii auditor ⟨smallFilter, none, 1⟩ 0 smallSite =
      .ok ⟨[published "event-2".toList (morning 1 5)], true, 2, some "event-2".toList, none⟩ := by
    decide +kernel
  have hread' : readPage ascii auditor ⟨smallFilter, some smallKey, 1⟩ 0 pagedSite =
      .ok ⟨[published "event-1".toList (morning 1 5)], false, 2, some "event-2".toList,
        some smallSnapshot⟩ := by
    decide +kernel
  have hreserve : reserveAuditSnapshot ascii auditor smallFilter 2 (some "event-2".toList) 0
      smallSite = .ok (smallSnapshot, { smallSite with snapshots := [smallSnapshot] }) := rfl
  have hcreate : createAuditCursor auditor smallFilter smallSnapshot
      (positionOf (published "event-2".toList (morning 1 5))) 0
        { smallSite with snapshots := [smallSnapshot] } = .ok (smallKey, pagedSite) := rfl
  exact .more (.first hread rfl rfl rfl .refl trivial hreserve .refl trivial hcreate) rfl .refl
    (.one (.last hread' rfl))

theorem audit_pages_small :
    queryEvents ascii auditor smallFilter (visibleEvents auditor smallJournal) =
        .ok (smallPages.flatMap (·.items)) ∧
      ∀ (other : Actor) (query : Filter), other.userId ≠ auditor.userId ∨ query ≠ smallFilter →
        ∀ limit now reading,
          readPage ascii other ⟨query, some smallKey, limit⟩ now pagedSite ≠ .ok reading := by
  have hwalk := audit_pages smallFilter_legible rfl smallJournal_kept .refl smallFollow
  obtain ⟨⟨events, hevents, _, _, hwhole⟩, _, hrefused, _⟩ := hwalk
  refine ⟨hwhole rfl ▸ hevents, ?_⟩
  exact hrefused _ (List.mem_cons_self ..) smallKey rfl pagedSite
    (smallFollow.steps rfl (.empty smallJournal_kept)).1

/-- The instant of its end lies in the year 10000. -/
def lateFilter : Filter := period (morning 0 0) "9999-12-31T23:59:59-01:00".toList

/-- Two events of neighbouring microseconds, past the reach of a double. -/
def farJournal : List JournalEvent :=
  [published "event-2".toList (utc ⟨2300, 1, 1, 0, 0, 0⟩ 1),
    published "event-1".toList (utc ⟨2300, 1, 1, 0, 0, 0⟩ 2)]

def farFilter : Filter := period (morning 0 0) (utc ⟨2400, 1, 1, 0, 0, 0⟩ 0)

/-- The pages of a period that ends past the year 9999 are empty; past the reach of a double two
microseconds change their order. -/
theorem audit_pages_apart :
    (readPage ascii auditor ⟨lateFilter, none, 10⟩ 0 smallSite =
        .ok ⟨[], false, 2, some "event-2".toList, none⟩ ∧
      queryEvents ascii auditor lateFilter (visibleEvents auditor smallJournal) =
        .ok smallJournal.reverse) ∧
    (readPage ascii auditor ⟨farFilter, none, 10⟩ 0 ⟨farJournal, [], [], []⟩ =
        .ok ⟨farJournal.reverse, false, 2, some "event-1".toList, none⟩ ∧
      queryEvents ascii auditor farFilter (visibleEvents auditor farJournal) =
        .ok farJournal) := by
  decide +kernel

end AuditSnapshots
