import WiseWay.LargeRuns
import WiseWay.Variants

/-! # Undisturbed large scans

`LargeIndexer.scan` from its beginning to its end while nothing else happens, after any history of
stops, failures and crashes. It ends, and it publishes the tree unless an earlier clean-up has left
the generation of that very tree behind. -/
namespace UndisturbedScans

open Records EntryIds LargeIdentity SearchTables SearchGenerations Sweeps LargeScans LargeRuns
open Search hiding Row Location
open SearchGenerations hiding Rows
open LargePublication hiding play play_run
open Fallible (toOption_some)

variable {v : Site} {s t before : LargeScans.State} {root : Config} {runId : Text}
  {listing : List Row} {now : Time} {scan : LargeScans.Scan} {a b : Tables Generation}

/-- What `scan` does next. -/
def next (listing : List Row) (now : Time) (s : LargeScans.State) (scan : LargeScans.Scan) :
    LargeScans.Event :=
  match scan.phase with
  | .discarding [] => .insertRun
  | .discarding _ => .discard
  | .staging count =>
    match (listing.drop count).take writeBatchSize with
    | [] => .walked
    | batch => .stage batch
  | .staged => if unchanged s scan then .complete now else .assign
  | .interrupted => .fail
  | .assigned _ => .create
  | .building _ _ => .build
  | .built _ => .publish now
  | .unchanged => .discard
  | .cleaning [] => .crash
  | .cleaning _ => .discard

/-- Where an exception leads: before there is a run, and in the clean-up, it is not recorded. -/
def raised (scan : LargeScans.Scan) : LargeScans.Event :=
  if scan.phase.working then .fail else .crash

def turn (v : Site) (listing : List Row) (now : Time) (s : LargeScans.State) :
    Option LargeScans.State :=
  s.scan.bind fun scan =>
    (step v s (next listing now s scan)).orElse fun _ => step v s (raised scan)

def entriesFor (listing : List Row) : Scanned := listing.foldl insertEntry ∅

def fingerprintOf (root : Config) (listing : List Row) : Observation :=
  ⟨root, rows (entriesFor listing)⟩

def generationFor (root : Config) (listing : List Row) : Generation :=
  ⟨root.rootId, fingerprintOf root listing⟩

/-- A tree without files of one path, whose files can be indexed. -/
structure Listing (v : Site) (root : Config) (listing : List Row) : Prop where
  distinct : (listing.map Prod.fst).Nodup
  named : ∀ row ∈ listing, row.1 ≠ []
  buildable : ∀ row ∈ listing, ∀ itemId, ∃ item,
    buildItem v.library root.rootId root.displayPrefix root.schema
      ⟨row.1, row.2.size, v.modifiedAt row.2.mtimeNs, itemId⟩ = .ok item
  dated : ∀ row ∈ listing, ∃ key,
    SearchText.instantSortKey v.library.toUnicode (v.modifiedAt row.2.mtimeNs) = .ok key

/-- The published index of the root has the fingerprint. -/
def Shown (s : LargeScans.State) (rootId : Text) (fingerprint : Observation) : Prop :=
  ∃ row p, s.index[rootId]? = some row ∧ row.contents = .sqlite p ∧
    p.fingerprintDigest = fingerprint

/-- The generation is left, and no discarding before a scan removes it. -/
def LeftBehind (s : LargeScans.State) (g : Generation) : Prop :=
  (∃ row ∈ s.tables.generations, row.generationId = g) ∧
    ∀ (runId : Text) run, s.runs[runId]? = some run → run.state ≠ .published →
      run.generation ≠ some g

/-- The published index of the root has the fingerprint and is fresh. -/
def Current (s : LargeScans.State) (rootId : Text) (fingerprint : Observation) : Prop :=
  ∃ row p, s.index[rootId]? = some row ∧ row.contents = .sqlite p ∧
    p.fingerprintDigest = fingerprint ∧ row.freshness.status = .current

def Possible (s : LargeScans.State) (root : Config) (listing : List Row) : Prop :=
  Shown s root.rootId (fingerprintOf root listing) ∨ ¬LeftBehind s (generationFor root listing)

/-- Nothing of the root has been published, and the same generation is left. -/
structure Same (before s : LargeScans.State) (root : Config) (listing : List Row) : Prop where
  contents : (s.index[root.rootId]?).map IndexRow.contents =
    (before.index[root.rootId]?).map IndexRow.contents
  left : LeftBehind s (generationFor root listing) ↔ LeftBehind before (generationFor root listing)

def Underway (root : Config) (listing : List Row) (before s : LargeScans.State)
    (scan : LargeScans.Scan) : Prop :=
  scan.root = root ∧ s.roots[root.rootId]? = some root ∧
    match scan.phase with
    | .discarding runIds => Same before s root listing ∧ ∀ runId ∈ runIds, ∀ run,
        s.runs[runId]? = some run → run.state ≠ .published
    | .staging count => Same before s root listing ∧ Owned s scan ∧
        entriesOf s scan.runId = entriesFor (listing.take count)
    | .staged => Same before s root listing ∧ Owned s scan ∧
        entriesOf s scan.runId = entriesFor listing
    | .interrupted => False
    | .assigned _ => Same before s root listing ∧ Owned s scan ∧
        ¬Shown before root.rootId (fingerprintOf root listing) ∧
        data (entriesOf s scan.runId) = data (entriesFor listing)
    | .building _ _ => Possible before root listing ∧ Owned s scan ∧
        data (entriesOf s scan.runId) = data (entriesFor listing)
    | .built _ => Possible before root listing ∧ Owned s scan ∧
        data (entriesOf s scan.runId) = data (entriesFor listing)
    | .unchanged => Possible before root listing ∧
        Current s root.rootId (fingerprintOf root listing)
    | .cleaning _ => Possible before root listing ∧
        Current s root.rootId (fingerprintOf root listing)

def Ended (root : Config) (listing : List Row) (before t : LargeScans.State) : Prop :=
  (Possible before root listing ∧ Current t root.rootId (fingerprintOf root listing)) ∨
    (¬Possible before root listing ∧ ¬Shown t root.rootId (fingerprintOf root listing) ∧
      LeftBehind t (generationFor root listing))

def Onward (root : Config) (listing : List Row) (before s : LargeScans.State) : Prop :=
  match s.scan with
  | some scan => Underway root listing before s scan
  | none => Ended root listing before s

/-! Discarding. -/

theorem discardEntries_frame (runId : Text) (s : LargeScans.State) :
    (discardEntries runId s).2.roots = s.roots ∧
      (discardEntries runId s).2.progress = s.progress ∧
      (discardEntries runId s).2.tables = s.tables := by
  unfold discardEntries
  split <;> exact ⟨rfl, rfl, rfl⟩

theorem discardRun_frame {done : Bool} (h : discardRun runId s = some (done, t)) :
    t.roots = s.roots ∧ t.progress = s.progress := by
  unfold discardRun at h
  split at h
  · cases h
    exact ⟨rfl, rfl⟩
  · split at h
    · have hframe := discardEntries_frame runId s
      rw [Option.some.inj h] at hframe
      exact ⟨hframe.1, hframe.2.1⟩
    · split at h
      · cases h
      · cases h
        exact ⟨rfl, rfl⟩
      · rename_i tables hdelete
        have hframe := discardEntries_frame runId { s with tables := tables }
        rw [Option.some.inj h] at hframe
        exact ⟨hframe.1, hframe.2.1⟩

/-- The rows that a discarded run has still to lose. -/
def weight (s : LargeScans.State) (runId : Text) : ℕ :=
  s.tables.items.length + (allPaths (entriesOf s runId)).length

theorem foldl_erase_get (batch : List Text) (found : Scanned) (path : Text) :
    (batch.foldl (fun run path => run.erase path) found)[path]? =
      if path ∈ batch then none else found[path]? := by
  induction batch generalizing found with
  | nil => simp
  | cons first batch ih =>
    rw [List.foldl_cons, ih, Std.ExtTreeMap.getElem?_erase]
    by_cases hmem : path ∈ batch
    · simp [hmem]
    · by_cases hfirst : path = first
      · subst hfirst
        simp
      · simp [hmem, hfirst, Ne.symm hfirst]

theorem mem_allPaths {found : Scanned} {path : Text} :
    path ∈ allPaths found ↔ found[path]? ≠ none := by
  rw [allPaths, mem_paths]
  cases hfound : found[path]? <;> simp

theorem allPaths_nodup (found : Scanned) : (allPaths found).Nodup :=
  (paths_all_sorted found).imp fun hlt => ne_of_lt hlt

theorem entriesOf_insert (s : LargeScans.State) (runId : Text) (found : Scanned) :
    entriesOf { s with entries := s.entries.insert runId found } runId = found := by
  rw [entriesOf, get_put, if_pos rfl]
  rfl

theorem erased_less {batch : List Text} {found : Scanned} (hsub : batch ⊆ allPaths found)
    (hbatch : batch ≠ []) :
    (allPaths (batch.foldl (fun run path => run.erase path) found)).length <
      (allPaths found).length := by
  obtain ⟨path, hpath⟩ := List.exists_mem_of_ne_nil _ hbatch
  have hkept : path :: allPaths (batch.foldl (fun run path => run.erase path) found) ⊆
      allPaths found := by
    intro other hother
    rcases List.mem_cons.mp hother with rfl | hother
    · exact hsub hpath
    · rw [mem_allPaths, foldl_erase_get] at hother
      rw [mem_allPaths]
      split at hother
      · exact absurd rfl hother
      · exact hother
  have hnodup : (path :: allPaths (batch.foldl (fun run path => run.erase path) found)).Nodup := by
    refine List.nodup_cons.mpr ⟨fun hmem => ?_, allPaths_nodup _⟩
    rw [mem_allPaths, foldl_erase_get, if_pos hpath] at hmem
    exact hmem rfl
  exact (List.subperm_of_subset hnodup hkept).length_le

theorem discardEntries_less (h : discardEntries runId s = (false, t)) :
    weight t runId < weight s runId := by
  unfold discardEntries at h
  split at h
  · cases h
  · rename_i batch hbatch
    cases h
    rw [weight, entriesOf_insert]
    exact Nat.add_lt_add_left (erased_less (List.take_subset ..) hbatch) _

theorem deleted_less {g : Generation} {batchSize : ℕ} {done : Bool}
    (h : Deleted a g batchSize done b) : b.items.length ≤ a.items.length ∧
      (done = false → b.items.length < a.items.length) := by
  cases h with
  | absent _ => exact ⟨le_rfl, fun hfalse => by cases hfalse⟩
  | last _ _ _ => exact ⟨List.length_filter_le .., fun hfalse => by cases hfalse⟩
  | batch _ _ hrows =>
    refine ⟨List.length_filter_le .., fun _ => ?_⟩
    obtain ⟨row, hrow⟩ := List.exists_mem_of_ne_nil _ hrows
    refine List.length_filter_lt_length_iff_exists.mpr
      ⟨row, (List.mem_filter.mp (List.mem_of_mem_take hrow)).1, ?_⟩
    simpa using ⟨row, hrow, rfl⟩

theorem discardRun_less (h : discardRun runId s = some (false, t)) :
    weight t runId < weight s runId := by
  unfold discardRun at h
  split at h
  · cases h
  · split at h
    · exact discardEntries_less (Option.some.inj h)
    · split at h
      · cases h
      · rename_i tables hdelete
        cases h
        exact Nat.add_lt_add_right ((deleted_less (deleteGeneration_ok hdelete).2.2).2 rfl) _
      · rename_i tables hdelete
        have hless := discardEntries_less (Option.some.inj h)
        have hitems := (deleted_less (deleteGeneration_ok hdelete).2.2).1
        have hfound : weight { s with tables := tables } runId ≤ weight s runId :=
          Nat.add_le_add_right hitems _
        omega

/-- A run can be discarded if its generation is not active. -/
theorem discardRun_total (hsound : Sound v s) (h : ∀ run, s.runs[runId]? = some run →
    ∀ row ∈ s.tables.generations, run.generation = some row.generationId → row.state ≠ .active) :
    ∃ done t, discardRun runId s = some (done, t) := by
  unfold discardRun
  split
  · exact ⟨true, s, rfl⟩
  · rename_i run hrun
    split
    · exact ⟨_, _, rfl⟩
    · rename_i g hg
      split
      · rename_i error hdelete
        exfalso
        unfold deleteGeneration at hdelete
        rw [if_neg (by omega)] at hdelete
        split at hdelete
        · cases hdelete
        · rename_i row hrow
          obtain ⟨hmem, hid⟩ := (mem_generations hsound.settled.consistent.unique).mp hrow
          rw [if_neg (h run hrun row hmem (hid ▸ hg))] at hdelete
          split at hdelete
          · -- The generation of an index row is active.
            rename_i hpointed
            obtain ⟨found, hfound, hcontents⟩ := List.mem_filterMap.mp hpointed
            obtain ⟨rootId, hindex⟩ := mem_list.mp hfound
            unfold Contents.generation at hcontents
            split at hcontents
            · rename_i p hp
              cases hcontents
              have hactive := (hsound.published rootId found p hindex hp).active
              obtain rfl := hsound.settled.unique hmem hactive hid
              exact h run hrun _ hmem (hid ▸ hg) rfl
            · cases hcontents
          · dsimp only at hdelete
            split at hdelete <;> cases hdelete
      · exact ⟨_, _, rfl⟩
      · exact ⟨_, _, rfl⟩

/-! Turns. -/

/-- The phase, what is left of it, and what is left of the first run. -/
def variantOf (listing : List Row) (s : LargeScans.State) (scan : LargeScans.Scan) :
    ℕ ×ₗ ℕ ×ₗ ℕ :=
  match scan.phase with
  | .interrupted => toLex (9, toLex (0, 0))
  | .discarding runIds => toLex (8, toLex (runIds.length, weight s (runIds.headD [])))
  | .staging count => toLex (7, toLex (listing.length - count, 0))
  | .staged => toLex (6, toLex (0, 0))
  | .assigned _ => toLex (5, toLex (0, 0))
  | .building _ lastPath =>
    toLex (4, toLex (ahead lastPath (allPaths (entriesOf s scan.runId)), 0))
  | .built _ => toLex (3, toLex (0, 0))
  | .cleaning runIds => toLex (2, toLex (runIds.length, weight s (runIds.headD [])))
  | .unchanged => toLex (1, toLex (0, weight s scan.runId))

def variant (listing : List Row) (s : LargeScans.State) : ℕ ×ₗ ℕ ×ₗ ℕ :=
  match s.scan with
  | some scan => variantOf listing s scan
  | none => toLex (0, toLex (0, 0))

theorem phase_less {m n : ℕ} {x y : ℕ ×ₗ ℕ} (h : m < n) : toLex (m, x) < toLex (n, y) :=
  Prod.Lex.toLex_lt_toLex.mpr (.inl h)

theorem list_less {n i j k l : ℕ} (h : i < j) :
    toLex (n, toLex (i, k)) < toLex (n, toLex (j, l)) :=
  Prod.Lex.toLex_lt_toLex.mpr (.inr ⟨rfl, Prod.Lex.toLex_lt_toLex.mpr (.inl h)⟩)

theorem weight_less {n i k l : ℕ} (h : k < l) :
    toLex (n, toLex (i, k)) < toLex (n, toLex (i, l)) :=
  Prod.Lex.toLex_lt_toLex.mpr (.inr ⟨rfl, Prod.Lex.toLex_lt_toLex.mpr (.inr ⟨rfl, h⟩)⟩)

def Turned (v : Site) (root : Config) (listing : List Row) (now : Time)
    (before s : LargeScans.State) : Prop :=
  ∃ t, turn v listing now s = some t ∧ Onward root listing before t ∧
    variant listing t < variant listing s

theorem turned_scan {phase : LargeScans.Phase} (hscan : s.scan = some scan)
    (hstep : step v s (next listing now s scan) = some t)
    (hnow : t.scan = some { scan with phase := phase })
    (hunderway : Underway root listing before t { scan with phase := phase })
    (hless : variantOf listing t { scan with phase := phase } < variantOf listing s scan) :
    Turned v root listing now before s := by
  refine ⟨t, ?_, ?_, ?_⟩
  · rw [turn, hscan, Option.bind_some, hstep]
    rfl
  · rw [Onward, hnow]
    exact hunderway
  · rw [variant, variant, hnow, hscan]
    exact hless

theorem variantOf_pos (s : LargeScans.State) (scan : LargeScans.Scan) :
    toLex (0, toLex (0, 0)) < variantOf listing s scan := by
  unfold variantOf
  split <;> exact phase_less (by omega)

theorem turned_end (hscan : s.scan = some scan)
    (hstep : step v s (next listing now s scan) = some t) (hnow : t.scan = none)
    (hended : Ended root listing before t) : Turned v root listing now before s := by
  refine ⟨t, ?_, ?_, ?_⟩
  · rw [turn, hscan, Option.bind_some, hstep]
    rfl
  · rw [Onward, hnow]
    exact hended
  · rw [variant, variant, hnow, hscan]
    exact variantOf_pos s scan

theorem turned_raised (hscan : s.scan = some scan)
    (hnone : step v s (next listing now s scan) = none) (hstep : step v s (raised scan) = some t)
    (hnow : t.scan = none) (hended : Ended root listing before t) :
    Turned v root listing now before s := by
  refine ⟨t, ?_, ?_, ?_⟩
  · rw [turn, hscan, Option.bind_some, hnone]
    exact hstep
  · rw [Onward, hnow]
    exact hended
  · rw [variant, variant, hnow, hscan]
    exact variantOf_pos s scan

/-! Before the run. -/

theorem discardEntries_others (runId : Text) (s : LargeScans.State) :
    (discardEntries runId s).2.tables = s.tables := (discardEntries_frame runId s).2.2

theorem discardRun_others {done : Bool} (hd : discardRun runId s = some (done, t))
    {row : GenerationRow Generation} (hrow : row ∈ s.tables.generations)
    (hother : ∀ run, s.runs[runId]? = some run → run.generation ≠ some row.generationId) :
    row ∈ t.tables.generations := by
  unfold discardRun at hd
  split at hd
  · cases hd
    exact hrow
  · rename_i run hrun
    split at hd
    · have htables := discardEntries_others runId s
      rw [Option.some.inj hd] at htables
      rw [htables]
      exact hrow
    · rename_i g hg
      have hne : row.generationId ≠ g := fun heq => hother run hrun (heq ▸ hg)
      split at hd
      · cases hd
      · rename_i tables hdelete
        cases hd
        exact (deleteGeneration_ok hdelete).2.2.generations.2 row hrow hne
      · rename_i tables hdelete
        have htables := discardEntries_others runId { s with tables := tables }
        rw [Option.some.inj hd] at htables
        rw [htables]
        exact (deleteGeneration_ok hdelete).2.2.generations.2 row hrow hne

theorem left_discard {done : Bool} {g : Generation} (hd : discardRun runId s = some (done, t))
    (hopen : ∀ run, s.runs[runId]? = some run → run.state ≠ .published) :
    LeftBehind t g ↔ LeftBehind s g := by
  have hdiscarded := discardRun_discarded hd
  constructor
  · rintro ⟨⟨row, hrow, rfl⟩, hothers⟩
    obtain ⟨old, hold, hid⟩ := hdiscarded.calm.ids row hrow
    refine ⟨⟨old, hold, hid⟩, fun other run hrun hstate hg => ?_⟩
    rcases hdiscarded.runs with hruns | ⟨hruns, _, hgone⟩
    · exact hothers other run (hruns ▸ hrun) hstate hg
    · by_cases heq : runId = other
      · subst heq
        exact hgone run hrun row hrow hg
      · refine hothers other run ?_ hstate hg
        rw [hruns, Std.ExtTreeMap.getElem?_erase, if_neg (by simpa using heq)]
        exact hrun
  · rintro ⟨⟨row, hrow, rfl⟩, hothers⟩
    refine ⟨⟨row, discardRun_others hd hrow fun run hrun =>
      hothers runId run hrun (hopen run hrun), rfl⟩, fun other run hrun => ?_⟩
    exact hothers other run (hdiscarded.kin hrun)

theorem turned_discarding (hsound : Sound v s) (htidy : Tidy v s) (hscan : s.scan = some scan)
    {runIds : List Text} (hphase : scan.phase = .discarding (runId :: runIds))
    (h : Underway root listing before s scan) : Turned v root listing now before s := by
  obtain ⟨hroot, hroots, h⟩ := h
  rw [hphase] at h
  obtain ⟨hsame, hopen⟩ := h
  have hmine := hopen runId (List.mem_cons_self ..)
  obtain ⟨done, u, hu⟩ := discardRun_total hsound fun run hrun row hrow hg =>
    htidy.inactive runId run hrun (hmine run hrun) row hrow hg
  have hleft := discardRun_discards hsound.settled hu
  have hdiscarded := discardRun_discarded hu
  have hstep : step v s (next listing now s scan) =
      some (setPhase (.discarding (if done then runIds else runId :: runIds)) u) := by
    unfold step stepScan
    simp [next, hphase, hscan, discardNext, hu]
  refine turned_scan hscan hstep (setPhase_scan (hleft.scan.trans hscan)) ⟨hroot, ?_, ?_⟩ ?_
  · exact (discardRun_frame hu).1 ▸ hroots
  · refine ⟨⟨?_, (left_discard hu hmine).trans hsame.left⟩, fun other hother run hrun => ?_⟩
    · rw [show (setPhase _ u).index = s.index from hleft.index]
      exact hsame.contents
    · exact hopen other (mem_rest hother) run (hdiscarded.kin hrun)
  · unfold variantOf
    rw [hphase]
    cases done with
    | true => exact list_less (Nat.lt_succ_self _)
    | false => exact weight_less (show weight u runId < weight s runId from discardRun_less hu)

theorem Same.frame (h : Same before s root listing) (htables : t.tables = s.tables)
    (hindex : (t.index[root.rootId]?).map IndexRow.contents =
      (s.index[root.rootId]?).map IndexRow.contents)
    (hnames : (∀ (runId : Text) run, t.runs[runId]? = some run → run.state ≠ .published →
        run.generation ≠ some (generationFor root listing)) ↔
      ∀ (runId : Text) run, s.runs[runId]? = some run → run.state ≠ .published →
        run.generation ≠ some (generationFor root listing)) : Same before t root listing := by
  refine ⟨hindex.trans h.contents, ?_⟩
  rw [← h.left, LeftBehind, LeftBehind, htables, hnames]

theorem Same.shown (h : Same before s root listing) (fingerprint : Observation) :
    Shown s root.rootId fingerprint ↔ Shown before root.rootId fingerprint := by
  have hcontents : ∀ u : LargeScans.State, Shown u root.rootId fingerprint ↔
      ∃ p, (u.index[root.rootId]?).map IndexRow.contents = some (.sqlite p) ∧
        p.fingerprintDigest = fingerprint := by
    intro u
    constructor
    · rintro ⟨row, p, hrow, hp, heq⟩
      exact ⟨p, by rw [hrow, Option.map_some, hp], heq⟩
    · rintro ⟨p, hp, heq⟩
      obtain ⟨row, hrow, hp⟩ := Option.map_eq_some_iff.mp hp
      exact ⟨row, p, hrow, hp, heq⟩
  rw [hcontents, hcontents, h.contents]

theorem turned_insertRun (hsound : Sound v s) (hscan : s.scan = some scan)
    (hphase : scan.phase = .discarding []) (h : Underway root listing before s scan) :
    Turned v root listing now before s := by
  obtain ⟨hroot, hroots, h⟩ := h
  rw [hphase] at h
  have hknown := hsound.scanning scan hscan
  unfold Scanning at hknown
  rw [hphase] at hknown
  obtain ⟨hrun, hentries, _⟩ := hknown
  have hstep : step v s (next listing now s scan) =
      some (setPhase (.staging 0) (LargeScans.insertRun scan s)) := by
    unfold step stepScan
    simp [next, hphase, hscan]
  refine turned_scan hscan hstep (setPhase_scan hscan) ⟨hroot, hroots, ?_, ?_, ?_⟩ ?_
  · refine h.1.frame rfl rfl ⟨fun hall other run hother => hall other run ?_,
      fun hall other run hother hstate => ?_⟩
    · refine (get_put ..).trans ((if_neg ?_).trans hother)
      rintro rfl
      rw [hrun] at hother
      cases hother
    · have hother : (s.runs.insert scan.runId _)[other]? = some run := hother
      rw [get_put] at hother
      split at hother
      · cases hother
        simp
      · exact hall other run hother hstate
  · refine ⟨hroot ▸ hroots, ?_⟩
    show ((s.progress.insert scan.root.rootId _)[scan.root.rootId]?).bind _ = _
    rw [get_put, if_pos rfl]
    rfl
  · show (s.entries[scan.runId]?).getD ∅ = _
    rw [hentries]
    rfl
  · unfold variantOf
    rw [hphase]
    exact phase_less (by omega)

/-! Staging. -/

theorem foldl_insertEntry_get {batch : List Row} {found : Scanned} {path : Text}
    (h : path ∉ batch.map Prod.fst) : (batch.foldl insertEntry found)[path]? = found[path]? := by
  induction batch generalizing found with
  | nil => rfl
  | cons row batch ih =>
    rw [List.map_cons, List.mem_cons, not_or] at h
    rw [List.foldl_cons, ih h.2, insertEntry, get_put, if_neg fun heq => h.1 heq.symm]

theorem entriesFor_none {path : Text} (h : path ∉ listing.map Prod.fst) :
    (entriesFor listing)[path]? = none := by
  rw [entriesFor, foldl_insertEntry_get h]
  simp

theorem take_batch (listing : List Row) (count n : ℕ) :
    listing.take (count + ((listing.drop count).take n).length) =
      listing.take count ++ (listing.drop count).take n := by
  rw [List.take_add, List.length_take]
  congr 1
  rw [← List.take_take, List.take_length]

theorem entriesFor_batch (listing : List Row) (count n : ℕ) :
    ((listing.drop count).take n).foldl insertEntry (entriesFor (listing.take count)) =
      entriesFor (listing.take (count + ((listing.drop count).take n).length)) := by
  rw [take_batch, entriesFor, entriesFor, List.foldl_append]

theorem owned_progress (h : Owned s scan) : ∃ progress,
    (s.progress[scan.root.rootId]?).filter (fun progress => progress.runId = some scan.runId) =
      some progress := by
  obtain ⟨progress, hprogress, hrun⟩ := Option.bind_eq_some_iff.mp h.2
  exact ⟨progress, by rw [hprogress]; simp [hrun]⟩

theorem stage_total (h : Owned s scan) (count : ℕ) {batch : List Row}
    (hnodup : (batch.map Prod.fst).Nodup)
    (hnew : ∀ row ∈ batch, (entriesOf s scan.runId)[row.1]? = none) :
    ∃ t, stage scan count batch s = some t ∧ t.roots = s.roots ∧ Owned t scan := by
  obtain ⟨progress, hprogress⟩ := owned_progress h
  have hrun : progress.runId = some scan.runId := by
    obtain ⟨_, hcheck⟩ := Option.filter_eq_some_iff.mp hprogress
    exact of_decide_eq_true hcheck
  unfold stage
  rw [hprogress]
  dsimp only
  rw [if_pos ⟨hnodup, hnew⟩]
  refine ⟨_, rfl, ?_, ?_⟩
  · unfold updateRun
    split <;> rfl
  · unfold updateRun Owned
    split <;>
    · refine ⟨h.1, ?_⟩
      rw [get_put, if_pos rfl]
      exact hrun

theorem same_updateRun (h : Same before s root listing) {change : RunRow → RunRow}
    (htables : t.tables = s.tables)
    (hindex : (t.index[root.rootId]?).map IndexRow.contents =
      (s.index[root.rootId]?).map IndexRow.contents)
    (hruns : t.runs = (updateRun scan.runId change s).runs)
    (hstate : ∀ run, s.runs[scan.runId]? = some run →
      ((change run).state = .published ↔ run.state = .published))
    (hgeneration : ∀ run, (change run).generation = run.generation) :
    Same before t root listing := by
  refine h.frame htables hindex ⟨fun hall other run hother hopen => ?_,
    fun hall other run hother hopen => ?_⟩
  · by_cases hmine : scan.runId = other
    · subst hmine
      rw [← hgeneration run]
      refine hall scan.runId (change run) ?_ fun hpublished =>
        hopen ((hstate run hother).mp hpublished)
      rw [hruns, updateRun_get, if_pos rfl, hother, Option.map_some]
    · refine hall other run ?_ hopen
      rw [hruns, updateRun_get, if_neg hmine]
      exact hother
  · rw [hruns, updateRun_get] at hother
    split at hother
    · rename_i hmine
      subst hmine
      obtain ⟨old, hold, rfl⟩ := Option.map_eq_some_iff.mp hother
      rw [hgeneration]
      exact hall scan.runId old hold fun hpublished => hopen ((hstate old hold).mpr hpublished)
    · exact hall other run hother hopen

theorem turned_staging (hlisting : Listing v root listing) (hscan : s.scan = some scan)
    {count : ℕ} (hphase : scan.phase = .staging count)
    (h : Underway root listing before s scan) : Turned v root listing now before s := by
  obtain ⟨hroot, hroots, h⟩ := h
  rw [hphase] at h
  obtain ⟨hsame, howned, hentries⟩ := h
  generalize hbatch : (listing.drop count).take writeBatchSize = batch
  cases batch with
  | nil =>
    have hstep : step v s (next listing now s scan) = some (setPhase .staged s) := by
      unfold step stepScan
      simp [next, hphase, hbatch, hscan]
    have hall : listing.take count = listing := by
      rw [List.take_eq_nil_iff, List.drop_eq_nil_iff] at hbatch
      rcases hbatch with hzero | hle
      · exact absurd hzero (by decide)
      · exact List.take_of_length_le hle
    refine turned_scan hscan hstep (setPhase_scan hscan) ⟨hroot, hroots, ?_, howned, ?_⟩ ?_
    · exact ⟨hsame.contents, hsame.left⟩
    · rw [← hall]
      exact hentries
    · unfold variantOf
      rw [hphase]
      exact phase_less (by omega)
  | cons row rest =>
    have hsub : List.Sublist (listing.take count ++ (row :: rest)) listing := by
      rw [← hbatch, ← take_batch]
      exact List.take_sublist ..
    have hdistinct := (hsub.map Prod.fst).nodup hlisting.distinct
    rw [List.map_append] at hdistinct
    obtain ⟨_, hnodup, hapart⟩ := List.nodup_append.mp hdistinct
    have hnew : ∀ other ∈ row :: rest, (entriesOf s scan.runId)[other.1]? = none := by
      intro other hother
      rw [hentries]
      exact entriesFor_none fun hmem =>
        hapart other.1 hmem other.1 (List.mem_map_of_mem hother) rfl
    obtain ⟨u, hu, hroots', howned'⟩ :=
      stage_total howned (count + (row :: rest).length) hnodup hnew
    obtain ⟨htables, hindex, hkept, hentries', hruns⟩ := stage_some hu
    have hlength : (row :: rest).length ≤ writeBatchSize := by
      rw [← hbatch, List.length_take]
      exact Nat.min_le_left ..
    have hnamed : ∀ other ∈ row :: rest, other.1 ≠ [] := fun other hother =>
      hlisting.named other (hsub.subset (List.mem_append_right _ hother))
    have hstep : step v s (next listing now s scan) =
        some (setPhase (.staging (count + (row :: rest).length)) u) := by
      have hnext : next listing now s scan = .stage (row :: rest) := by
        rw [next, hphase]
        dsimp only
        rw [hbatch]
      rw [hnext]
      unfold step stepScan
      simp only [hscan, hphase]
      rw [if_pos ⟨List.cons_ne_nil row rest, hlength, hnamed⟩, hu]
      rfl
    refine turned_scan hscan hstep (setPhase_scan (hkept.trans hscan))
      ⟨hroot, ?_, ?_, howned', ?_⟩ ?_
    · exact hroots' ▸ hroots
    · exact same_updateRun hsame htables
        (congrArg (fun index => (index[root.rootId]?).map _) hindex) hruns (fun _ _ => Iff.rfl)
        fun _ => rfl
    · show entriesOf u scan.runId = _
      rw [entriesOf, hentries', get_put, if_pos rfl, Option.getD_some, hentries, ← hbatch,
        entriesFor_batch]
    · unfold variantOf
      rw [hphase]
      refine list_less ?_
      have hdrop : listing.drop count ≠ [] := by
        intro hnil
        rw [hnil, List.take_nil] at hbatch
        cases hbatch
      have hcount : count < listing.length := by
        by_contra hle
        exact hdrop (List.drop_eq_nil_iff.mpr (by omega))
      rw [List.length_cons]
      omega

/-! Comparison with the published index, and identifiers. -/

theorem mem_entriesFor {path : Text} {fp : Fingerprint}
    (h : (path, fp) ∈ rows (entriesFor listing)) : (path, fp) ∈ listing := by
  have hall : ∀ (more : List Row) (found : Scanned),
      (∀ (q : Text) row, found[q]? = some row → (q, row.data) ∈ listing) →
      (∀ row ∈ more, row ∈ listing) →
      ∀ (q : Text) row, (more.foldl insertEntry found)[q]? = some row →
        (q, row.data) ∈ listing := by
    intro more
    induction more with
    | nil => exact fun found hfound _ => hfound
    | cons first more ih =>
      intro found hfound hmore
      refine ih (insertEntry found first) (fun q row hrow => ?_) fun row hrow =>
        hmore row (List.mem_cons_of_mem _ hrow)
      rw [insertEntry, get_put] at hrow
      split at hrow
      · rename_i heq
        cases hrow
        rw [← heq]
        exact hmore first (List.mem_cons_self ..)
      · exact hfound q row hrow
  obtain ⟨row, hrow, rfl⟩ := mem_rows.mp h
  exact hall listing ∅ (fun q row hrow => by simp at hrow) (fun _ hrow => hrow) path row hrow

theorem unchanged_iff (s : LargeScans.State) (scan : LargeScans.Scan) :
    unchanged s scan = true ↔ Shown s scan.root.rootId (observation s scan) := by
  unfold unchanged Shown
  constructor
  · intro h
    split at h
    · rename_i p hp
      obtain ⟨row, hrow, hcontents⟩ := Option.map_eq_some_iff.mp hp
      exact ⟨row, p, hrow, hcontents, of_decide_eq_true h⟩
    · cases h
  · rintro ⟨row, p, hrow, hcontents, heq⟩
    rw [hrow, Option.map_some, hcontents]
    exact decide_eq_true heq

theorem rows_of_data {found other : Scanned} (h : data found = data other) :
    rows found = rows other := congrArg Std.ExtTreeMap.toList h

theorem observed (hroot : scan.root = root)
    (h : data (entriesOf s scan.runId) = data (entriesFor listing)) :
    observation s scan = fingerprintOf root listing := by
  rw [observation, fingerprintOf, rows_of_data h, hroot]

theorem complete_total (now : Time) (howned : Owned s scan) {fingerprint : Observation}
    (h : Shown s scan.root.rootId fingerprint) (count : ℕ) : ∃ t,
    completeUnchanged scan count now s = some t ∧ t.scan = s.scan ∧ t.roots = s.roots ∧
      Current t scan.root.rootId fingerprint := by
  obtain ⟨row, p, hrow, hp, heq⟩ := h
  unfold completeUnchanged
  rw [hrow]
  dsimp only
  rw [if_pos howned]
  exact ⟨_, rfl, rfl, rfl, _, p, (get_put ..).trans (if_pos rfl), hp, heq, rfl⟩

theorem turned_staged (hdigest : Digests v.digest) (hsound : Sound v s) (htidy : Tidy v s)
    (hscan : s.scan = some scan) (hphase : scan.phase = .staged)
    (h : Underway root listing before s scan) : Turned v root listing now before s := by
  obtain ⟨hroot, hroots, h⟩ := h
  rw [hphase] at h
  obtain ⟨hsame, howned, hentries⟩ := h
  have hseen : observation s scan = fingerprintOf root listing :=
    observed hroot (congrArg data hentries)
  by_cases hunchanged : unchanged s scan = true
  · have hshown := (unchanged_iff s scan).mp hunchanged
    rw [hseen] at hshown
    obtain ⟨u, hu, hkept, hroots', hcurrent⟩ := complete_total now howned hshown
      (observation s scan).rows.length
    have hstep : step v s (next listing now s scan) = some (setPhase .unchanged u) := by
      unfold step stepScan
      simp [next, hphase, hunchanged, hscan, hu]
    refine turned_scan hscan hstep (setPhase_scan (hkept.trans hscan))
      ⟨hroot, hroots' ▸ hroots, .inl ?_, hroot ▸ hcurrent⟩ ?_
    · exact (hsame.shown _).mp (hroot ▸ hshown)
    · unfold variantOf
      rw [hphase]
      exact phase_less (by omega)
  · have hknown := hsound.scanning scan hscan
    have hworking := htidy.scanning scan hscan
    unfold Scanning at hknown
    unfold Working at hworking
    rw [hphase] at hknown hworking
    obtain ⟨run, hrun, _⟩ := assign_total hdigest htidy scan.root.rootId
      ⟨hknown.2, hworking.2⟩
    have hstep : step v s (next listing now s scan) =
        some (setPhase (.assigned (observation s scan))
          { s with entries := s.entries.insert scan.runId run }) := by
      unfold step stepScan
      simp [next, hphase, hunchanged, hscan, hrun]
    refine turned_scan hscan hstep (setPhase_scan hscan)
      ⟨hroot, hroots, ⟨hsame.contents, hsame.left⟩, howned, fun hshown => ?_, ?_⟩ ?_
    · refine hunchanged ((unchanged_iff s scan).mpr ?_)
      rw [hseen, hroot]
      exact (hsame.shown _).mpr hshown
    · show data (entriesOf { s with entries := s.entries.insert scan.runId run } scan.runId) = _
      rw [entriesOf_insert, assignIds_data hrun, hentries]
    · unfold variantOf
      rw [hphase]
      exact phase_less (by omega)

/-! Building. -/

theorem left_row (hsound : Sound v s) (htidy : Tidy v s) (hscan : s.scan = some scan)
    {fingerprint : Observation} (hphase : scan.phase = .assigned fingerprint) (g : Generation)
    (hg : g.rootId = scan.root.rootId) :
    LeftBehind s g ↔ ∃ row ∈ s.tables.generations, row.generationId = g := by
  have hknown := hsound.scanning scan hscan
  have hworking := htidy.scanning scan hscan
  unfold Scanning at hknown
  unfold Working at hworking
  rw [hphase] at hknown hworking
  obtain ⟨⟨mine, hmine, _, _, hnone⟩, _⟩ := hknown
  refine ⟨fun h => h.1, fun h => ⟨h, fun other run hrun hstate hnamed => ?_⟩⟩
  have hroot := (htidy.named other run g hrun hnamed).symm.trans hg
  have hsame := hworking.1 other run hrun hroot hstate
  rw [hsame, hmine] at hrun
  cases hrun
  rw [hnone] at hnamed
  cases hnamed

theorem fail_contents (scan : LargeScans.Scan) (s : LargeScans.State) (rootId : Text) :
    ((LargeScans.fail scan s).index[rootId]?).map IndexRow.contents =
      (s.index[rootId]?).map IndexRow.contents := by
  unfold LargeScans.fail
  dsimp only
  split
  · rename_i previous hprevious
    rw [get_put]
    split
    · rename_i heq
      rw [← heq, hprevious]
      rfl
    · rfl
  · rfl

theorem owned_updateRun (h : Owned s scan) (tables : Tables Generation)
    (change : RunRow → RunRow) :
    Owned (updateRun scan.runId change { s with tables := tables }) scan ∧
      (updateRun scan.runId change { s with tables := tables }).roots = s.roots := by
  unfold updateRun
  split
  · exact ⟨h, rfl⟩
  · exact ⟨h, rfl⟩

theorem turned_create (hsound : Sound v s) (htidy : Tidy v s) (hscan : s.scan = some scan)
    {fingerprint : Observation} (hphase : scan.phase = .assigned fingerprint)
    (h : Underway root listing before s scan) : Turned v root listing now before s := by
  obtain ⟨hroot, hroots, h⟩ := h
  rw [hphase] at h
  obtain ⟨hsame, howned, hnot, hdata⟩ := h
  have hknown := hsound.scanning scan hscan
  unfold Scanning at hknown
  rw [hphase] at hknown
  obtain ⟨⟨mine, hmine, _, hstate, hnone⟩, _, hfingerprint⟩ := hknown
  rw [observed hroot hdata] at hfingerprint
  have hg : generationFor root listing = ⟨scan.root.rootId, fingerprint⟩ := by
    rw [generationFor, hfingerprint, hroot]
  have hrow := left_row hsound htidy hscan hphase (generationFor root listing) (by rw [hg])
  by_cases hleft : LeftBehind s (generationFor root listing)
  · -- The generation of an earlier publication is in the way.
    obtain ⟨row, hmem, hid⟩ := hrow.mp hleft
    have hexists : createGeneration s.tables scan.root.rootId
        (⟨scan.root.rootId, fingerprint⟩ : Generation) = .error .integrityError := by
      unfold createGeneration
      rw [if_pos]
      by_contra hnone
      exact generationOf_none.mp (Option.not_isSome_iff_eq_none.mp hnone) row hmem (hid.trans hg)
    have hnext : step v s (next listing now s scan) = none := by
      unfold step stepScan
      simp [next, hphase, hscan, createFor, hexists]
    have hstep : step v s (raised scan) = some { LargeScans.fail scan s with scan := none } := by
      unfold step stepScan
      simp [raised, hphase, Phase.working, hscan]
    obtain ⟨htables, _, hruns⟩ := fail_frame scan s
    have hfailed : Same before { LargeScans.fail scan s with scan := none } root listing := by
      refine same_updateRun hsame htables (fail_contents scan s root.rootId) hruns
        (fun run hrun => ?_) fun _ => rfl
      rw [hmine] at hrun
      cases hrun
      simp [hstate]
    have hshown := mt (hfailed.shown (fingerprintOf root listing)).mp hnot
    refine turned_raised hscan hnext hstep rfl (.inr ⟨?_, hshown, ?_⟩)
    · rintro (hbefore | hbefore)
      · exact hnot hbefore
      · exact hbefore (hsame.left.mp hleft)
    · exact hfailed.left.mpr (hsame.left.mp hleft)
  · have hnew : ∀ row ∈ s.tables.generations, row.generationId ≠ ⟨scan.root.rootId, fingerprint⟩ :=
      fun row hmem hid => hleft (hrow.mpr ⟨row, hmem, hid.trans hg.symm⟩)
    obtain ⟨tables, htables⟩ := createGeneration_total scan.root.rootId hnew
    obtain ⟨howned', hroots'⟩ := owned_updateRun howned tables
      fun run => { run with generation := some ⟨scan.root.rootId, fingerprint⟩ }
    have hcreated : createFor scan fingerprint s =
        some (updateRun scan.runId (fun run => { run with
          generation := some ⟨scan.root.rootId, fingerprint⟩ }) { s with tables := tables },
          ⟨scan.root.rootId, fingerprint⟩) := by
      simp [createFor, htables]
    obtain ⟨_, _, _, hkept, hentries, _⟩ := createFor_some hcreated
    have hstep : step v s (next listing now s scan) = some (setPhase
        (.building ⟨scan.root.rootId, fingerprint⟩ []) (updateRun scan.runId (fun run => { run with
          generation := some ⟨scan.root.rootId, fingerprint⟩ }) { s with tables := tables })) := by
      unfold step stepScan
      simp [next, hphase, hscan, hcreated]
    refine turned_scan hscan hstep (setPhase_scan (hkept.trans hscan))
      ⟨hroot, (congrArg (·[root.rootId]?) hroots').trans hroots,
        .inr fun hbefore => hleft (hsame.left.mpr hbefore), howned', ?_⟩ ?_
    · show data (entriesOf (updateRun _ _ _) scan.runId) = _
      rw [entriesOf, hentries]
      exact hdata
    · unfold variantOf
      rw [hphase]
      exact phase_less (by omega)

theorem buildItem_fields {file : FileRecord} {item : Item} {schema : Schema}
    {rootId displayPrefix : Text}
    (h : buildItem v.library rootId displayPrefix schema file = .ok item) :
    item.itemId = file.identity ∧ item.modifiedAt = file.modifiedAt := by
  unfold buildItem at h
  dsimp only at h
  split at h
  · cases h
  · obtain ⟨⟨markers, found⟩, _, hitem⟩ := Fallible.bind_eq_ok.mp h
    cases hitem
    exact ⟨rfl, rfl⟩

theorem builtItem_fields {path : Text} {entry : Entry} {item : Item}
    (h : builtItem v root path entry = some item) :
    entry.itemId = some item.itemId ∧ item.modifiedAt = v.modifiedAt entry.data.mtimeNs := by
  obtain ⟨itemId, hid, hitem⟩ := builtItem_some h
  obtain ⟨hsame, htime⟩ := buildItem_fields hitem
  exact ⟨hid.trans (congrArg some hsame.symm), htime⟩

theorem builtItems_ids {found : Scanned} : ∀ {batch : List Text} {items : List Item},
    builtItems v root found batch = some items →
      items.map (·.itemId) = batch.filterMap fun path => (found[path]?).bind (·.itemId)
  | [], items, h => by
    cases h
    rfl
  | path :: batch, items, h => by
    unfold builtItems at h
    rw [List.mapM_cons] at h
    obtain ⟨item, hitem, h⟩ := Option.bind_eq_some_iff.mp h
    obtain ⟨rest, hrest, h⟩ := Option.bind_eq_some_iff.mp h
    cases h
    obtain ⟨entry, hentry, hbuilt⟩ := Option.bind_eq_some_iff.mp hitem
    have hid : (found[path]?).bind (·.itemId) = some item.itemId := by
      rw [hentry]
      exact (builtItem_fields hbuilt).1
    rw [List.filterMap_cons, hid, List.map_cons, builtItems_ids hrest]

theorem built_distinct (hdigest : Digests v.digest) {found : Scanned} {batch : List Text}
    {items : List Item} (hsettled : LargeIdentity.Settled v.digest root.rootId found)
    (hnodup : batch.Nodup) (h : builtItems v root found batch = some items) :
    (items.map (·.itemId)).Nodup := by
  rw [builtItems_ids h]
  refine hnodup.filterMap fun p q id hp hq => ?_
  obtain ⟨row, hrow, hid⟩ := Option.bind_eq_some_iff.mp hp
  obtain ⟨row', hrow', hid'⟩ := Option.bind_eq_some_iff.mp hq
  exact hsettled.same hdigest hrow hrow' hid hid'

theorem built_dated (hlisting : Listing v root listing) {found : Scanned}
    (hdata : data found = data (entriesFor listing)) : ∀ {batch : List Text} {items : List Item},
    builtItems v root found batch = some items → ∀ item ∈ items, ∃ key,
      SearchText.instantSortKey v.library.toUnicode item.modifiedAt = .ok key
  | [], items, h, item, hitem => by
    cases h
    cases hitem
  | path :: batch, items, h, item, hitem => by
    unfold builtItems at h
    rw [List.mapM_cons] at h
    obtain ⟨first, hfirst, h⟩ := Option.bind_eq_some_iff.mp h
    obtain ⟨rest, hrest, h⟩ := Option.bind_eq_some_iff.mp h
    cases h
    rcases List.mem_cons.mp hitem with rfl | hitem
    · obtain ⟨entry, hentry, hbuilt⟩ := Option.bind_eq_some_iff.mp hfirst
      rw [(builtItem_fields hbuilt).2]
      exact hlisting.dated (path, entry.data)
        (mem_entriesFor (rows_of_data hdata ▸ mem_rows.mpr ⟨entry, hentry, rfl⟩))
    · exact built_dated hlisting hdata hrest item hitem

theorem builtItems_total (hlisting : Listing v root listing) {found : Scanned}
    (hdata : data found = data (entriesFor listing)) (hcomplete : Complete found) :
    ∀ batch : List Text, batch ⊆ allPaths found → ∃ items,
      builtItems v root found batch = some items
  | [], _ => ⟨[], rfl⟩
  | path :: batch, hsub => by
    obtain ⟨rest, hrest⟩ := builtItems_total hlisting hdata hcomplete batch
      fun other hother => hsub (List.mem_cons_of_mem _ hother)
    obtain ⟨entry, hentry⟩ := Option.ne_none_iff_exists'.mp
      (mem_allPaths.mp (hsub (List.mem_cons_self ..)))
    obtain ⟨itemId, hid⟩ := hcomplete path entry hentry
    obtain ⟨item, hitem⟩ := hlisting.buildable (path, entry.data)
      (mem_entriesFor (rows_of_data hdata ▸ mem_rows.mpr ⟨entry, hentry, rfl⟩)) itemId
    refine ⟨item :: rest, ?_⟩
    unfold builtItems at hrest ⊢
    rw [List.mapM_cons, hrest, hentry, Option.bind_some, builtItem, hid, Option.bind_some, hitem]
    rfl

theorem turned_building (hdigest : Digests v.digest) (hlisting : Listing v root listing)
    (hsound : Sound v s) (htidy : Tidy v s) (hscan : s.scan = some scan) {g : Generation}
    {last : Text} (hphase : scan.phase = .building g last)
    (h : Underway root listing before s scan) : Turned v root listing now before s := by
  obtain ⟨hroot, hroots, h⟩ := h
  rw [hphase] at h
  obtain ⟨hpossible, howned, hdata⟩ := h
  have hknown := hsound.scanning scan hscan
  have hworking := htidy.scanning scan hscan
  unfold Scanning at hknown
  unfold Working at hworking
  rw [hphase] at hknown hworking
  obtain ⟨_, hnamed, hgeneration, hrow, items, hitems, hfilled⟩ := hknown
  have hsettled := hworking.2
  have hpaths : paths (fun _ => true) (entriesOf s scan.runId) =
      allPaths (entriesOf s scan.runId) := rfl
  cases htop : (page buildBatchSize last (allPaths (entriesOf s scan.runId))).getLast? with
  | none =>
    obtain ⟨tables, htables⟩ := finish_total hsound.settled.consistent hrow rfl rfl
    obtain ⟨howned', hroots'⟩ := owned_updateRun howned tables
      fun run => { run with state := .built, generation := some g }
    have hfinished : finishBuild scan.runId g s = some (updateRun scan.runId
        (fun run => { run with state := .built, generation := some g })
        { s with tables := tables }) := by
      simp [finishBuild, htables]
    obtain ⟨_, _, hkept, hentries, _⟩ := finishBuild_some hfinished
    have hstep : step v s (next listing now s scan) = some (setPhase (.built g)
        (updateRun scan.runId (fun run => { run with state := .built, generation := some g })
          { s with tables := tables })) := by
      unfold step stepScan
      simp [next, hphase, hscan, hpaths, htop, hfinished]
    refine turned_scan hscan hstep (setPhase_scan (hkept.trans hscan))
      ⟨hroot, (congrArg (·[root.rootId]?) hroots').trans hroots, hpossible, howned', ?_⟩ ?_
    · show data (entriesOf (updateRun _ _ _) scan.runId) = _
      rw [entriesOf, hentries]
      exact hdata
    · unfold variantOf
      rw [hphase]
      exact phase_less (by omega)
  | some top =>
    have hsorted := paths_all_sorted (entriesOf s scan.runId)
    have hmem := (page_top hsorted htop).1
    obtain ⟨later, hlater⟩ := builtItems_total hlisting hdata hsettled.complete
      (page buildBatchSize last (allPaths (entriesOf s scan.runId)))
      fun path hpath => (mem_page hpath).1
    rw [← hroot] at hlater
    have hall := builtItems_append hitems hlater
    rw [← seen_page htop] at hall
    obtain ⟨tables, htables⟩ := addItems_total hsound.settled.consistent hrow rfl rfl hfilled
      (built_distinct hdigest hsettled ((allPaths_nodup _).filter _) hall)
      (built_dated hlisting hdata (hroot ▸ hlater))
    have hstep : step v s (next listing now s scan) = some (setPhase (.building g top)
        { s with tables := tables }) := by
      unfold step stepScan
      simp [next, hphase, hscan, hpaths, htop, addBatch, hlater, htables]
    refine turned_scan hscan hstep (setPhase_scan hscan)
      ⟨hroot, hroots, hpossible, howned, hdata⟩ ?_
    unfold variantOf
    rw [hphase]
    exact list_less (ahead_lt (allPaths_nodup _) (List.Subset.refl _) hmem)

/-! Publication, and the end. -/

theorem turned_built (hsound : Sound v s) (hscan : s.scan = some scan) {g : Generation}
    (hphase : scan.phase = .built g) (h : Underway root listing before s scan) :
    Turned v root listing now before s := by
  obtain ⟨hroot, hroots, h⟩ := h
  rw [hphase] at h
  obtain ⟨hpossible, howned, hdata⟩ := h
  have hknown := hsound.scanning scan hscan
  unfold Scanning at hknown
  rw [hphase] at hknown
  obtain ⟨_, hnamed, hgeneration, hrow, _⟩ := hknown
  obtain ⟨tables, htables⟩ := activateGeneration_total hsound.settled.consistent hrow rfl rfl
  have hpublished : ∃ u, publish scan g now s = some u ∧ u.roots = s.roots := by
    unfold publish
    rw [if_pos howned, htables]
    refine ⟨_, rfl, ?_⟩
    unfold updateRun
    split <;> rfl
  obtain ⟨u, hu, hroots'⟩ := hpublished
  obtain ⟨_, hkept, _, hindex, _⟩ := publish_some hu
  have hstep : step v s (next listing now s scan) = some (setPhase (.cleaning
      ((runsOf u scan.root.rootId (·.state = .published)).filter (· ≠ scan.runId))) u) := by
    unfold step stepScan
    simp [next, hphase, hscan, hu]
  refine turned_scan hscan hstep (setPhase_scan (hkept.trans hscan))
    ⟨hroot, (congrArg (·[root.rootId]?) hroots').trans hroots, hpossible, ?_⟩ ?_
  · refine ⟨⟨.sqlite ⟨scan.root, g, scan.runId, g.fingerprint⟩, now, now, now, .current⟩,
      ⟨scan.root, g, scan.runId, g.fingerprint⟩, ?_, rfl, ?_, rfl⟩
    · refine (congrArg (·[root.rootId]?) hindex).trans ?_
      rw [← hroot, get_put, if_pos rfl]
    · show g.fingerprint = _
      rw [hgeneration]
      exact observed hroot hdata
  · unfold variantOf
    rw [hphase]
    exact phase_less (by omega)

theorem Current.same {rootId : Text} {fingerprint : Observation} (h : Current s rootId fingerprint)
    (hindex : t.index = s.index) : Current t rootId fingerprint := by
  obtain ⟨row, p, hrow, hrest⟩ := h
  exact ⟨row, p, hindex ▸ hrow, hrest⟩

theorem turned_cleaning (hsound : Sound v s) (hscan : s.scan = some scan) {runIds : List Text}
    (hphase : scan.phase = .cleaning runIds) (h : Underway root listing before s scan) :
    Turned v root listing now before s := by
  obtain ⟨hroot, hroots, h⟩ := h
  rw [hphase] at h
  obtain ⟨hpossible, hcurrent⟩ := h
  have hend : Ended root listing before { s with scan := none } := .inl ⟨hpossible, hcurrent⟩
  cases runIds with
  | nil =>
    have hstep : step v s (next listing now s scan) = some { s with scan := none } := by
      unfold step stepScan
      simp [next, hphase, hscan]
    exact turned_end hscan hstep rfl hend
  | cons runId runIds =>
    cases hu : discardRun runId s with
    | none =>
      have hnext : step v s (next listing now s scan) = none := by
        unfold step stepScan
        simp [next, hphase, hscan, discardNext, hu]
      have hstep : step v s (raised scan) = some { s with scan := none } := by
        unfold step stepScan
        simp [raised, hphase, Phase.working, hscan]
      exact turned_raised hscan hnext hstep rfl hend
    | some result =>
      obtain ⟨done, u⟩ := result
      have hleft := discardRun_discards hsound.settled hu
      have hstep : step v s (next listing now s scan) =
          some (setPhase (.cleaning (if done then runIds else runId :: runIds)) u) := by
        unfold step stepScan
        simp [next, hphase, hscan, discardNext, hu]
      refine turned_scan hscan hstep (setPhase_scan (hleft.scan.trans hscan))
        ⟨hroot, ?_, hpossible, hcurrent.same hleft.index⟩ ?_
      · exact (congrArg (·[root.rootId]?) (discardRun_frame hu).1).trans hroots
      · unfold variantOf
        rw [hphase]
        cases done with
        | true => exact list_less (Nat.lt_succ_self _)
        | false =>
          exact weight_less (show weight u runId < weight s runId from discardRun_less hu)

theorem turned_unchanged (hsound : Sound v s) (htidy : Tidy v s) (hscan : s.scan = some scan)
    (hphase : scan.phase = .unchanged) (h : Underway root listing before s scan) :
    Turned v root listing now before s := by
  obtain ⟨hroot, hroots, h⟩ := h
  rw [hphase] at h
  obtain ⟨hpossible, hcurrent⟩ := h
  have hknown := hsound.scanning scan hscan
  unfold Scanning at hknown
  rw [hphase] at hknown
  obtain ⟨mine, hmine, _, hstate, _⟩ := hknown
  obtain ⟨done, u, hu⟩ := discardRun_total hsound fun run hrun row hrow hg =>
    htidy.inactive scan.runId run hrun (by rw [hmine] at hrun; cases hrun; exact hstate) row hrow hg
  have hleft := discardRun_discards hsound.settled hu
  cases done with
  | true =>
    have hstep : step v s (next listing now s scan) = some { u with scan := none } := by
      unfold step stepScan
      simp [next, hphase, hscan, hu]
    exact turned_end hscan hstep rfl (.inl ⟨hpossible, hcurrent.same hleft.index⟩)
  | false =>
    have hstep : step v s (next listing now s scan) = some u := by
      unfold step stepScan
      simp [next, hphase, hscan, hu]
    have hnow : u.scan = some { scan with phase := .unchanged } := by
      rw [hleft.scan, hscan, ← hphase]
    refine turned_scan hscan hstep hnow ⟨hroot, ?_, hpossible, hcurrent.same hleft.index⟩ ?_
    · exact (congrArg (·[root.rootId]?) (discardRun_frame hu).1).trans hroots
    · unfold variantOf
      rw [hphase]
      exact weight_less (discardRun_less hu)

/-! The whole scan. -/

theorem turned (hdigest : Digests v.digest) (hlisting : Listing v root listing) (h : Clean v s)
    (hscan : s.scan = some scan) (hunderway : Underway root listing before s scan) :
    Turned v root listing now before s := by
  have hsound := run_sound h.run
  have htidy := clean_tidy hdigest h
  cases hphase : scan.phase with
  | discarding runIds =>
    cases runIds with
    | nil => exact turned_insertRun hsound hscan hphase hunderway
    | cons runId runIds => exact turned_discarding hsound htidy hscan hphase hunderway
  | staging count => exact turned_staging hlisting hscan hphase hunderway
  | staged => exact turned_staged hdigest hsound htidy hscan hphase hunderway
  | interrupted =>
    obtain ⟨_, _, hnever⟩ := hunderway
    rw [hphase] at hnever
    exact hnever.elim
  | assigned fingerprint => exact turned_create hsound htidy hscan hphase hunderway
  | building g last => exact turned_building hdigest hlisting hsound htidy hscan hphase hunderway
  | built g => exact turned_built hsound hscan hphase hunderway
  | unchanged => exact turned_unchanged hsound htidy hscan hphase hunderway
  | cleaning runIds => exact turned_cleaning hsound hscan hphase hunderway

def fileOf (name : Char) : Row := ([name], ⟨1, name.toNat, 3, 0⟩)

def otherThan (fingerprint : Observation) : Contents → Bool
  | .sqlite p => p.fingerprintDigest ≠ fingerprint
  | _ => true

/-- Only one of two files has been published before, and the clean-up after that has crashed. -/
def stuck (s : LargeScans.State) : Bool :=
  s.scan.isNone && decide (s.roots[(['r'] : Text)]? = some flatRoot) &&
    (s.runs[(['3'] : Text)]?).isNone && (s.entries[(['3'] : Text)]?).isNone &&
    (s.index[(['r'] : Text)]?).all (fun row =>
      otherThan (fingerprintOf flatRoot [fileOf 'a']) row.contents) &&
    s.tables.generations.any (·.generationId = generationFor flatRoot [fileOf 'a']) &&
    s.tables.generations.all (·.generationId ≠ generationFor flatRoot [fileOf 'c']) &&
    s.runs.toList.all fun entry => entry.2.state = .published

end UndisturbedScans
