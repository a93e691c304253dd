import WiseWay.LargeScans
import WiseWay.Scripts
import WiseWay.SearchGenerations

/-! # The published generation of a root is complete

Whatever scan stops, fails or crashes, and whatever is discarded before it and after it: the
generation that an index row points to is the only active one of its root, and it holds the items
of the entries of its run. -/
namespace LargePublication

open Records EntryIds LargeIdentity SearchTables SearchGenerations Sweeps LargeScans
open Search hiding Row Location
open SearchGenerations hiding Rows
open Fallible (toOption_some)

variable {v : Site} {s t : LargeScans.State} {rootId runId : Text} {p : SqliteIndex} {scan : Scan}
  {a b : Tables Generation}

def allPaths (run : Scanned) : List Text := paths (fun _ => true) run

/-! The tables. -/

/-- The active generations and their rows stay, and no other generation becomes active. -/
structure Kept (v : Site) (a b : Tables Generation) : Prop where
  consistent : SearchGenerations.Consistent v.library b
  rooted : ∀ row ∈ b.generations, row.generationId.rootId = row.rootId
  active : ∀ row ∈ a.generations, row.state = .active →
    row ∈ b.generations ∧ rowsOf b row.generationId = rowsOf a row.generationId
  old : ∀ row ∈ b.generations, row.state = .active → row ∈ a.generations

/-- The tables are in step, and a root has one active generation at most. -/
structure Settled (v : Site) (a : Tables Generation) : Prop where
  consistent : SearchGenerations.Consistent v.library a
  rooted : ∀ row ∈ a.generations, row.generationId.rootId = row.rootId
  single : ∀ row ∈ a.generations, row.state = .active → ∀ other ∈ a.generations,
    other.state = .active → other.rootId = row.rootId → other = row

theorem Settled.refl (h : Settled v a) : Kept v a a :=
  ⟨h.consistent, h.rooted, fun _ hrow _ => ⟨hrow, rfl⟩, fun _ hrow _ => hrow⟩

theorem Settled.kept (h : Settled v a) (hkept : Kept v a b) : Settled v b := by
  refine ⟨hkept.consistent, hkept.rooted, ?_⟩
  intro row hrow hactive other hother hactive' hroot
  exact h.single row (hkept.old row hrow hactive) hactive other (hkept.old other hother hactive')
    hactive' hroot

theorem Settled.create (h : Settled v a) {g : Generation}
    (hcreate : createGeneration a g.rootId g = .ok b) :
    Kept v a b ∧ Filled v.library b g [] ∧ ⟨g, g.rootId, .building⟩ ∈ b.generations := by
  obtain ⟨hconsistent, hfilled, hrows⟩ := h.consistent.create hcreate
  obtain ⟨_, rfl⟩ := createGeneration_ok hcreate
  refine ⟨⟨hconsistent, ?_, ?_, ?_⟩, hfilled, by simp⟩
  · intro row hrow
    rcases List.mem_append.mp hrow with hrow | hrow
    · exact h.rooted row hrow
    · rw [List.mem_singleton.mp hrow]
  · intro row hrow _
    exact ⟨List.mem_append_left _ hrow, hrows _⟩
  · intro row hrow hactive
    rcases List.mem_append.mp hrow with hrow | hrow
    · exact hrow
    · rw [List.mem_singleton.mp hrow] at hactive
      cases hactive

theorem Settled.unique (h : Settled v a) {row other : GenerationRow Generation}
    (hrow : row ∈ a.generations) (hother : other ∈ a.generations)
    (hsame : row.generationId = other.generationId) : row = other :=
  List.inj_on_of_nodup_map h.consistent.unique hrow hother hsame

theorem Settled.add (h : Settled v a) {g : Generation} {items more : List Item}
    (hbuilding : ⟨g, g.rootId, .building⟩ ∈ a.generations)
    (hfilled : Filled v.library a g items) (hadd : addItems v.library a g more = .ok b) :
    Kept v a b ∧ Filled v.library b g (items ++ more) ∧
      ⟨g, g.rootId, .building⟩ ∈ b.generations := by
  have hadded := addItems_added h.consistent hfilled hadd
  refine ⟨⟨hadded.consistent, ?_, ?_, ?_⟩, hadded.filled, ?_⟩
  · rw [hadded.generations]
    exact h.rooted
  · intro row hrow hactive
    rw [hadded.generations]
    refine ⟨hrow, hadded.others _ fun hg => ?_⟩
    rw [h.unique hrow hbuilding hg] at hactive
    cases hactive
  · rw [hadded.generations]
    exact fun row hrow _ => hrow
  · rw [hadded.generations]
    exact hbuilding

theorem Settled.finish (h : Settled v a) {g : Generation} {items : List Item}
    (hbuilding : ⟨g, g.rootId, .building⟩ ∈ a.generations)
    (hfilled : Filled v.library a g items) (hfinish : finish a g = .ok b) :
    Kept v a b ∧ Filled v.library b g items ∧ ⟨g, g.rootId, .ready⟩ ∈ b.generations := by
  obtain rfl := finish_ok hfinish
  have hrows : ∀ other, rowsOf (setState a (fun row => row.generationId = g ∧
      row.state = .building) .ready) other = rowsOf a other := fun _ => rfl
  refine ⟨⟨h.consistent.setState _ _, ?_, ?_, ?_⟩, hfilled.same (hrows g), ?_⟩
  · intro row hrow
    obtain ⟨old, hold, rfl⟩ := mem_setState.mp hrow
    split
    · exact h.rooted old hold
    · exact h.rooted old hold
  · intro row hrow hactive
    refine ⟨mem_setState.mpr ⟨row, hrow, ?_⟩, hrows _⟩
    rw [if_neg]
    simp [hactive]
  · intro row hrow hactive
    obtain ⟨old, hold, rfl⟩ := mem_setState.mp hrow
    split at hactive
    · cases hactive
    · rename_i hnot
      rw [if_neg hnot]
      exact hold
  · refine mem_setState.mpr ⟨_, hbuilding, ?_⟩
    rw [if_pos]
    simp

theorem Settled.deleted (h : Settled v a) {g : Generation} {batchSize : ℕ} {done : Bool}
    (hpos : 0 < batchSize) (hdeleted : Deleted a g batchSize done b) : Kept v a b := by
  refine ⟨hdeleted.consistent h.consistent hpos, ?_, ?_, ?_⟩
  · intro row hrow
    exact h.rooted row (hdeleted.generations.1 row hrow)
  · intro row hrow hactive
    have hne := hdeleted.spares h.consistent hrow hactive
    exact ⟨hdeleted.generations.2 row hrow hne, hdeleted.other h.consistent hne⟩
  · intro row hrow _
    exact hdeleted.generations.1 row hrow

/-- An activation leaves the active generations of other roots. -/
theorem Settled.activate (h : Settled v a) {g : Generation}
    (hready : ⟨g, g.rootId, .ready⟩ ∈ a.generations) (hactivate : activateGeneration a g = .ok b) :
    Settled v b ∧ ⟨g, g.rootId, .active⟩ ∈ b.generations ∧
      (∀ other, rowsOf b other = rowsOf a other) ∧
      ∀ row ∈ a.generations, row.state = .active → row.rootId ≠ g.rootId → row ∈ b.generations := by
  obtain ⟨row, hrow, hg, hactive, hothers⟩ := activated_generations h.consistent hactivate
  obtain rfl := h.unique hrow hready hg
  obtain ⟨found, hfound, _, rfl⟩ := activateGeneration_ok hactivate
  obtain ⟨hmem, hid⟩ := (mem_generations h.consistent.unique).mp hfound
  obtain rfl := h.unique hmem hready hid
  have hconsistent := (h.consistent.setState (fun other => decide (other.rootId = g.rootId ∧
    other.state = .active)) .ready).setState (·.generationId = g) .active
  have hrooted : ∀ other ∈ (setState (setState a (fun other => other.rootId = g.rootId ∧
      other.state = .active) .ready) (·.generationId = g) .active).generations,
      other.generationId.rootId = other.rootId := by
    intro other hother
    obtain ⟨mid, hmid, rfl⟩ := mem_setState.mp hother
    obtain ⟨old, hold, rfl⟩ := mem_setState.mp hmid
    have hrooted := h.rooted old hold
    split <;> split <;> exact hrooted
  refine ⟨⟨hconsistent, hrooted, ?_⟩, hactive, fun _ => rfl, ?_⟩
  · intro row hrow hstate other hother hstate' hroot
    rcases hothers row hrow hstate with hmine | ⟨hne, hold⟩
    · rcases hothers other hother hstate' with hyours | ⟨hne', _⟩
      · exact List.inj_on_of_nodup_map hconsistent.unique hother hrow (hyours.trans hmine.symm)
      · refine absurd (hroot.trans ?_) hne'
        rw [← hrooted row hrow, hmine]
    · rcases hothers other hother hstate' with hyours | ⟨_, hold'⟩
      · refine absurd (hroot.symm.trans ?_) hne
        rw [← hrooted other hother, hyours]
      · exact h.single row hold hstate other hold' hstate' hroot
  · intro other hother hstate hroot
    refine mem_setState.mpr ⟨other, mem_setState.mpr ⟨other, hother, ?_⟩, ?_⟩
    · rw [if_neg (by simp [hroot])]
    · rw [if_neg]
      have hne : other.generationId ≠ g := by
        rintro rfl
        exact hroot (h.rooted other hother).symm
      simp [hne]

/-! What is known of a run. -/

def Spared (index : Table IndexRow) (runId : Text) : Prop :=
  ∀ (rootId : Text) row p, index[rootId]? = some row → row.contents = .sqlite p →
    p.scanRunId ≠ runId

/-- The index of a root is what its run has found. -/
structure Published (v : Site) (runs : Table RunRow) (found : Scanned)
    (tables : Tables Generation) (rootId : Text) (p : SqliteIndex) : Prop where
  root : p.root.rootId = rootId
  named : p.generation = ⟨rootId, p.fingerprintDigest⟩
  active : ⟨p.generation, rootId, .active⟩ ∈ tables.generations
  run : ∃ run, runs[p.scanRunId]? = some run ∧ run.rootId = rootId ∧ run.state = .published ∧
    run.generation = some p.generation ∧ run.fingerprintDigest = some p.fingerprintDigest
  observed : p.fingerprintDigest = ⟨p.root, rows found⟩
  filled : ∃ items, builtItems v p.root found (allPaths found) = some items ∧
    Filled v.library tables p.generation items

def seen (lastPath : Text) (run : Scanned) : List Text := (allPaths run).filter (· ≤ lastPath)

def Open (runs : Table RunRow) (scan : Scan) (generation : Option Generation) : Prop :=
  ∃ run, runs[scan.runId]? = some run ∧ run.rootId = scan.root.rootId ∧
    run.state ≠ .published ∧ run.generation = generation

def Named (found : Scanned) : Prop := found[([] : Text)]? = none

/-- The generation that is built holds the items of these paths. -/
structure Building (v : Site) (tables : Tables Generation) (found : Scanned) (root : Config)
    (generation : Generation) (state : GenerationState) (built : List Text) : Prop where
  path : Named found
  named : generation = ⟨root.rootId, root, rows found⟩
  row : ⟨generation, root.rootId, state⟩ ∈ tables.generations
  filled : ∃ items, builtItems v root found built = some items ∧
    Filled v.library tables generation items

def Scanning (v : Site) (s : LargeScans.State) (scan : Scan) : Prop :=
  match scan.phase with
  | .discarding runIds => s.runs[scan.runId]? = none ∧ s.entries[scan.runId]? = none ∧
      ∀ runId ∈ runIds, Spared s.index runId
  | .cleaning runIds => ∀ runId ∈ runIds, Spared s.index runId
  | .staging _ => Open s.runs scan none ∧ Named (entriesOf s scan.runId)
  | .staged => Open s.runs scan none ∧ Named (entriesOf s scan.runId)
  | .interrupted => Open s.runs scan none
  | .unchanged => Open s.runs scan none
  | .assigned fingerprint => Open s.runs scan none ∧ Named (entriesOf s scan.runId) ∧
      fingerprint = observation s scan
  | .building generation lastPath => Open s.runs scan (some generation) ∧
      Building v s.tables (entriesOf s scan.runId) scan.root generation .building
        (seen lastPath (entriesOf s scan.runId))
  | .built generation => Open s.runs scan (some generation) ∧
      Building v s.tables (entriesOf s scan.runId) scan.root generation .ready
        (allPaths (entriesOf s scan.runId))

structure Sound (v : Site) (s : LargeScans.State) : Prop where
  settled : Settled v s.tables
  published : ∀ (rootId : Text) row p, s.index[rootId]? = some row → row.contents = .sqlite p →
    Published v s.runs (entriesOf s p.scanRunId) s.tables rootId p
  scanning : ∀ scan, s.scan = some scan → Scanning v s scan

theorem Open.spared (h : Sound v s) {generation : Option Generation}
    (hopen : Open s.runs scan generation) : Spared s.index scan.runId := by
  intro rootId row p hrow hp heq
  obtain ⟨run, hrun, _, hstate, _⟩ := (h.published rootId row p hrow hp).run
  obtain ⟨other, hother, _, hne, _⟩ := hopen
  rw [heq, hother] at hrun
  cases hrun
  exact hne hstate

theorem Scanning.working (h : Scanning v s scan) (hworking : scan.phase.working = true) :
    ∃ generation, Open s.runs scan generation := by
  unfold Scanning at h
  cases hphase : scan.phase with
  | discarding runIds =>
    rw [hphase] at hworking
    cases hworking
  | cleaning runIds =>
    rw [hphase] at hworking
    cases hworking
  | interrupted =>
    rw [hphase] at h
    exact ⟨none, h⟩
  | unchanged =>
    rw [hphase] at h
    exact ⟨none, h⟩
  | _ =>
    rw [hphase] at h
    exact ⟨_, h.1⟩

/-! Frames. -/

/-- Published indexes stay, or are replaced by another kind. -/
def SameIndex (index index' : Table IndexRow) : Prop :=
  ∀ (rootId : Text) row p, index'[rootId]? = some row → row.contents = .sqlite p →
    ∃ old, index[rootId]? = some old ∧ old.contents = .sqlite p

theorem SameIndex.spared {index index' : Table IndexRow} (h : SameIndex index index')
    (hspared : Spared index runId) : Spared index' runId := by
  intro rootId row p hrow hp
  obtain ⟨old, hold, hp'⟩ := h rootId row p hrow hp
  exact hspared rootId old p hold hp'

theorem SameIndex.refl (index : Table IndexRow) : SameIndex index index :=
  fun _ row _ hrow hp => ⟨row, hrow, hp⟩

theorem sameIndex_insert {index : Table IndexRow} {old : IndexRow} {freshness : Freshness}
    (hold : index[rootId]? = some old) :
    SameIndex index (index.insert rootId { old with freshness := freshness }) := by
  intro other row p hrow hp
  rw [get_put] at hrow
  split at hrow
  · rename_i hroot
    cases hrow
    exact ⟨old, hroot ▸ hold, hp⟩
  · exact ⟨row, hrow, hp⟩

theorem Published.frame {runs runs' : Table RunRow} {found : Scanned}
    (h : Published v runs found a rootId p) (hkept : Kept v a b)
    (hruns : runs'[p.scanRunId]? = runs[p.scanRunId]?) : Published v runs' found b rootId p := by
  obtain ⟨hactive, hrows⟩ := hkept.active _ h.active rfl
  obtain ⟨items, hitems, hfilled⟩ := h.filled
  exact ⟨h.root, h.named, hactive, hruns ▸ h.run, h.observed, items, hitems, hfilled.same hrows⟩

theorem Sound.frame (h : Sound v s) (hkept : Kept v s.tables t.tables)
    (hindex : SameIndex s.index t.index)
    (hother : ∀ runId, ¬Spared s.index runId →
      t.runs[runId]? = s.runs[runId]? ∧ t.entries[runId]? = s.entries[runId]?)
    (hscan : ∀ scan, t.scan = some scan → Scanning v t scan) : Sound v t := by
  refine ⟨h.settled.kept hkept, ?_, hscan⟩
  intro rootId row p hrow hp
  obtain ⟨old, hold, hp'⟩ := hindex rootId row p hrow hp
  obtain ⟨hruns, hentries⟩ := hother p.scanRunId fun hspared =>
    hspared rootId old p hold hp' rfl
  have hfound : entriesOf t p.scanRunId = entriesOf s p.scanRunId := by
    rw [entriesOf, hentries, entriesOf]
  rw [hfound]
  exact (h.published rootId old p hold hp').frame hkept hruns

theorem updateRun_get (change : RunRow → RunRow) (other : Text) :
    (updateRun runId change s).runs[other]? =
      if runId = other then (s.runs[other]?).map change else s.runs[other]? := by
  unfold updateRun
  by_cases hrun : runId = other
  · subst hrun
    rw [if_pos rfl]
    cases hfound : s.runs[runId]? with
    | none => exact hfound
    | some run => simp
  · rw [if_neg hrun]
    split
    · rw [get_put, if_neg hrun]
    · rfl

@[simp] theorem updateRun_entries (change : RunRow → RunRow) :
    (updateRun runId change s).entries = s.entries := by
  unfold updateRun
  split <;> rfl

@[simp] theorem updateRun_tables (change : RunRow → RunRow) :
    (updateRun runId change s).tables = s.tables := by
  unfold updateRun
  split <;> rfl

@[simp] theorem updateRun_index (change : RunRow → RunRow) :
    (updateRun runId change s).index = s.index := by
  unfold updateRun
  split <;> rfl

@[simp] theorem updateRun_scan (change : RunRow → RunRow) :
    (updateRun runId change s).scan = s.scan := by
  unfold updateRun
  split <;> rfl

theorem Sound.own (h : Sound v s) {generation : Option Generation}
    (hopen : Open s.runs scan generation) (hkept : Kept v s.tables t.tables)
    (hindex : SameIndex s.index t.index)
    (hruns : ∀ runId, scan.runId ≠ runId → t.runs[runId]? = s.runs[runId]?)
    (hentries : ∀ runId, scan.runId ≠ runId → t.entries[runId]? = s.entries[runId]?)
    (hscan : ∀ scan, t.scan = some scan → Scanning v t scan) : Sound v t := by
  refine h.frame hkept hindex (fun runId hnot => ?_) hscan
  have hne : scan.runId ≠ runId := by
    rintro rfl
    exact hnot (hopen.spared h)
  exact ⟨hruns runId hne, hentries runId hne⟩

/-! Discarding. -/

/-- What one turn of `_discard_run` leaves alone. -/
structure Discards (v : Site) (s t : LargeScans.State) (runId : Text) (done : Bool) : Prop where
  kept : Kept v s.tables t.tables
  index : t.index = s.index
  scan : t.scan = s.scan
  runs : ∀ other, runId ≠ other → t.runs[other]? = s.runs[other]?
  entries : ∀ other, runId ≠ other → t.entries[other]? = s.entries[other]?
  absent : s.runs[runId]? = none → t.runs = s.runs ∧ t.entries = s.entries
  going : done = false → t.runs = s.runs

theorem discardEntries_discards {done : Bool} {run : RunRow} {tables : Tables Generation}
    (hrun : s.runs[runId]? = some run) (hkept : Kept v s.tables tables)
    (hd : discardEntries runId { s with tables := tables } = (done, t)) :
    Discards v s t runId done := by
  have hpresent : ∀ {q : Prop}, s.runs[runId]? = none → q := by
    intro q hnone
    rw [hrun] at hnone
    cases hnone
  unfold discardEntries at hd
  split at hd
  · cases hd
    refine ⟨hkept, rfl, rfl, ?_, ?_, hpresent, fun hfalse => by cases hfalse⟩
    · intro other hne
      simp [Std.ExtTreeMap.getElem?_erase, hne]
    · intro other hne
      simp [Std.ExtTreeMap.getElem?_erase, hne]
  · cases hd
    refine ⟨hkept, rfl, rfl, fun _ _ => rfl, ?_, hpresent, fun _ => rfl⟩
    intro other hne
    exact (get_put ..).trans (if_neg hne)

theorem discardRun_discards (h : Settled v s.tables) {done : Bool}
    (hd : discardRun runId s = some (done, t)) : Discards v s t runId done := by
  unfold discardRun at hd
  split at hd
  · cases hd
    exact ⟨h.refl, rfl, rfl, fun _ _ => rfl, fun _ _ => rfl, fun _ => ⟨rfl, rfl⟩,
      fun hfalse => by cases hfalse⟩
  · rename_i run hrun
    have hpresent : ∀ {q : Prop}, s.runs[runId]? = none → q := by
      intro q hnone
      rw [hrun] at hnone
      cases hnone
    split at hd
    · exact discardEntries_discards hrun h.refl (Option.some.inj hd)
    · split at hd
      · cases hd
      · rename_i tables hdelete
        obtain ⟨hpos, _, hdeleted⟩ := deleteGeneration_ok hdelete
        cases hd
        exact ⟨h.deleted hpos hdeleted, rfl, rfl, fun _ _ => rfl, fun _ _ => rfl, hpresent,
          fun _ => rfl⟩
      · rename_i tables hdelete
        obtain ⟨hpos, _, hdeleted⟩ := deleteGeneration_ok hdelete
        exact discardEntries_discards hrun (h.deleted hpos hdeleted) (Option.some.inj hd)

theorem Discards.sound {u : LargeScans.State} {done : Bool} (h : Sound v s)
    (hd : Discards v s u runId done) (hspared : Spared s.index runId)
    (htables : t.tables = u.tables) (hindex : t.index = u.index) (hruns : t.runs = u.runs)
    (hentries : t.entries = u.entries)
    (hscan : ∀ scan, t.scan = some scan → Scanning v t scan) : Sound v t := by
  refine h.frame (htables ▸ hd.kept) (hindex ▸ hd.index ▸ SameIndex.refl _) (fun other hnot => ?_)
    hscan
  have hne : runId ≠ other := by
    rintro rfl
    exact hnot hspared
  rw [hruns, hentries]
  exact ⟨hd.runs other hne, hd.entries other hne⟩

theorem discardNext_some {runIds : List Text} {phase : List Text → LargeScans.Phase}
    (hd : discardNext runIds phase s = some t) : ∃ runId rest done u, runIds = runId :: rest ∧
      discardRun runId s = some (done, u) ∧
      t = setPhase (phase (if done then rest else runId :: rest)) u := by
  unfold discardNext at hd
  split at hd
  · cases hd
  · rename_i runId rest
    obtain ⟨⟨done, u⟩, hu, rfl⟩ := Option.map_eq_some_iff.mp hd
    exact ⟨runId, rest, done, u, rfl, hu, rfl⟩

theorem mem_rest {runId other : Text} {rest : List Text} {done : Bool}
    (h : other ∈ if done then rest else runId :: rest) : other ∈ runId :: rest := by
  split at h
  · exact List.mem_cons_of_mem _ h
  · exact h

theorem setPhase_scan {phase : LargeScans.Phase} (hscan : s.scan = some scan) :
    (setPhase phase s).scan = some { scan with phase := phase } := by
  rw [setPhase, hscan, Option.map_some]

theorem sound_discard (h : Sound v s) (hscan : s.scan = some scan)
    (hstep : stepScan v scan s .discard = some t) : Sound v t := by
  have hknown := h.scanning scan hscan
  unfold stepScan at hstep
  dsimp only at hstep
  unfold Scanning at hknown
  split at hstep
  · rename_i runIds hphase
    rw [hphase] at hknown
    obtain ⟨hrun, hentries, hspared⟩ := hknown
    obtain ⟨runId, rest, done, u, rfl, hu, rfl⟩ := discardNext_some hstep
    have hd := discardRun_discards h.settled hu
    refine hd.sound h (hspared runId (List.mem_cons_self ..)) rfl rfl rfl rfl fun now hnow => ?_
    rw [setPhase_scan (hd.scan.trans hscan)] at hnow
    cases hnow
    refine ⟨?_, ?_, fun other hother => ?_⟩
    · by_cases heq : runId = scan.runId
      · exact (hd.absent (heq ▸ hrun)).1 ▸ hrun
      · exact (hd.runs _ heq).trans hrun
    · by_cases heq : runId = scan.runId
      · exact (hd.absent (heq ▸ hrun)).2 ▸ hentries
      · exact (hd.entries _ heq).trans hentries
    · have hsame : (setPhase (.discarding (if done then rest else runId :: rest)) u).index =
          s.index := hd.index
      rw [hsame]
      exact hspared other (mem_rest hother)
  · rename_i hphase
    rw [hphase] at hknown
    obtain ⟨⟨done, u⟩, hu, rfl⟩ := Option.map_eq_some_iff.mp hstep
    have hd := discardRun_discards h.settled hu
    have hspared : Spared s.index scan.runId := Open.spared h hknown
    cases done with
    | true =>
      refine hd.sound h hspared rfl rfl rfl rfl fun now hnow => ?_
      cases hnow
    | false =>
      refine hd.sound h hspared rfl rfl rfl rfl fun now hnow => ?_
      obtain rfl := Option.some.inj (hscan.symm.trans (hd.scan.symm.trans hnow))
      unfold Scanning
      rw [hphase]
      show Open u.runs scan none
      rw [hd.going rfl]
      exact hknown
  · rename_i runIds hphase
    rw [hphase] at hknown
    obtain ⟨runId, rest, done, u, rfl, hu, rfl⟩ := discardNext_some hstep
    have hd := discardRun_discards h.settled hu
    refine hd.sound h (hknown runId (List.mem_cons_self ..)) rfl rfl rfl rfl fun now hnow => ?_
    rw [setPhase_scan (hd.scan.trans hscan)] at hnow
    cases hnow
    intro other hother
    have hsame : (setPhase (.cleaning (if done then rest else runId :: rest)) u).index =
        s.index := hd.index
    rw [hsame]
    exact hknown other (mem_rest hother)
  · cases hstep

/-! Staging. -/

theorem sound_insertRun (h : Sound v s) (hscan : s.scan = some scan)
    (hstep : stepScan v scan s .insertRun = some t) : Sound v t := by
  have hknown := h.scanning scan hscan
  unfold stepScan at hstep
  dsimp only at hstep
  unfold Scanning at hknown
  split at hstep
  · rename_i hphase
    rw [hphase] at hknown
    obtain ⟨hrun, hentries, _⟩ := hknown
    cases hstep
    refine h.frame h.settled.refl (SameIndex.refl _) (fun other hnot => ⟨?_, rfl⟩)
      fun now hnow => ?_
    · refine (get_put ..).trans (if_neg ?_)
      rintro rfl
      refine hnot fun rootId row p hrow hp heq => ?_
      obtain ⟨run, hfound, _⟩ := (h.published rootId row p hrow hp).run
      rw [heq, hrun] at hfound
      cases hfound
    · rw [setPhase_scan (s := insertRun scan s) hscan] at hnow
      cases hnow
      refine ⟨⟨_, (get_put ..).trans (if_pos rfl), rfl, by simp, rfl⟩, ?_⟩
      show ((s.entries[scan.runId]?).getD ∅)[([] : Text)]? = none
      rw [hentries]
      simp
  · cases hstep

theorem foldl_insertEntry_named {batch : List Row} {found : Scanned} (h : Named found)
    (hbatch : ∀ row ∈ batch, row.1 ≠ []) : Named (batch.foldl insertEntry found) := by
  induction batch generalizing found with
  | nil => exact h
  | cons row batch ih =>
    refine ih ?_ fun other hother => hbatch other (List.mem_cons_of_mem _ hother)
    rw [Named, insertEntry, get_put, if_neg (hbatch row (List.mem_cons_self ..))]
    exact h

theorem Open.update {generation generation' : Option Generation} {change : RunRow → RunRow}
    (hopen : Open s.runs scan generation) (hroot : ∀ run, (change run).rootId = run.rootId)
    (hstate : ∀ run, run.state ≠ .published → (change run).state ≠ .published)
    (hgeneration : ∀ run, run.generation = generation → (change run).generation = generation') :
    Open (updateRun scan.runId change s).runs scan generation' := by
  obtain ⟨run, hrun, hr, hs, hg⟩ := hopen
  refine ⟨change run, ?_, (hroot run).trans hr, hstate run hs, hgeneration run hg⟩
  rw [updateRun_get, if_pos rfl, hrun, Option.map_some]

theorem Sound.write (h : Sound v s) {generation : Option Generation}
    (hopen : Open s.runs scan generation) (htables : t.tables = s.tables)
    (hindex : SameIndex s.index t.index)
    (hruns : ∀ runId, scan.runId ≠ runId → t.runs[runId]? = s.runs[runId]?)
    (hentries : ∀ runId, scan.runId ≠ runId → t.entries[runId]? = s.entries[runId]?)
    (hscan : ∀ scan, t.scan = some scan → Scanning v t scan) : Sound v t :=
  h.own hopen (htables ▸ h.settled.refl) hindex hruns hentries hscan

theorem setPhase_some {phase : LargeScans.Phase} (hscan : t.scan = s.scan)
    (h : s.scan = some scan) {now : Scan} (hnow : (setPhase phase t).scan = some now) :
    now = { scan with phase := phase } := by
  rw [setPhase_scan (hscan.trans h)] at hnow
  exact (Option.some.inj hnow).symm

/-- What one batch of `_stage` writes. -/
theorem stage_some {count : ℕ} {batch : List Row} (h : stage scan count batch s = some t) :
    t.tables = s.tables ∧ t.index = s.index ∧ t.scan = s.scan ∧
      t.entries = s.entries.insert scan.runId (batch.foldl insertEntry (entriesOf s scan.runId)) ∧
      t.runs = (updateRun scan.runId (fun run => { run with entryCount := count }) s).runs := by
  unfold stage at h
  split at h
  · cases h
  split at h
  · cases h
    refine ⟨updateRun_tables _, updateRun_index _, updateRun_scan _, updateRun_entries _, ?_⟩
    unfold updateRun
    split <;> rename_i hrun <;> simp [hrun]
  · cases h

theorem sound_stage (h : Sound v s) (hscan : s.scan = some scan) {batch : List Row}
    (hstep : stepScan v scan s (.stage batch) = some t) : Sound v t := by
  have hknown := h.scanning scan hscan
  unfold stepScan at hstep
  dsimp only at hstep
  unfold Scanning at hknown
  split at hstep
  · rename_i count hphase
    rw [hphase] at hknown
    obtain ⟨hopen, hnamed⟩ := hknown
    split at hstep
    · rename_i hbatch
      obtain ⟨u, hu, rfl⟩ := Option.map_eq_some_iff.mp hstep
      obtain ⟨htables, hindex, hsame, hentries, hruns⟩ := stage_some hu
      refine h.write hopen htables (hindex ▸ SameIndex.refl _) (fun runId hne => ?_)
        (fun runId hne => ?_) fun now hnow => ?_
      · exact (congrArg (·[runId]?) hruns).trans ((updateRun_get _ _).trans (if_neg hne))
      · exact (congrArg (·[runId]?) hentries).trans ((get_put ..).trans (if_neg hne))
      · obtain rfl := setPhase_some hsame hscan hnow
        refine ⟨?_, ?_⟩
        · show Open u.runs scan none
          rw [hruns]
          exact hopen.update (fun _ => rfl) (fun _ hne => hne) fun _ hg => hg
        · show Named (entriesOf u scan.runId)
          rw [entriesOf, hentries, get_put, if_pos rfl]
          exact foldl_insertEntry_named hnamed hbatch.2.2
    · cases hstep
  · cases hstep

theorem sound_walked (h : Sound v s) (hscan : s.scan = some scan)
    (hstep : stepScan v scan s .walked = some t) : Sound v t := by
  have hknown := h.scanning scan hscan
  unfold stepScan at hstep
  dsimp only at hstep
  unfold Scanning at hknown
  split at hstep
  · rename_i count hphase
    rw [hphase] at hknown
    cases hstep
    refine h.write hknown.1 rfl (SameIndex.refl _) (fun _ _ => rfl) (fun _ _ => rfl)
      fun now hnow => ?_
    obtain rfl := setPhase_some rfl hscan hnow
    exact hknown
  · cases hstep

theorem sound_complete (h : Sound v s) (hscan : s.scan = some scan) {now : Time}
    (hstep : stepScan v scan s (.complete now) = some t) : Sound v t := by
  have hknown := h.scanning scan hscan
  unfold stepScan at hstep
  dsimp only at hstep
  unfold Scanning at hknown
  split at hstep
  · rename_i hphase
    rw [hphase] at hknown
    split at hstep
    · obtain ⟨u, hu, rfl⟩ := Option.map_eq_some_iff.mp hstep
      unfold completeUnchanged at hu
      split at hu
      · cases hu
      · rename_i previous hprevious
        split at hu
        · cases hu
          refine h.write hknown.1 rfl (sameIndex_insert hprevious) (fun _ _ => rfl)
            (fun _ _ => rfl) fun now hnow => ?_
          obtain rfl := setPhase_some rfl hscan hnow
          exact hknown.1
        · cases hu
    · cases hstep
  · cases hstep

/-! Identifiers. -/

theorem foldl_data {K : Type} {f : Scanned → K → Scanned}
    (hf : ∀ run k, data (f run k) = data run) :
    ∀ (keys : List K) (run : Scanned), data (keys.foldl f run) = data run := by
  intro keys
  induction keys with
  | nil => exact fun _ => rfl
  | cons k keys ih => exact fun run => (ih (f run k)).trans (hf run k)

theorem sweep_data {limit : ℕ} {keys : Scanned → List Text} {turn : Scanned → List Text → Scanned}
    (hturn : ∀ run batch, data (turn run batch) = data run) {fuel : ℕ} {last : Text}
    {run final : Scanned} (h : sweep limit keys turn fuel last run = some final) :
    data final = data run := by
  induction fuel generalizing last run with
  | zero => cases h
  | succ fuel ih =>
    rw [sweep] at h
    split at h
    · cases h
      rfl
    · exact (ih h).trans (hturn _ _)

theorem assignNew_data {dg : Text → Text} {ids : List Text} {prior : Option Scanned} {fuel : ℕ}
    {run final : Scanned} (h : assignNew dg rootId ids prior fuel run = some final) :
    data final = data run :=
  sweep_data (fun _ _ => foldl_data (fun _ _ => setId_data ..) _ _) h

theorem reconcile_data {prior run final : Scanned} {fuel : ℕ}
    (h : reconcile prior fuel run = some final) : data final = data run := by
  refine sweep_data (fun current batch => ?_) h
  exact (foldl_data (fun _ _ => setId_data ..) _ _).trans
    (foldl_data (fun _ _ => setId_data ..) _ _)

theorem adoptLegacy_data (old : Table Identity) (run : Scanned) :
    data (adoptLegacy old run).1 = data run := by
  unfold adoptLegacy
  split
  · refine (foldl_data (fun current key => ?_) _ _).trans
      (foldl_data (fun _ _ => setId_data ..) _ _)
    split
    · exact setId_data ..
    · rfl
  · rfl

theorem assignIds_data {dg : Text → Text} {entries : Table Scanned} {previous : Option Index}
    {fuel : ℕ} {run final : Scanned}
    (h : assignIds dg rootId entries previous fuel run = some final) : data final = data run := by
  unfold assignIds at h
  split at h
  · obtain ⟨mid, hmid, hfinal⟩ := Option.bind_eq_some_iff.mp h
    exact (assignNew_data hfinal).trans (reconcile_data hmid)
  · exact (assignNew_data h).trans (adoptLegacy_data _ _)
  · exact assignNew_data h

theorem named_rows {found found' : Scanned} (h : Named found) (hrows : rows found' = rows found) :
    Named found' := by
  by_contra hpresent
  have hmem : ([] : Text) ∈ (rows found').map Prod.fst := mem_rows_paths.mpr hpresent
  rw [hrows] at hmem
  exact mem_rows_paths.mp hmem h

theorem sound_assign (h : Sound v s) (hscan : s.scan = some scan)
    (hstep : stepScan v scan s .assign = some t) : Sound v t := by
  have hknown := h.scanning scan hscan
  unfold stepScan at hstep
  dsimp only at hstep
  unfold Scanning at hknown
  split at hstep
  · rename_i hphase
    rw [hphase] at hknown
    split at hstep
    · cases hstep
    · obtain ⟨run, hrun, rfl⟩ := Option.map_eq_some_iff.mp hstep
      have hrows : rows run = rows (entriesOf s scan.runId) :=
        congrArg Std.ExtTreeMap.toList (assignIds_data hrun)
      refine h.write hknown.1 rfl (SameIndex.refl _) (fun _ _ => rfl)
        (fun runId hne => (get_put ..).trans (if_neg hne)) fun now hnow => ?_
      obtain rfl := setPhase_some (t := { s with entries := s.entries.insert scan.runId run }) rfl
        hscan hnow
      have hfound : entriesOf { s with entries := s.entries.insert scan.runId run } scan.runId =
          run := by
        rw [entriesOf, get_put, if_pos rfl]
        rfl
      refine ⟨hknown.1, ?_, ?_⟩
      · show Named (entriesOf { s with entries := s.entries.insert scan.runId run } scan.runId)
        rw [hfound]
        exact named_rows hknown.2 hrows
      · show observation s scan = ⟨scan.root,
          rows (entriesOf { s with entries := s.entries.insert scan.runId run } scan.runId)⟩
        rw [hfound, hrows]
        rfl
  · cases hstep

theorem sound_assignPart (h : Sound v s) (hscan : s.scan = some scan) {run : Scanned}
    (hstep : stepScan v scan s (.assignPart run) = some t) : Sound v t := by
  have hknown := h.scanning scan hscan
  unfold stepScan at hstep
  dsimp only at hstep
  unfold Scanning at hknown
  split at hstep
  · rename_i hphase
    rw [hphase] at hknown
    split at hstep
    · cases hstep
    · cases hstep
      refine h.write hknown.1 rfl (SameIndex.refl _) (fun _ _ => rfl)
        (fun runId hne => (get_put ..).trans (if_neg hne)) fun now hnow => ?_
      obtain rfl := setPhase_some (t := { s with entries := s.entries.insert scan.runId run }) rfl
        hscan hnow
      exact hknown.1
  · cases hstep

/-! Building. -/

theorem seen_start {found : Scanned} (h : Named found) : seen [] found = [] := by
  refine List.filter_eq_nil_iff.mpr fun path hpath => ?_
  have hne : path ≠ [] := by
    rintro rfl
    obtain ⟨⟨other, entry⟩, hmem, heq⟩ := List.mem_map.mp hpath
    cases heq
    have hget := Std.ExtTreeMap.mem_toList_iff_getElem?_eq_some.mp (List.mem_filter.mp hmem).1
    rw [h] at hget
    cases hget
  cases path with
  | nil => exact absurd rfl hne
  | cons c path => simp

theorem paths_all_sorted (found : Scanned) : (allPaths found).Pairwise (· < ·) :=
  paths_sorted _ found

theorem seen_page {found : Scanned} {limit : ℕ} {last top : Text}
    (htop : (page limit last (allPaths found)).getLast? = some top) :
    seen top found = seen last found ++ page limit last (allPaths found) := by
  have hsorted := paths_all_sorted found
  obtain ⟨hmem, hle, hall⟩ := page_top hsorted htop
  have hlast : last < top := (mem_page hmem).2
  have hpage : (page limit last (allPaths found)).Pairwise (· < ·) :=
    (hsorted.sublist List.filter_sublist).sublist (List.take_sublist ..)
  refine List.Pairwise.eq_of_mem_iff (hsorted.sublist List.filter_sublist) ?_ fun path => ?_
  · refine List.pairwise_append.mpr ⟨hsorted.sublist List.filter_sublist, hpage, ?_⟩
    intro path hpath other hother
    have hbefore := of_decide_eq_true (List.mem_filter.mp hpath).2
    exact lt_of_le_of_lt hbefore (mem_page hother).2
  · rw [List.mem_append, seen, seen, List.mem_filter, List.mem_filter, decide_eq_true_eq,
      decide_eq_true_eq]
    constructor
    · rintro ⟨hpath, hbelow⟩
      rcases le_or_gt path last with hold | hnew
      · exact .inl ⟨hpath, hold⟩
      · exact .inr (hall path hpath hnew hbelow)
    · rintro (⟨hpath, hbelow⟩ | hpath)
      · exact ⟨hpath, le_of_lt (lt_of_le_of_lt hbelow hlast)⟩
      · exact ⟨(mem_page hpath).1, hle path hpath⟩

theorem seen_all {found : Scanned} {last : Text}
    (hnone : (page buildBatchSize last (allPaths found)).getLast? = none) :
    seen last found = allPaths found := by
  refine List.filter_eq_self.mpr fun path hpath => decide_eq_true ?_
  exact page_empty (by decide) hnone path hpath

theorem builtItem_some {root : Config} {path : Text} {entry : Entry} {item : Item}
    (h : builtItem v root path entry = some item) : ∃ itemId, entry.itemId = some itemId ∧
      buildItem v.library root.rootId root.displayPrefix root.schema
        ⟨path, entry.data.size, v.modifiedAt entry.data.mtimeNs, itemId⟩ = .ok item := by
  obtain ⟨itemId, hid, hitem⟩ := Option.bind_eq_some_iff.mp h
  exact ⟨itemId, hid, toOption_some hitem⟩

theorem builtItems_append {root : Config} {found : Scanned} {first more : List Text}
    {items later : List Item} (h : builtItems v root found first = some items)
    (hmore : builtItems v root found more = some later) :
    builtItems v root found (first ++ more) = some (items ++ later) := by
  unfold builtItems at h hmore ⊢
  rw [List.mapM_append, h, hmore]
  rfl

/-- What the first transaction of `_build_generation` writes. -/
theorem createFor_some {fingerprint : Observation} {generation : Generation}
    (h : createFor scan fingerprint s = some (t, generation)) :
    generation = ⟨scan.root.rootId, fingerprint⟩ ∧
      createGeneration s.tables scan.root.rootId generation = .ok t.tables ∧ t.index = s.index ∧
      t.scan = s.scan ∧ t.entries = s.entries ∧
      t.runs =
        (updateRun scan.runId (fun run => { run with generation := some generation }) s).runs := by
  unfold createFor at h
  dsimp only at h
  split at h
  · cases h
  · rename_i tables hcreate
    cases h
    refine ⟨rfl, ?_, updateRun_index _, updateRun_scan _, updateRun_entries _, ?_⟩
    · rw [updateRun_tables]
      exact hcreate
    · unfold updateRun
      split <;> rename_i hrun <;> simp [hrun]

theorem sound_create (h : Sound v s) (hscan : s.scan = some scan)
    (hstep : stepScan v scan s .create = some t) : Sound v t := by
  have hknown := h.scanning scan hscan
  unfold stepScan at hstep
  dsimp only at hstep
  unfold Scanning at hknown
  split at hstep
  · rename_i fingerprint hphase
    rw [hphase] at hknown
    obtain ⟨hopen, hnamed, rfl⟩ := hknown
    obtain ⟨⟨u, generation⟩, hu, rfl⟩ := Option.map_eq_some_iff.mp hstep
    obtain ⟨rfl, hcreate, hindex, hsame, hentries, hruns⟩ := createFor_some hu
    obtain ⟨hkept, hfilled, hrow⟩ := h.settled.create (g := ⟨scan.root.rootId, _⟩) hcreate
    refine h.own hopen hkept (hindex ▸ SameIndex.refl _) (fun runId hne => ?_)
      (fun runId hne => congrArg (·[runId]?) hentries) fun now hnow => ?_
    · exact (congrArg (·[runId]?) hruns).trans ((updateRun_get _ _).trans (if_neg hne))
    · obtain rfl := setPhase_some hsame hscan hnow
      have hfound : entriesOf u scan.runId = entriesOf s scan.runId := by
        rw [entriesOf, hentries, entriesOf]
      refine ⟨?_, ?_⟩
      · show Open u.runs scan _
        rw [hruns]
        exact hopen.update (fun _ => rfl) (fun _ hne => hne) fun _ _ => rfl
      · show Building v u.tables (entriesOf u scan.runId) scan.root _ .building
          (seen [] (entriesOf u scan.runId))
        rw [hfound, seen_start hnamed]
        exact ⟨hnamed, rfl, hrow, [], rfl, hfilled⟩
  · cases hstep

theorem addBatch_some {root : Config} {generation : Generation} {batch : List Text}
    (h : addBatch v root runId generation batch s = some t) :
    ∃ items tables, builtItems v root (entriesOf s runId) batch = some items ∧
      addItems v.library s.tables generation items = .ok tables ∧
      t = { s with tables := tables } := by
  obtain ⟨items, hitems, hadd⟩ := Option.bind_eq_some_iff.mp h
  split at hadd
  · cases hadd
  · rename_i tables htables
    exact ⟨items, tables, hitems, htables, (Option.some.inj hadd).symm⟩

theorem finishBuild_some {generation : Generation} (h : finishBuild runId generation s = some t) :
    finish s.tables generation = .ok t.tables ∧ t.index = s.index ∧ t.scan = s.scan ∧
      t.entries = s.entries ∧ t.runs = (updateRun runId
        (fun run => { run with state := .built, generation := some generation }) s).runs := by
  unfold finishBuild at h
  split at h
  · cases h
  · rename_i tables hfinish
    cases h
    refine ⟨?_, updateRun_index _, updateRun_scan _, updateRun_entries _, ?_⟩
    · rw [updateRun_tables]
      exact hfinish
    · unfold updateRun
      split <;> rename_i hrun <;> simp [hrun]

theorem sound_build (h : Sound v s) (hscan : s.scan = some scan)
    (hstep : stepScan v scan s .build = some t) : Sound v t := by
  have hknown := h.scanning scan hscan
  unfold stepScan at hstep
  dsimp only at hstep
  unfold Scanning at hknown
  split at hstep
  · rename_i generation last hphase
    rw [hphase] at hknown
    obtain ⟨hopen, hnamed, hgeneration, hrow, items, hitems, hfilled⟩ := hknown
    have hroot : scan.root.rootId = generation.rootId := by rw [hgeneration]
    rw [hroot] at hrow
    split at hstep
    · rename_i hnone
      obtain ⟨u, hu, rfl⟩ := Option.map_eq_some_iff.mp hstep
      obtain ⟨hfinish, hindex, hsame, hentries, hruns⟩ := finishBuild_some hu
      obtain ⟨hkept, hfilled', hready⟩ := h.settled.finish hrow hfilled hfinish
      refine h.own hopen hkept (hindex ▸ SameIndex.refl _) (fun runId hne => ?_)
        (fun runId hne => congrArg (·[runId]?) hentries) fun now hnow => ?_
      · exact (congrArg (·[runId]?) hruns).trans ((updateRun_get _ _).trans (if_neg hne))
      · obtain rfl := setPhase_some hsame hscan hnow
        have hfound : entriesOf u scan.runId = entriesOf s scan.runId := by
          rw [entriesOf, hentries, entriesOf]
        refine ⟨?_, ?_⟩
        · show Open u.runs scan _
          rw [hruns]
          exact hopen.update (fun _ => rfl) (fun _ _ => by simp) fun _ _ => rfl
        · show Building v u.tables (entriesOf u scan.runId) scan.root generation .ready
            (allPaths (entriesOf u scan.runId))
          rw [hfound]
          rw [seen_all hnone] at hitems
          exact ⟨hnamed, hgeneration, hroot ▸ hready, items, hitems, hfilled'⟩
    · rename_i top htop
      obtain ⟨u, hu, rfl⟩ := Option.map_eq_some_iff.mp hstep
      obtain ⟨later, tables, hlater, hadd, rfl⟩ := addBatch_some hu
      obtain ⟨hkept, hfilled', hrow'⟩ := h.settled.add hrow hfilled hadd
      refine h.own hopen hkept (SameIndex.refl _) (fun _ _ => rfl) (fun _ _ => rfl)
        fun now hnow => ?_
      obtain rfl := setPhase_some (t := { s with tables := tables }) rfl hscan hnow
      refine ⟨hopen, hnamed, hgeneration, hroot ▸ hrow', items ++ later, ?_, hfilled'⟩
      show builtItems v scan.root (entriesOf s scan.runId) (seen top (entriesOf s scan.runId)) = _
      rw [seen_page htop]
      exact builtItems_append hitems hlater
  · cases hstep

/-! Publication. -/

/-- What `_publish` writes. -/
theorem publish_some {generation : Generation} {now : Time}
    (h : publish scan generation now s = some t) :
    activateGeneration s.tables generation = .ok t.tables ∧ t.scan = s.scan ∧
      t.entries = s.entries ∧
      t.index = s.index.insert scan.root.rootId
        ⟨.sqlite ⟨scan.root, generation, scan.runId, generation.fingerprint⟩, now,
          now, now, .current⟩ ∧
      t.runs = (updateRun scan.runId (fun run => { run with
        state := .published, fingerprintDigest := some generation.fingerprint }) s).runs := by
  unfold publish at h
  split at h
  · split at h
    · cases h
    · rename_i tables hactivate
      cases h
      refine ⟨?_, updateRun_scan _, updateRun_entries _, updateRun_index _, ?_⟩
      · rw [updateRun_tables]
        exact hactivate
      · unfold updateRun
        split <;> rename_i hrun <;> simp [hrun]
  · cases h

theorem sound_publish (h : Sound v s) (hscan : s.scan = some scan) {now : Time}
    (hstep : stepScan v scan s (.publish now) = some t) : Sound v t := by
  have hknown := h.scanning scan hscan
  unfold stepScan at hstep
  dsimp only at hstep
  unfold Scanning at hknown
  split at hstep
  · rename_i generation hphase
    rw [hphase] at hknown
    obtain ⟨hopen, hnamed, hgeneration, hrow, items, hitems, hfilled⟩ := hknown
    have hroot : scan.root.rootId = generation.rootId := by rw [hgeneration]
    obtain ⟨u, hu, rfl⟩ := Option.map_eq_some_iff.mp hstep
    obtain ⟨hactivate, hsame, hentries, hindex, hruns⟩ := publish_some hu
    obtain ⟨hsettled, hactive, hrows, hothers⟩ := h.settled.activate (hroot ▸ hrow) hactivate
    have hfound : ∀ runId, entriesOf u runId = entriesOf s runId := by
      intro runId
      rw [entriesOf, hentries, entriesOf]
    have hspared : ∀ (rootId : Text) row p, s.index[rootId]? = some row →
        row.contents = .sqlite p → p.scanRunId ≠ scan.runId := hopen.spared h
    refine ⟨hsettled, ?_, ?_⟩
    · intro rootId row p hrow' hp
      have hrow'' : u.index[rootId]? = some row := hrow'
      rw [hindex, get_put] at hrow''
      show Published v u.runs (entriesOf u p.scanRunId) u.tables rootId p
      split at hrow''
      · rename_i hmine
        cases hrow''
        cases hp
        obtain ⟨run, hrun, hrunRoot, _, hrunGeneration⟩ := hopen
        refine ⟨hmine, ?_, ?_, ⟨{ run with
          state := .published, fingerprintDigest := some generation.fingerprint }, ?_,
          hrunRoot.trans hmine, rfl, hrunGeneration, rfl⟩, ?_, ?_⟩
        · rw [← hmine, hgeneration]
        · rw [← hmine, hroot]
          exact hactive
        · rw [hruns, updateRun_get, if_pos rfl, hrun]
          rfl
        · rw [hfound, hgeneration]
        · rw [hfound]
          exact ⟨items, hitems, hfilled.same (hrows generation)⟩
      · rename_i hother
        have hold := h.published rootId row p hrow'' hp
        have hne : p.scanRunId ≠ scan.runId := hspared rootId row p hrow'' hp
        obtain ⟨items', hitems', hfilled''⟩ := hold.filled
        rw [hfound]
        refine ⟨hold.root, hold.named, ?_, ?_, hold.observed, items', hitems',
          hfilled''.same (hrows _)⟩
        · exact hothers _ hold.active rfl fun heq => hother (hroot.trans heq.symm)
        · rw [hruns, updateRun_get, if_neg hne.symm]
          exact hold.run
    · intro after hafter
      obtain rfl := setPhase_some hsame hscan hafter
      intro runId hmem rootId row p hrow' hp heq
      have hrow'' : u.index[rootId]? = some row := hrow'
      obtain ⟨hlist, hkeep⟩ := List.mem_filter.mp hmem
      have hkeep : runId ≠ scan.runId := of_decide_eq_true hkeep
      obtain ⟨⟨other, run⟩, hrun, rfl⟩ := List.mem_map.mp hlist
      obtain ⟨hget, hcheck⟩ := List.mem_filter.mp hrun
      have hget := Std.ExtTreeMap.mem_toList_iff_getElem?_eq_some.mp hget
      rw [hindex, get_put] at hrow''
      split at hrow''
      · cases hrow''
        cases hp
        exact hkeep heq.symm
      · rename_i hother
        -- Another root has its own run.
        have hold := h.published rootId row p hrow'' hp
        obtain ⟨found, hfound', hfoundRoot, _⟩ := hold.run
        have hsameRun : p.scanRunId = other := heq
        rw [hruns, updateRun_get, if_neg (show scan.runId ≠ other from hkeep.symm), ← hsameRun,
          hfound'] at hget
        cases hget
        simp only [decide_eq_true_eq] at hcheck
        exact hother (hcheck.1.symm.trans hfoundRoot)
  · cases hstep

/-! The end of a scan. -/

theorem sound_idle (h : Sound v s) : Sound v { s with scan := none } :=
  h.frame h.settled.refl (SameIndex.refl _) (fun _ _ => ⟨rfl, rfl⟩) fun scan hscan => by cases hscan

theorem fail_index (scan : Scan) (s : LargeScans.State) :
    SameIndex s.index (LargeScans.fail scan s).index := by
  unfold LargeScans.fail
  dsimp only
  split
  · rename_i previous hprevious
    exact sameIndex_insert hprevious
  · exact SameIndex.refl _

theorem fail_frame (scan : Scan) (s : LargeScans.State) :
    (LargeScans.fail scan s).tables = s.tables ∧ (LargeScans.fail scan s).entries = s.entries ∧
      (LargeScans.fail scan s).runs =
        (updateRun scan.runId (fun run => { run with state := .failed }) s).runs :=
  ⟨updateRun_tables _, updateRun_entries _, rfl⟩

theorem stopped_frame (scan : Scan) (s : LargeScans.State) :
    (stopped scan s).tables = s.tables ∧ (stopped scan s).entries = s.entries ∧
      (stopped scan s).runs = s.runs ∧ (stopped scan s).index = s.index := by
  unfold stopped
  split
  · split
    · exact ⟨rfl, rfl, rfl, rfl⟩
    · exact ⟨rfl, rfl, rfl, rfl⟩
  · exact ⟨rfl, rfl, rfl, rfl⟩

theorem sound_fail (h : Sound v s) (hscan : s.scan = some scan)
    (hstep : stepScan v scan s .fail = some t) : Sound v t := by
  unfold stepScan at hstep
  dsimp only at hstep
  split at hstep
  · rename_i hworking
    cases hstep
    obtain ⟨generation, hopen⟩ := (h.scanning scan hscan).working hworking
    obtain ⟨htables, hentries, hruns⟩ := fail_frame scan s
    refine h.write hopen htables (fail_index scan s) (fun runId hne => ?_)
      (fun runId _ => congrArg (·[runId]?) hentries) fun now hnow => by cases hnow
    exact (congrArg (·[runId]?) hruns).trans ((updateRun_get _ _).trans (if_neg hne))
  · cases hstep

theorem sound_stop (h : Sound v s) (hscan : s.scan = some scan)
    (hstep : stepScan v scan s .stop = some t) : Sound v t := by
  unfold stepScan at hstep
  dsimp only at hstep
  split at hstep
  · rename_i hworking
    cases hstep
    obtain ⟨generation, hopen⟩ := (h.scanning scan hscan).working hworking
    obtain ⟨htables, hentries, hruns, hindex⟩ := stopped_frame scan s
    exact h.write hopen htables (hindex ▸ SameIndex.refl _)
      (fun runId _ => congrArg (·[runId]?) hruns) (fun runId _ => congrArg (·[runId]?) hentries)
      fun now hnow => by cases hnow
  · cases hstep

/-! Every step. -/

theorem sound_scan (h : Sound v s) {root : Config} (hdrawn : Drawn s (.scan root runId))
    (hstep : step v s (.scan root runId) = some t) : Sound v t := by
  unfold step at hstep
  dsimp only at hstep
  split at hstep
  · cases hstep
    refine h.frame h.settled.refl (SameIndex.refl _) (fun _ _ => ⟨rfl, rfl⟩) fun now hnow => ?_
    cases hnow
    refine ⟨hdrawn.1, hdrawn.2, fun other hother rootId row p hrow hp heq => ?_⟩
    obtain ⟨run, hrun, _, hstate, _⟩ := (h.published rootId row p hrow hp).run
    obtain ⟨⟨key, found⟩, hfound, hkey⟩ := List.mem_map.mp hother
    obtain ⟨hget, hcheck⟩ := List.mem_filter.mp hfound
    have hget := Std.ExtTreeMap.mem_toList_iff_getElem?_eq_some.mp hget
    have hsameRun : p.scanRunId = key := heq.trans hkey.symm
    rw [← hsameRun, hrun] at hget
    cases hget
    simp [hstate] at hcheck
  · cases hstep

theorem Scanning.replaced (h : Scanning v s scan) {index : Table IndexRow}
    (hindex : SameIndex s.index index) : Scanning v { s with index := index } scan := by
  unfold Scanning at h ⊢
  cases hphase : scan.phase with
  | discarding runIds =>
    rw [hphase] at h
    exact ⟨h.1, h.2.1, fun runId hmem => hindex.spared (h.2.2 runId hmem)⟩
  | cleaning runIds =>
    rw [hphase] at h
    exact fun runId hmem => hindex.spared (h runId hmem)
  | _ =>
    rw [hphase] at h
    exact h

theorem sound_replace (h : Sound v s) {row : IndexRow}
    (hstep : step v s (.replace rootId row) = some t) : Sound v t := by
  unfold step at hstep
  dsimp only at hstep
  split at hstep
  · rename_i hkind
    cases hstep
    have hindex : SameIndex s.index (s.index.insert rootId row) := by
      intro other found p hfound hp
      rw [get_put] at hfound
      split at hfound
      · cases hfound
        rw [hp] at hkind
        cases hkind
      · exact ⟨found, hfound, hp⟩
    exact h.frame h.settled.refl hindex (fun _ _ => ⟨rfl, rfl⟩) fun scan hscan =>
      (h.scanning scan hscan).replaced hindex
  · cases hstep

theorem scanning_of_step {e : LargeScans.Event}
    (h : (match s.scan with
      | none => none
      | some scan => stepScan v scan s e) = some t) :
    ∃ scan, s.scan = some scan ∧ stepScan v scan s e = some t := by
  split at h
  · cases h
  · rename_i scan hscan
    exact ⟨scan, hscan, h⟩

theorem sound_step {e : LargeScans.Event} (h : Sound v s) (hdrawn : Drawn s e)
    (hstep : step v s e = some t) : Sound v t := by
  cases e with
  | scan root runId => exact sound_scan h hdrawn hstep
  | replace rootId row => exact sound_replace h hstep
  | configure rootId root =>
    cases hstep
    exact h.frame h.settled.refl (SameIndex.refl _) (fun _ _ => ⟨rfl, rfl⟩) h.scanning
  | discard =>
    obtain ⟨scan, hscan, hstep⟩ := scanning_of_step hstep
    exact sound_discard h hscan hstep
  | insertRun =>
    obtain ⟨scan, hscan, hstep⟩ := scanning_of_step hstep
    exact sound_insertRun h hscan hstep
  | stage batch =>
    obtain ⟨scan, hscan, hstep⟩ := scanning_of_step hstep
    exact sound_stage h hscan hstep
  | walked =>
    obtain ⟨scan, hscan, hstep⟩ := scanning_of_step hstep
    exact sound_walked h hscan hstep
  | complete now =>
    obtain ⟨scan, hscan, hstep⟩ := scanning_of_step hstep
    exact sound_complete h hscan hstep
  | assign =>
    obtain ⟨scan, hscan, hstep⟩ := scanning_of_step hstep
    exact sound_assign h hscan hstep
  | assignPart run =>
    obtain ⟨scan, hscan, hstep⟩ := scanning_of_step hstep
    exact sound_assignPart h hscan hstep
  | create =>
    obtain ⟨scan, hscan, hstep⟩ := scanning_of_step hstep
    exact sound_create h hscan hstep
  | build =>
    obtain ⟨scan, hscan, hstep⟩ := scanning_of_step hstep
    exact sound_build h hscan hstep
  | publish now =>
    obtain ⟨scan, hscan, hstep⟩ := scanning_of_step hstep
    exact sound_publish h hscan hstep
  | fail =>
    obtain ⟨scan, hscan, hstep⟩ := scanning_of_step hstep
    exact sound_fail h hscan hstep
  | stop =>
    obtain ⟨scan, hscan, hstep⟩ := scanning_of_step hstep
    exact sound_stop h hscan hstep
  | crash =>
    obtain ⟨scan, hscan, hstep⟩ := scanning_of_step hstep
    cases hstep
    exact sound_idle h

theorem run_sound (h : LargeScans.Run v s) : Sound v s := by
  induction h with
  | start roots index progress hindex =>
    refine ⟨⟨⟨by simp, by simp, by simp, by simp, by simp, by simp, by simp⟩, by simp, by simp⟩, ?_,
      fun scan hscan => by cases hscan⟩
    intro rootId row p hrow hp
    have hnone := hindex rootId row hrow
    rw [hp] at hnone
    cases hnone
  | step _ hdrawn hstep ih => exact sound_step ih hdrawn hstep

/-- The published index of a root stands for the entries of its run, whatever has happened: the
run is published and keeps its entries, and its generation is the only active one of the root and
holds exactly the items that are built from them. -/
theorem published_generation_complete (h : LargeScans.Run v s) {row : IndexRow}
    (hrow : s.index[rootId]? = some row) (hp : row.contents = .sqlite p) :
    Published v s.runs (entriesOf s p.scanRunId) s.tables rootId p ∧
      ∀ generation ∈ s.tables.generations, generation.rootId = rootId →
        generation.state = .active → generation.generationId = p.generation := by
  have hsound := run_sound h
  have hpublished := hsound.published rootId row p hrow hp
  refine ⟨hpublished, fun generation hmem hroot hactive => ?_⟩
  rw [hsound.settled.single _ hpublished.active rfl generation hmem hactive hroot]

/-! A run. -/

/-- The steps, if there is one for each of the events and the names drawn are new. -/
def play (v : Site) (es : List LargeScans.Event) (s : LargeScans.State) :
    Option LargeScans.State :=
  Scripts.play Drawn (step v) es s

theorem play_run {es : List LargeScans.Event} (h : LargeScans.Run v s)
    (hplay : play v es s = some t) : LargeScans.Run v t :=
  Scripts.play_keeps (LargeScans.Run v) (fun _ h hdrawn hu => h.step hdrawn hu) h hplay

def flatSite : Site where
  library := Search.plain
  digest := unary
  modifiedAt := fun _ => "2024-01-01T00:00:00Z".toList

def flatRoot : Config := ⟨['r'], ['r'], [], [], true, ['1'], ⟨['1'], [], []⟩, [[]]⟩

def flatStart : LargeScans.State :=
  ⟨(∅ : Table Config).insert ['r'] flatRoot, ∅, ∅, {}, ∅, ∅, none⟩

theorem flatStart_run : LargeScans.Run flatSite flatStart := .start _ _ _ (by simp)

/-- A scan that finds one file, up to its publication. -/
def scanOf (runId name : Char) : List LargeScans.Event :=
  [.scan flatRoot [runId], .insertRun, .stage [([name], ⟨1, name.toNat, 3, 0⟩)], .walked, .assign,
    .create, .build, .build, .publish 5]

def ofRun (runId : Text) : Contents → Bool
  | .sqlite p => p.scanRunId = runId
  | _ => false

/-- The clean-up after a second scan crashes when it has deleted the rows of the first one. -/
theorem published_after_crash :
    ∃ s row p, LargeScans.Run flatSite s ∧ s.index[(['r'] : Text)]? = some row ∧
      row.contents = .sqlite p ∧ p.scanRunId = ['2'] ∧ s.tables.generations.length = 2 ∧
      s.tables.items.length = 1 ∧
      Published flatSite s.runs (entriesOf s p.scanRunId) s.tables ['r'] p := by
  have hrun : (play flatSite (scanOf '1' 'a' ++ .crash :: scanOf '2' 'b' ++ [.discard, .crash])
      flatStart).any (fun s => s.tables.generations.length = 2 ∧ s.tables.items.length = 1 ∧
        (s.index[(['r'] : Text)]?).any fun row => ofRun ['2'] row.contents) = true := by
    decide +kernel
  obtain ⟨s, hplay, hend⟩ := (Option.any_eq_true _ _).mp hrun
  obtain ⟨hgenerations, hitems, hend⟩ := of_decide_eq_true hend
  obtain ⟨row, hrow, hend⟩ := (Option.any_eq_true _ _).mp hend
  have hreached := play_run flatStart_run hplay
  cases hp : row.contents with
  | sqlite p =>
    rw [hp] at hend
    exact ⟨s, row, p, hreached, hrow, hp, of_decide_eq_true hend, hgenerations, hitems,
      (published_generation_complete hreached hrow hp).1⟩
  | legacy entryIds =>
    rw [hp] at hend
    cases hend
  | opensearch =>
    rw [hp] at hend
    cases hend

end LargePublication
