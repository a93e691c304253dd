import WiseWay.LargePublication

/-! # What large scans leave behind

The rows that stops, failures and crashes leave: every generation belongs to a run, the one of an
unpublished run is never active, and the identifiers of published entries are settled. No root has
had a JSON index. -/
namespace LargeRuns

open Records EntryIds LargeIdentity SearchTables SearchGenerations Sweeps LargeScans
open Search hiding Row Location
open SearchGenerations hiding Rows
open LargePublication hiding play play_run

variable {v : Site} {s t : LargeScans.State} {rootId runId : Text} {p : SqliteIndex} {scan : Scan}
  {a b : Tables Generation}

def isLegacy : Contents → Bool
  | .legacy _ => true
  | _ => false

/-- No JSON index takes the place of another index. -/
def Plain : LargeScans.Event → Bool
  | .replace _ row => !isLegacy row.contents
  | _ => true

/-- Runs without JSON indexes. -/
inductive Clean (v : Site) : LargeScans.State → Prop where
  | start (roots : Table Config) (index : Table IndexRow) (progress : Table LargeScans.Progress) :
      (∀ (k : Text) row, index[k]? = some row → row.contents.generation = none ∧
        isLegacy row.contents = false) →
      Clean v ⟨roots, ∅, ∅, {}, index, progress, none⟩
  | step {s t : LargeScans.State} {e : LargeScans.Event} : Clean v s → Drawn s e → Plain e = true →
      step v s e = some t → Clean v t

theorem Clean.run (h : Clean v s) : LargeScans.Run v s := by
  induction h with
  | start roots index progress hindex =>
    exact .start roots index progress fun k row hrow => (hindex k row hrow).1
  | step _ hdrawn _ hstep ih => exact ih.step hdrawn hstep

/-! The invariant. -/

/-- The only unpublished run of the root is that of the scan. -/
def Alone (s : LargeScans.State) (scan : Scan) : Prop :=
  ∀ (runId : Text) run, s.runs[runId]? = some run → run.rootId = scan.root.rootId →
    run.state ≠ .published → runId = scan.runId

def Free (found : Scanned) : Prop :=
  ∀ (path : Text) row, found[path]? = some row → row.itemId = none

def Working (v : Site) (s : LargeScans.State) (scan : Scan) : Prop :=
  match scan.phase with
  | .discarding runIds => ∀ (runId : Text) run, s.runs[runId]? = some run →
      run.rootId = scan.root.rootId → run.state ≠ .published → runId ∈ runIds
  | .cleaning _ => True
  | .staging _ => Alone s scan ∧ Free (entriesOf s scan.runId)
  | .staged => Alone s scan ∧ Free (entriesOf s scan.runId)
  | .interrupted => Alone s scan
  | .unchanged => Alone s scan
  | .assigned _ => Alone s scan ∧
      LargeIdentity.Settled v.digest scan.root.rootId (entriesOf s scan.runId)
  | .building _ _ => Alone s scan ∧
      LargeIdentity.Settled v.digest scan.root.rootId (entriesOf s scan.runId)
  | .built _ => Alone s scan ∧
      LargeIdentity.Settled v.digest scan.root.rootId (entriesOf s scan.runId)

structure Tidy (v : Site) (s : LargeScans.State) : Prop where
  held : ∀ row ∈ s.tables.generations, ∃ (runId : Text) (run : RunRow),
    s.runs[runId]? = some run ∧ run.generation = some row.generationId
  named : ∀ (runId : Text) run g, s.runs[runId]? = some run → run.generation = some g →
    g.rootId = run.rootId
  inactive : ∀ (runId : Text) run, s.runs[runId]? = some run → run.state ≠ .published →
    ∀ row ∈ s.tables.generations, run.generation = some row.generationId → row.state ≠ .active
  settled : ∀ (rootId : Text) row p, s.index[rootId]? = some row → row.contents = .sqlite p →
    LargeIdentity.Settled v.digest rootId (entriesOf s p.scanRunId)
  plain : ∀ (rootId : Text) row, s.index[rootId]? = some row → isLegacy row.contents = false
  scanning : ∀ scan, s.scan = some scan → Working v s scan

/-! Frames. -/

/-- No generation comes, and none becomes active. -/
structure Calm (a b : Tables Generation) : Prop where
  ids : ∀ row ∈ b.generations, ∃ old ∈ a.generations, old.generationId = row.generationId
  active : ∀ row ∈ b.generations, row.state = .active → row ∈ a.generations

theorem Calm.refl (a : Tables Generation) : Calm a a :=
  ⟨fun row hrow => ⟨row, hrow, rfl⟩, fun _ hrow _ => hrow⟩

/-- Only the freshness of index rows changes, or an OpenSearch index is put in. -/
def Touched (index index' : Table IndexRow) : Prop :=
  ∀ (rootId : Text) row, index'[rootId]? = some row →
    (row.contents.generation = none ∧ isLegacy row.contents = false) ∨
      ∃ old, index[rootId]? = some old ∧ old.contents = row.contents

theorem Touched.refl (index : Table IndexRow) : Touched index index :=
  fun _ row hrow => .inr ⟨row, hrow, rfl⟩

theorem Touched.same {index index' : Table IndexRow} (h : Touched index index') :
    SameIndex index index' := by
  intro rootId row p hrow hp
  rcases h rootId row hrow with ⟨hnone, _⟩ | ⟨old, hold, hsame⟩
  · rw [hp] at hnone
    cases hnone
  · exact ⟨old, hold, hsame.trans hp⟩

theorem touched_insert {index : Table IndexRow} {old : IndexRow} {freshness : Freshness}
    (hold : index[rootId]? = some old) :
    Touched index (index.insert rootId { old with freshness := freshness }) := by
  intro other row hrow
  rw [get_put] at hrow
  split at hrow
  · rename_i hroot
    cases hrow
    exact .inr ⟨old, hroot ▸ hold, rfl⟩
  · exact .inr ⟨row, hrow, rfl⟩

/-- A run after a step that leaves its generation, or a new one. -/
def Kin (s : LargeScans.State) (runId : Text) (run : RunRow) : Prop :=
  (∃ old, s.runs[runId]? = some old ∧ run.rootId = old.rootId ∧ run.generation = old.generation ∧
    (run.state ≠ .published → old.state ≠ .published)) ∨ run.generation = none

theorem Tidy.frame (h : Tidy v s) (hcalm : Calm s.tables t.tables)
    (hruns : ∀ (runId : Text) run, t.runs[runId]? = some run → Kin s runId run)
    (hheld : ∀ row ∈ t.tables.generations, ∀ (runId : Text) run, s.runs[runId]? = some run →
      run.generation = some row.generationId → ∃ (runId : Text) (run : RunRow),
        t.runs[runId]? = some run ∧ run.generation = some row.generationId)
    (hindex : Touched s.index t.index)
    (hentries : ∀ runId, ¬Spared s.index runId → t.entries[runId]? = s.entries[runId]?)
    (hscan : ∀ scan, t.scan = some scan → Working v t scan) : Tidy v t := by
  refine ⟨?_, ?_, ?_, ?_, ?_, hscan⟩
  · intro row hrow
    obtain ⟨old, hold, hid⟩ := hcalm.ids row hrow
    obtain ⟨runId, run, hrun, hg⟩ := h.held old hold
    exact hheld row hrow runId run hrun (hid ▸ hg)
  · intro runId run g hrun hg
    rcases hruns runId run hrun with ⟨old, hold, hroot, hsame, _⟩ | hnone
    · rw [hroot]
      exact h.named runId old g hold (hsame ▸ hg)
    · rw [hg] at hnone
      cases hnone
  · intro runId run hrun hstate row hrow hg hactive
    rcases hruns runId run hrun with ⟨old, hold, _, hsame, hkeep⟩ | hnone
    · exact h.inactive runId old hold (hkeep hstate) row (hcalm.active row hrow hactive)
        (hsame ▸ hg) hactive
    · rw [hg] at hnone
      cases hnone
  · intro rootId row p hrow hp
    obtain ⟨old, hold, hp'⟩ := hindex.same rootId row p hrow hp
    have hsame := hentries p.scanRunId fun hspared => hspared rootId old p hold hp' rfl
    rw [entriesOf, hsame]
    exact h.settled rootId old p hold hp'
  · intro rootId row hrow
    rcases hindex rootId row hrow with ⟨_, hplain⟩ | ⟨old, hold, hsame⟩
    · exact hplain
    · rw [← hsame]
      exact h.plain rootId old hold

theorem Tidy.still (h : Tidy v s) (htables : t.tables = s.tables) (hruns : t.runs = s.runs)
    (hindex : Touched s.index t.index)
    (hentries : ∀ runId, ¬Spared s.index runId → t.entries[runId]? = s.entries[runId]?)
    (hscan : ∀ scan, t.scan = some scan → Working v t scan) : Tidy v t := by
  refine h.frame (htables ▸ .refl _) (fun runId run hrun => ?_)
    (fun row hrow runId run hrun hg => ?_) hindex hentries hscan
  · rw [hruns] at hrun
    exact .inl ⟨run, hrun, rfl, rfl, id⟩
  · exact ⟨runId, run, hruns ▸ hrun, hg⟩

theorem Tidy.own (h : Tidy v s) {change : RunRow → RunRow} (hcalm : Calm s.tables t.tables)
    (hruns : t.runs = (updateRun scan.runId change s).runs)
    (hroot : ∀ run, (change run).rootId = run.rootId)
    (hgeneration : ∀ run, s.runs[scan.runId]? = some run →
      (change run).generation = run.generation)
    (hstate : ∀ run, s.runs[scan.runId]? = some run → (change run).state ≠ .published →
      run.state ≠ .published)
    (hindex : Touched s.index t.index)
    (hentries : ∀ runId, ¬Spared s.index runId → t.entries[runId]? = s.entries[runId]?)
    (hscan : ∀ scan, t.scan = some scan → Working v t scan) : Tidy v t := by
  refine h.frame hcalm (fun runId run hrun => ?_) (fun row hrow runId run hrun hg => ?_) hindex
    hentries hscan
  · rw [hruns, updateRun_get] at hrun
    split at hrun
    · rename_i hmine
      subst hmine
      obtain ⟨old, hold, rfl⟩ := Option.map_eq_some_iff.mp hrun
      exact .inl ⟨old, hold, hroot old, hgeneration old hold, hstate old hold⟩
    · exact .inl ⟨run, hrun, rfl, rfl, id⟩
  · by_cases hmine : scan.runId = runId
    · subst hmine
      refine ⟨scan.runId, change run, ?_, (hgeneration run hrun).trans hg⟩
      rw [hruns, updateRun_get, if_pos rfl, hrun, Option.map_some]
    · refine ⟨runId, run, ?_, hg⟩
      rw [hruns, updateRun_get, if_neg hmine]
      exact hrun

theorem Alone.update {change : RunRow → RunRow} (h : Alone s scan)
    (hruns : t.runs = (updateRun scan.runId change s).runs) : Alone t scan := by
  intro runId run hrun hmine hstate
  rw [hruns, updateRun_get] at hrun
  split at hrun
  · rename_i heq
    exact heq.symm
  · exact h runId run hrun hmine hstate

theorem entries_kept (hsound : Sound v s) {generation : Option Generation}
    (hopen : Open s.runs scan generation) (found : Scanned) {runId : Text}
    (hnot : ¬Spared s.index runId) : (s.entries.insert scan.runId found)[runId]? =
      s.entries[runId]? := by
  rw [get_put, if_neg]
  rintro rfl
  exact hnot (hopen.spared hsound)

/-! Discarding. -/

/-- What one turn of `_discard_run` does to the runs. -/
structure Discarded (s t : LargeScans.State) (runId : Text) (done : Bool) : Prop where
  calm : Calm s.tables t.tables
  runs : t.runs = s.runs ∨ t.runs = s.runs.erase runId ∧ done = true ∧
    ∀ run, s.runs[runId]? = some run → ∀ row ∈ t.tables.generations,
      run.generation ≠ some row.generationId
  gone : done = true → t.runs[runId]? = none

theorem calm_deleted {g : Generation} {batchSize : ℕ} {done : Bool}
    (hdeleted : Deleted a g batchSize done b) : Calm a b :=
  ⟨fun row hrow => ⟨row, hdeleted.generations.1 row hrow, rfl⟩,
    fun row hrow _ => hdeleted.generations.1 row hrow⟩

theorem deleted_gone {g : Generation} {batchSize : ℕ} (hdeleted : Deleted a g batchSize true b) :
    ∀ row ∈ b.generations, row.generationId ≠ g := by
  intro row hrow
  cases hdeleted with
  | absent hnone => exact generationOf_none.mp hnone row hrow
  | last _ _ _ => exact of_decide_eq_true (List.mem_filter.mp hrow).2

theorem discardEntries_discarded {done : Bool} {run : RunRow} {tables : Tables Generation}
    (hrun : s.runs[runId]? = some run) (hcalm : Calm s.tables tables)
    (hgone : ∀ row ∈ tables.generations, run.generation ≠ some row.generationId)
    (hd : discardEntries runId { s with tables := tables } = (done, t)) :
    Discarded s t runId done := by
  unfold discardEntries at hd
  split at hd
  · cases hd
    refine ⟨hcalm, .inr ⟨rfl, rfl, fun found hfound => ?_⟩, fun _ => ?_⟩
    · rw [hrun] at hfound
      cases hfound
      exact hgone
    · simp
  · cases hd
    exact ⟨hcalm, .inl rfl, fun hfalse => by cases hfalse⟩

theorem discardRun_discarded {done : Bool} (hd : discardRun runId s = some (done, t)) :
    Discarded s t runId done := by
  unfold discardRun at hd
  split at hd
  · rename_i hnone
    cases hd
    exact ⟨.refl _, .inl rfl, fun _ => hnone⟩
  · rename_i run hrun
    split at hd
    · rename_i hgeneration
      refine discardEntries_discarded hrun (.refl _) (fun row _ => ?_) (Option.some.inj hd)
      rw [hgeneration]
      exact fun h => by cases h
    · rename_i g hgeneration
      split at hd
      · cases hd
      · rename_i tables hdelete
        cases hd
        exact ⟨calm_deleted (deleteGeneration_ok hdelete).2.2, .inl rfl,
          fun hfalse => by cases hfalse⟩
      · rename_i tables hdelete
        have hdeleted := (deleteGeneration_ok hdelete).2.2
        refine discardEntries_discarded hrun (calm_deleted hdeleted) (fun row hrow => ?_)
          (Option.some.inj hd)
        rw [hgeneration]
        exact fun heq => deleted_gone hdeleted row hrow (Option.some.inj heq).symm

theorem Discarded.kin {done : Bool} (hd : Discarded s t runId done) {other : Text} {run : RunRow}
    (hrun : t.runs[other]? = some run) : s.runs[other]? = some run := by
  rcases hd.runs with hruns | ⟨hruns, _⟩
  · exact hruns ▸ hrun
  · rw [hruns, Std.ExtTreeMap.getElem?_erase] at hrun
    split at hrun
    · cases hrun
    · exact hrun

theorem Discarded.tidy {u : LargeScans.State} {done : Bool} (h : Tidy v s)
    (hd : Discarded s u runId done) (hleft : Discards v s u runId done)
    (hspared : Spared s.index runId) (htables : t.tables = u.tables) (hindex : t.index = u.index)
    (hruns : t.runs = u.runs) (hentries : t.entries = u.entries)
    (hscan : ∀ scan, t.scan = some scan → Working v t scan) : Tidy v t := by
  refine h.frame (htables ▸ hd.calm) (fun other run hrun => ?_)
    (fun row hrow other run hrun hg => ?_) (hindex ▸ hleft.index ▸ .refl _)
    (fun other hnot => ?_) hscan
  · exact .inl ⟨run, hd.kin (hruns ▸ hrun), rfl, rfl, id⟩
  · refine ⟨other, run, ?_, hg⟩
    rcases hd.runs with hsame | ⟨herased, _, hgone⟩
    · rw [hruns, hsame]
      exact hrun
    · rw [hruns, herased, Std.ExtTreeMap.getElem?_erase, if_neg]
      · exact hrun
      · intro heq
        obtain rfl : runId = other := by simpa using heq
        exact hgone run hrun row (htables ▸ hrow) hg
  · rw [hentries]
    refine hleft.entries other ?_
    rintro rfl
    exact hnot hspared

theorem tidy_discard (hsound : Sound v s) (h : Tidy v s) (hscan : s.scan = some scan)
    (hstep : stepScan v scan s .discard = some t) : Tidy v t := by
  have hknown := hsound.scanning scan hscan
  have hworking := h.scanning scan hscan
  unfold stepScan at hstep
  dsimp only at hstep
  unfold Scanning at hknown
  unfold Working at hworking
  split at hstep
  · rename_i runIds hphase
    rw [hphase] at hknown hworking
    obtain ⟨hrun, hentries, hspared⟩ := hknown
    obtain ⟨runId, rest, done, u, rfl, hu, rfl⟩ := discardNext_some hstep
    have hd := discardRun_discarded hu
    have hleft := discardRun_discards hsound.settled hu
    refine hd.tidy h hleft (hspared runId (List.mem_cons_self ..)) rfl rfl rfl rfl
      fun now hnow => ?_
    rw [setPhase_scan (hleft.scan.trans hscan)] at hnow
    cases hnow
    intro other run hother hroot hstate
    have hmem := hworking other run (hd.kin hother) hroot hstate
    cases done with
    | false => exact hmem
    | true =>
      rcases List.mem_cons.mp hmem with rfl | hmem
      · have hnone : u.runs[other]? = some run := hother
        rw [hd.gone rfl] at hnone
        cases hnone
      · exact hmem
  · rename_i hphase
    rw [hphase] at hknown hworking
    obtain ⟨⟨done, u⟩, hu, rfl⟩ := Option.map_eq_some_iff.mp hstep
    have hd := discardRun_discarded hu
    have hleft := discardRun_discards hsound.settled hu
    have hspared : Spared s.index scan.runId := Open.spared hsound hknown
    cases done with
    | true =>
      refine hd.tidy h hleft hspared rfl rfl rfl rfl fun now hnow => ?_
      cases hnow
    | false =>
      refine hd.tidy h hleft hspared rfl rfl rfl rfl fun now hnow => ?_
      obtain rfl := Option.some.inj (hscan.symm.trans (hleft.scan.symm.trans hnow))
      unfold Working
      rw [hphase]
      intro other run hother
      exact hworking other run (hd.kin hother)
  · rename_i runIds hphase
    rw [hphase] at hknown
    obtain ⟨runId, rest, done, u, rfl, hu, rfl⟩ := discardNext_some hstep
    have hd := discardRun_discarded hu
    have hleft := discardRun_discards hsound.settled hu
    refine hd.tidy h hleft (hknown runId (List.mem_cons_self ..)) rfl rfl rfl rfl fun now hnow => ?_
    rw [setPhase_scan (hleft.scan.trans hscan)] at hnow
    cases hnow
    trivial
  · cases hstep

/-! Staging. -/

theorem tidy_insertRun (hsound : Sound v s) (h : Tidy v s) (hscan : s.scan = some scan)
    (hstep : stepScan v scan s .insertRun = some t) : Tidy v t := by
  have hknown := hsound.scanning scan hscan
  have hworking := h.scanning scan hscan
  unfold stepScan at hstep
  dsimp only at hstep
  unfold Scanning at hknown
  unfold Working at hworking
  split at hstep
  · rename_i hphase
    rw [hphase] at hknown hworking
    obtain ⟨hrun, hentries, _⟩ := hknown
    cases hstep
    refine h.frame (.refl _) (fun other run hother => ?_) (fun row hrow other run hother hg => ?_)
      (.refl _) (fun _ _ => rfl) fun now hnow => ?_
    · have hother : (s.runs.insert scan.runId _)[other]? = some run := hother
      rw [get_put] at hother
      split at hother
      · cases hother
        exact .inr rfl
      · exact .inl ⟨run, hother, rfl, rfl, id⟩
    · refine ⟨other, run, (get_put ..).trans ((if_neg ?_).trans hother), hg⟩
      rintro rfl
      rw [hrun] at hother
      cases hother
    · rw [setPhase_scan (s := LargeScans.insertRun scan s) hscan] at hnow
      cases hnow
      refine ⟨fun other run hother hroot hstate => ?_, fun path row hrow => ?_⟩
      · have hother : (s.runs.insert scan.runId _)[other]? = some run := hother
        rw [get_put] at hother
        split at hother
        · rename_i heq
          exact heq.symm
        · cases hworking other run hother hroot hstate
      · have hrow : ((s.entries[scan.runId]?).getD ∅)[path]? = some row := hrow
        rw [hentries] at hrow
        simp at hrow
  · cases hstep

theorem foldl_insertEntry_free {batch : List Row} {found : Scanned} (h : Free found) :
    Free (batch.foldl insertEntry found) := by
  induction batch generalizing found with
  | nil => exact h
  | cons row batch ih =>
    refine ih fun path entry hentry => ?_
    rw [insertEntry, get_put] at hentry
    split at hentry
    · cases hentry
      rfl
    · exact h path entry hentry

theorem tidy_stage (hsound : Sound v s) (h : Tidy v s) (hscan : s.scan = some scan)
    {batch : List Row} (hstep : stepScan v scan s (.stage batch) = some t) : Tidy v t := by
  have hknown := hsound.scanning scan hscan
  have hworking := h.scanning scan hscan
  unfold stepScan at hstep
  dsimp only at hstep
  unfold Scanning at hknown
  unfold Working at hworking
  split at hstep
  · rename_i count hphase
    rw [hphase] at hknown hworking
    split at hstep
    · obtain ⟨u, hu, rfl⟩ := Option.map_eq_some_iff.mp hstep
      obtain ⟨htables, hindex, hsame, hentries, hruns⟩ := stage_some hu
      refine h.own (htables ▸ .refl _) hruns (fun _ => rfl) (fun _ _ => rfl) (fun _ _ => id)
        (hindex ▸ .refl _) (fun runId hnot => ?_) fun now hnow => ?_
      · rw [show (setPhase _ u).entries = _ from hentries]
        exact entries_kept hsound hknown.1 _ hnot
      · obtain rfl := setPhase_some hsame hscan hnow
        refine ⟨hworking.1.update hruns, ?_⟩
        show Free (entriesOf u scan.runId)
        rw [entriesOf, hentries, get_put, if_pos rfl]
        exact foldl_insertEntry_free hworking.2
    · cases hstep
  · cases hstep

theorem tidy_walked (h : Tidy v s) (hscan : s.scan = some scan)
    (hstep : stepScan v scan s .walked = some t) : Tidy v t := by
  have hworking := h.scanning scan hscan
  unfold stepScan at hstep
  dsimp only at hstep
  unfold Working at hworking
  split at hstep
  · rename_i count hphase
    rw [hphase] at hworking
    cases hstep
    refine h.still rfl rfl (.refl _) (fun _ _ => rfl) fun now hnow => ?_
    obtain rfl := setPhase_some rfl hscan hnow
    exact hworking
  · cases hstep

theorem tidy_complete (h : Tidy v s) (hscan : s.scan = some scan) {now : Time}
    (hstep : stepScan v scan s (.complete now) = some t) : Tidy v t := by
  have hworking := h.scanning scan hscan
  unfold stepScan at hstep
  dsimp only at hstep
  unfold Working at hworking
  split at hstep
  · rename_i hphase
    rw [hphase] at hworking
    split at hstep
    · obtain ⟨u, hu, rfl⟩ := Option.map_eq_some_iff.mp hstep
      unfold completeUnchanged at hu
      split at hu
      · cases hu
      · rename_i previous hprevious
        split at hu
        · cases hu
          refine h.still rfl rfl (touched_insert hprevious) (fun _ _ => rfl) fun now hnow => ?_
          obtain rfl := setPhase_some rfl hscan hnow
          exact hworking.1
        · cases hu
    · cases hstep
  · cases hstep

/-! Identifiers. -/

/-- The index and the runs as `_assign_ids` reads them for a root. -/
def archive (s : LargeScans.State) (rootId : Text) : Archive :=
  ⟨s.entries, match previousIndex s rootId with
    | some (.sqlite runId) => some (.sqlite runId)
    | _ => none⟩

theorem archive_settled (h : Tidy v s) (rootId : Text) :
    LargeIdentity.Settled v.digest rootId (archive s rootId).published := by
  unfold archive Archive.published previousIndex
  cases hrow : s.index[rootId]? with
  | none => exact settled_empty
  | some row =>
    cases hcontents : row.contents with
    | sqlite p => simpa [hcontents, entriesOf] using h.settled rootId row p hrow hcontents
    | legacy entryIds => simpa [hcontents] using settled_empty
    | opensearch => simpa [hcontents] using settled_empty

theorem archive_assign (h : Tidy v s) (rootId : Text) (fuel : ℕ) (found : Scanned) :
    assignIds v.digest rootId s.entries (previousIndex s rootId) fuel found =
      assignIds v.digest rootId (archive s rootId).entries (archive s rootId).index fuel found := by
  unfold archive previousIndex
  cases hrow : s.index[rootId]? with
  | none => rfl
  | some row =>
    have hplain := h.plain rootId row hrow
    cases hcontents : row.contents with
    | sqlite p => simp [hcontents]
    | legacy entryIds =>
      rw [hcontents] at hplain
      cases hplain
    | opensearch => simp [hcontents, assignIds]

theorem assign_total (hdigest : Digests v.digest) (h : Tidy v s) (rootId : Text) {found : Scanned}
    (hfound : Unassigned found) : ∃ run,
      assignIds v.digest rootId s.entries (previousIndex s rootId) ((rows found).length + 1) found =
        some run ∧ LargeIdentity.Settled v.digest rootId run := by
  have hsettled := archive_settled h rootId
  have hindex : (archive s rootId).index = none ∨
      ∃ runId, (archive s rootId).index = some (.sqlite runId) := by
    unfold archive
    cases hprevious : previousIndex s rootId with
    | none => exact .inl rfl
    | some index =>
      cases index with
      | sqlite runId => exact .inr ⟨runId, rfl⟩
      | legacy entryIds => exact .inl rfl
      | opensearch => exact .inl rfl
  obtain ⟨run, hrun, hstage, hcomplete⟩ := assignIds_total hdigest hindex hsettled hfound
    (Nat.lt_succ_self _)
  exact ⟨run, (archive_assign h rootId _ _).trans hrun, hstage.settled hdigest hsettled hcomplete⟩

theorem tidy_assign (hdigest : Digests v.digest) (hsound : Sound v s) (h : Tidy v s)
    (hscan : s.scan = some scan) (hstep : stepScan v scan s .assign = some t) : Tidy v t := by
  have hknown := hsound.scanning scan hscan
  have hworking := h.scanning scan hscan
  unfold stepScan at hstep
  dsimp only at hstep
  unfold Scanning at hknown
  unfold Working at hworking
  split at hstep
  · rename_i hphase
    rw [hphase] at hknown hworking
    split at hstep
    · cases hstep
    · obtain ⟨run, hrun, rfl⟩ := Option.map_eq_some_iff.mp hstep
      obtain ⟨run', hrun', hsettled⟩ := assign_total hdigest h scan.root.rootId
        ⟨hknown.2, hworking.2⟩
      obtain rfl := Option.some.inj (hrun'.symm.trans hrun)
      refine h.still rfl rfl (.refl _) (fun runId hnot => entries_kept hsound hknown.1 _ hnot)
        fun now hnow => ?_
      obtain rfl := setPhase_some (t := { s with entries := s.entries.insert scan.runId run' }) rfl
        hscan hnow
      refine ⟨hworking.1, ?_⟩
      have hfound : entriesOf { s with entries := s.entries.insert scan.runId run' } scan.runId =
          run' := by
        rw [entriesOf, get_put, if_pos rfl]
        rfl
      exact hfound.symm ▸ hsettled
  · cases hstep

theorem tidy_assignPart (hsound : Sound v s) (h : Tidy v s) (hscan : s.scan = some scan)
    {run : Scanned} (hstep : stepScan v scan s (.assignPart run) = some t) : Tidy v t := by
  have hknown := hsound.scanning scan hscan
  have hworking := h.scanning scan hscan
  unfold stepScan at hstep
  dsimp only at hstep
  unfold Scanning at hknown
  unfold Working at hworking
  split at hstep
  · rename_i hphase
    rw [hphase] at hknown hworking
    split at hstep
    · cases hstep
    · cases hstep
      refine h.still rfl rfl (.refl _) (fun runId hnot => entries_kept hsound hknown.1 _ hnot)
        fun now hnow => ?_
      obtain rfl := setPhase_some (t := { s with entries := s.entries.insert scan.runId run }) rfl
        hscan hnow
      exact hworking.1
  · cases hstep

/-! Building. -/

theorem calm_same (h : b.generations = a.generations) : Calm a b :=
  ⟨fun row hrow => ⟨row, h ▸ hrow, rfl⟩, fun _ hrow _ => h ▸ hrow⟩

theorem calm_finish {g : Generation} (h : SearchTables.finish a g = .ok b) : Calm a b := by
  obtain rfl := finish_ok h
  constructor
  · intro row hrow
    obtain ⟨old, hold, rfl⟩ := mem_setState.mp hrow
    refine ⟨old, hold, ?_⟩
    split <;> rfl
  · intro row hrow hactive
    obtain ⟨old, hold, rfl⟩ := mem_setState.mp hrow
    split at hactive
    · cases hactive
    · rename_i hnot
      rw [if_neg hnot]
      exact hold

theorem tidy_create (hsound : Sound v s) (h : Tidy v s) (hscan : s.scan = some scan)
    (hstep : stepScan v scan s .create = some t) : Tidy v t := by
  have hknown := hsound.scanning scan hscan
  have hworking := h.scanning scan hscan
  unfold stepScan at hstep
  dsimp only at hstep
  unfold Scanning at hknown
  unfold Working at hworking
  split at hstep
  · rename_i fingerprint hphase
    rw [hphase] at hknown hworking
    obtain ⟨⟨mine, hmine, hroot, hstate, hnone⟩, hnamed, rfl⟩ := hknown
    obtain ⟨⟨u, generation⟩, hu, rfl⟩ := Option.map_eq_some_iff.mp hstep
    obtain ⟨hgeneration, hcreate, hindex, hsame, hentries, hruns⟩ := createFor_some hu
    obtain ⟨_, htables⟩ := createGeneration_ok hcreate
    have hget : ∀ other, u.runs[other]? = if scan.runId = other then
        (s.runs[other]?).map fun run => { run with generation := some generation }
        else s.runs[other]? := fun other => by rw [hruns, updateRun_get]
    have hrows : ∀ row ∈ u.tables.generations, row ∈ s.tables.generations ∨
        row = ⟨generation, scan.root.rootId, .building⟩ := by
      intro row hrow
      rw [htables] at hrow
      rcases List.mem_append.mp hrow with hrow | hrow
      · exact .inl hrow
      · exact .inr (List.mem_singleton.mp hrow)
    have hcases : ∀ (other : Text) run, u.runs[other]? = some run → s.runs[other]? = some run ∨
        (other = scan.runId ∧ run = { mine with generation := some generation }) := by
      intro other run hother
      rw [hget] at hother
      split at hother
      · rename_i heq
        subst heq
        rw [hmine] at hother
        exact .inr ⟨rfl, (Option.some.inj hother).symm⟩
      · exact .inl hother
    refine ⟨?_, ?_, ?_, ?_, ?_, fun now hnow => ?_⟩
    · intro row hrow
      rcases hrows row hrow with hold | rfl
      · obtain ⟨other, run, hrun, hg⟩ := h.held row hold
        refine ⟨other, run, (hget other).trans ((if_neg ?_).trans hrun), hg⟩
        rintro rfl
        rw [hmine] at hrun
        cases hrun
        rw [hnone] at hg
        cases hg
      · refine ⟨scan.runId, { mine with generation := some generation }, ?_, rfl⟩
        refine (hget scan.runId).trans ((if_pos rfl).trans ?_)
        rw [hmine]
        rfl
    · intro other run g hother hg
      rcases hcases other run hother with hold | ⟨rfl, rfl⟩
      · exact h.named other run g hold hg
      · cases hg
        rw [hgeneration]
        exact hroot.symm
    · intro other run hother hstate row hrow hg
      rcases hrows row hrow with hold | rfl
      · rcases hcases other run hother with hbefore | ⟨rfl, rfl⟩
        · exact h.inactive other run hbefore hstate row hold hg
        · -- The generation is new.
          obtain ⟨holder, found, hfound, hheld⟩ := h.held row hold
          cases hg
          exact absurd rfl (generationOf_none.mp (createGeneration_ok hcreate).1 row hold)
      · simp
    · intro rootId row p hrow hp
      rw [show (setPhase _ u).index = s.index from hindex] at hrow
      rw [entriesOf, show (setPhase _ u).entries = s.entries from hentries]
      exact h.settled rootId row p hrow hp
    · intro rootId row hrow
      rw [show (setPhase _ u).index = s.index from hindex] at hrow
      exact h.plain rootId row hrow
    · obtain rfl := setPhase_some hsame hscan hnow
      refine ⟨hworking.1.update hruns, ?_⟩
      show LargeIdentity.Settled v.digest scan.root.rootId (entriesOf u scan.runId)
      rw [entriesOf, hentries]
      exact hworking.2
  · cases hstep

theorem tidy_build (hsound : Sound v s) (h : Tidy v s) (hscan : s.scan = some scan)
    (hstep : stepScan v scan s .build = some t) : Tidy v t := by
  have hknown := hsound.scanning scan hscan
  have hworking := h.scanning scan hscan
  unfold stepScan at hstep
  dsimp only at hstep
  unfold Scanning at hknown
  unfold Working at hworking
  split at hstep
  · rename_i generation last hphase
    rw [hphase] at hknown hworking
    obtain ⟨⟨mine, hmine, hroot, hstate, hgeneration⟩, hbuilding⟩ := hknown
    split at hstep
    · obtain ⟨u, hu, rfl⟩ := Option.map_eq_some_iff.mp hstep
      obtain ⟨hfinish, hindex, hsame, hentries, hruns⟩ := finishBuild_some hu
      refine h.own (calm_finish hfinish) hruns (fun _ => rfl) (fun run hrun => ?_)
        (fun run hrun _ => ?_) (hindex ▸ .refl _) (fun runId _ => congrArg (·[runId]?) hentries)
        fun now hnow => ?_
      · rw [hmine] at hrun
        cases hrun
        exact hgeneration.symm
      · rw [hmine] at hrun
        cases hrun
        exact hstate
      · obtain rfl := setPhase_some hsame hscan hnow
        refine ⟨hworking.1.update hruns, ?_⟩
        show LargeIdentity.Settled v.digest scan.root.rootId (entriesOf u scan.runId)
        rw [entriesOf, hentries]
        exact hworking.2
    · obtain ⟨u, hu, rfl⟩ := Option.map_eq_some_iff.mp hstep
      obtain ⟨later, tables, _, hadd, rfl⟩ := addBatch_some hu
      obtain ⟨_, _, _, items, _, hfilled⟩ := hbuilding
      have hadded := addItems_added hsound.settled.consistent hfilled hadd
      have hcalm : Calm s.tables tables := calm_same hadded.generations
      refine h.frame hcalm (fun other run hrun => .inl ⟨run, hrun, rfl, rfl, id⟩)
        (fun row hrow other run hrun hg => ⟨other, run, hrun, hg⟩) (.refl _) (fun _ _ => rfl)
        fun now hnow => ?_
      obtain rfl := setPhase_some (t := { s with tables := tables }) rfl hscan hnow
      exact hworking
  · cases hstep

theorem tidy_publish (hsound : Sound v s) (h : Tidy v s) (hscan : s.scan = some scan) {now : Time}
    (hstep : stepScan v scan s (.publish now) = some t) : Tidy v t := by
  have hknown := hsound.scanning scan hscan
  have hworking := h.scanning scan hscan
  unfold stepScan at hstep
  dsimp only at hstep
  unfold Scanning at hknown
  unfold Working at hworking
  split at hstep
  · rename_i generation hphase
    rw [hphase] at hknown hworking
    obtain ⟨⟨mine, hmine, hroot, hstate, hgeneration⟩, hbuilding⟩ := hknown
    obtain ⟨u, hu, rfl⟩ := Option.map_eq_some_iff.mp hstep
    obtain ⟨hactivate, hsame, hentries, hindex, hruns⟩ := publish_some hu
    have hactivated := activated_generations hsound.settled.consistent hactivate
    obtain ⟨_, _, _, _, hothers⟩ := hactivated
    have hids : ∀ row ∈ u.tables.generations, ∃ old ∈ s.tables.generations,
        old.generationId = row.generationId := by
      obtain ⟨found, _, _, htables⟩ := activateGeneration_ok hactivate
      intro row hrow
      rw [htables] at hrow
      obtain ⟨mid, hmid, rfl⟩ := mem_setState.mp hrow
      obtain ⟨old, hold, rfl⟩ := mem_setState.mp hmid
      refine ⟨old, hold, ?_⟩
      split <;> split <;> rfl
    have hget : ∀ other, u.runs[other]? = if scan.runId = other then
        (s.runs[other]?).map fun run => { run with
          state := .published, fingerprintDigest := some generation.fingerprint }
        else s.runs[other]? := fun other => by rw [hruns, updateRun_get]
    refine ⟨?_, ?_, ?_, ?_, ?_, fun after hafter => ?_⟩
    · intro row hrow
      obtain ⟨old, hold, hid⟩ := hids row hrow
      obtain ⟨other, run, hrun, hg⟩ := h.held old hold
      by_cases heq : scan.runId = other
      · refine ⟨other, _, (hget other).trans ((if_pos heq).trans (by rw [hrun]; rfl)), ?_⟩
        exact hid ▸ hg
      · exact ⟨other, run, (hget other).trans ((if_neg heq).trans hrun), hid ▸ hg⟩
    · intro other run g hother hg
      have hother := (hget other).symm.trans hother
      split at hother
      · obtain ⟨old, hold, rfl⟩ := Option.map_eq_some_iff.mp hother
        exact h.named other old g hold hg
      · exact h.named other run g hother hg
    · intro other run hother hopen row hrow hg hactive
      have hother := (hget other).symm.trans hother
      split at hother
      · obtain ⟨old, hold, rfl⟩ := Option.map_eq_some_iff.mp hother
        exact hopen rfl
      · rename_i hne
        rcases hothers row hrow hactive with hmine' | ⟨_, hold⟩
        · -- The generation is of the scanned root, whose only open run is the scan's.
          have hsameRoot : generation.rootId = scan.root.rootId := by rw [hbuilding.named]
          refine hne (hworking.1 other run hother ?_ hopen).symm
          rw [← h.named other run _ hother hg, hmine', hsameRoot]
        · exact h.inactive other run hother hopen row hold hg hactive
    · intro rootId row p hrow hp
      have hrow : u.index[rootId]? = some row := hrow
      rw [hindex, get_put] at hrow
      rw [entriesOf, show (setPhase _ u).entries = s.entries from hentries]
      split at hrow
      · rename_i hmine'
        cases hrow
        cases hp
        exact hmine' ▸ hworking.2
      · exact h.settled rootId row p hrow hp
    · intro rootId row hrow
      have hrow : u.index[rootId]? = some row := hrow
      rw [hindex, get_put] at hrow
      split at hrow
      · cases hrow
        rfl
      · exact h.plain rootId row hrow
    · obtain rfl := setPhase_some hsame hscan hafter
      trivial
  · cases hstep

/-! The end of a scan, and every step. -/

theorem fail_touched (scan : Scan) (s : LargeScans.State) :
    Touched s.index (LargeScans.fail scan s).index := by
  unfold LargeScans.fail
  dsimp only
  split
  · rename_i previous hprevious
    exact touched_insert hprevious
  · exact .refl _

theorem tidy_fail (hsound : Sound v s) (h : Tidy v s) (hscan : s.scan = some scan)
    (hstep : stepScan v scan s .fail = some t) : Tidy v t := by
  unfold stepScan at hstep
  dsimp only at hstep
  split at hstep
  · rename_i hworking
    cases hstep
    obtain ⟨generation, hopen⟩ := (hsound.scanning scan hscan).working hworking
    obtain ⟨htables, hentries, hruns⟩ := fail_frame scan s
    obtain ⟨mine, hmine, _, hstate, _⟩ := hopen
    refine h.own (htables ▸ .refl _) hruns (fun _ => rfl) (fun _ _ => rfl) (fun run hrun _ => ?_)
      (fail_touched scan s) (fun runId _ => congrArg (·[runId]?) hentries) fun now hnow => by
        cases hnow
    rw [hmine] at hrun
    cases hrun
    exact hstate
  · cases hstep

theorem tidy_stop (h : Tidy v s) (hstep : stepScan v scan s .stop = some t) : Tidy v t := by
  unfold stepScan at hstep
  dsimp only at hstep
  split at hstep
  · cases hstep
    obtain ⟨htables, hentries, hruns, hindex⟩ := stopped_frame scan s
    exact h.still htables hruns (hindex ▸ .refl _) (fun runId _ => congrArg (·[runId]?) hentries)
      fun now hnow => by cases hnow
  · cases hstep

theorem tidy_replace (h : Tidy v s) {row : IndexRow} (hplain : Plain (.replace rootId row) = true)
    (hstep : step v s (.replace rootId row) = some t) : Tidy v t := by
  unfold step at hstep
  dsimp only at hstep
  split at hstep
  · rename_i hkind
    cases hstep
    refine h.still rfl rfl (fun other found hfound => ?_) (fun _ _ => rfl) h.scanning
    rw [get_put] at hfound
    split at hfound
    · cases hfound
      exact .inl ⟨hkind, by simpa [Plain] using hplain⟩
    · exact .inr ⟨found, hfound, rfl⟩
  · cases hstep

theorem tidy_scan (h : Tidy v s) {root : Config} (hstep : step v s (.scan root runId) = some t) :
    Tidy v t := by
  unfold step at hstep
  dsimp only at hstep
  split at hstep
  · cases hstep
    refine h.still rfl rfl (.refl _) (fun _ _ => rfl) fun now hnow => ?_
    cases hnow
    intro other run hrun hroot hstate
    refine List.mem_map.mpr ⟨(other, run), List.mem_filter.mpr ⟨?_, ?_⟩, rfl⟩
    · exact Std.ExtTreeMap.mem_toList_iff_getElem?_eq_some.mpr hrun
    · simpa [hstate] using hroot
  · cases hstep

theorem tidy_step (hdigest : Digests v.digest) (hsound : Sound v s) (h : Tidy v s)
    {e : LargeScans.Event} (hplain : Plain e = true) (hstep : step v s e = some t) : Tidy v t := by
  cases e with
  | scan root runId => exact tidy_scan h hstep
  | replace rootId row => exact tidy_replace h hplain hstep
  | configure rootId root =>
    cases hstep
    exact h.still rfl rfl (.refl _) (fun _ _ => rfl) h.scanning
  | discard =>
    obtain ⟨scan, hscan, hstep⟩ := scanning_of_step hstep
    exact tidy_discard hsound h hscan hstep
  | insertRun =>
    obtain ⟨scan, hscan, hstep⟩ := scanning_of_step hstep
    exact tidy_insertRun hsound h hscan hstep
  | stage batch =>
    obtain ⟨scan, hscan, hstep⟩ := scanning_of_step hstep
    exact tidy_stage hsound h hscan hstep
  | walked =>
    obtain ⟨scan, hscan, hstep⟩ := scanning_of_step hstep
    exact tidy_walked h hscan hstep
  | complete now =>
    obtain ⟨scan, hscan, hstep⟩ := scanning_of_step hstep
    exact tidy_complete h hscan hstep
  | assign =>
    obtain ⟨scan, hscan, hstep⟩ := scanning_of_step hstep
    exact tidy_assign hdigest hsound h hscan hstep
  | assignPart run =>
    obtain ⟨scan, hscan, hstep⟩ := scanning_of_step hstep
    exact tidy_assignPart hsound h hscan hstep
  | create =>
    obtain ⟨scan, hscan, hstep⟩ := scanning_of_step hstep
    exact tidy_create hsound h hscan hstep
  | build =>
    obtain ⟨scan, hscan, hstep⟩ := scanning_of_step hstep
    exact tidy_build hsound h hscan hstep
  | publish now =>
    obtain ⟨scan, hscan, hstep⟩ := scanning_of_step hstep
    exact tidy_publish hsound h hscan hstep
  | fail =>
    obtain ⟨scan, hscan, hstep⟩ := scanning_of_step hstep
    exact tidy_fail hsound h hscan hstep
  | stop =>
    obtain ⟨scan, hscan, hstep⟩ := scanning_of_step hstep
    exact tidy_stop h hstep
  | crash =>
    obtain ⟨scan, hscan, hstep⟩ := scanning_of_step hstep
    cases hstep
    exact h.still rfl rfl (.refl _) (fun _ _ => rfl) fun scan hscan => by cases hscan

theorem clean_tidy (hdigest : Digests v.digest) (h : Clean v s) : Tidy v s := by
  induction h with
  | start roots index progress hindex =>
    refine ⟨by simp, by simp, by simp, ?_, fun rootId row hrow => (hindex rootId row hrow).2,
      fun scan hscan => by cases hscan⟩
    intro rootId row p hrow hp
    have hnone := (hindex rootId row hrow).1
    rw [hp] at hnone
    cases hnone
  | step hbefore hdrawn hplain hstep ih =>
    exact tidy_step hdigest (run_sound hbefore.run) ih hplain hstep

end LargeRuns
