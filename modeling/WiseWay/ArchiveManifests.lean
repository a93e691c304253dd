import WiseWay.ImportVersions
import WiseWay.LastWriters

/-! # What an index should hold

A manifest is the list of the documents of its lines. A point in time is exact when it has seen
every revision of the manifests that it stands for and nothing else; its live documents are then
those that are left when the manifests are applied one after the other. -/
namespace ArchiveManifests

open Records ArchiveImport ImportVersions LastWriters

variable {v : Service} {job : Job} {k n : ℕ} {r : Revision}

/-! Manifests. -/

/-- The lines, for a number that is not less than that of the bytes. -/
def linesFrom : ℕ → Bytes → List Bytes
  | 0, _ => []
  | n + 1, rest =>
    if readLine rest = [] then []
    else readLine rest :: linesFrom n (rest.drop (readLine rest).length)

/-- The documents of the manifest of a job, if all of them are valid. -/
def documents (v : Service) (job : Job) : Option (List Doc) :=
  (linesFrom job.sourceHash.length job.sourceHash).mapM (v.record job.configHash job.mode)

/-- The document of the record after the first `k` ones. -/
def documentAt (v : Service) (job : Job) (k : ℕ) : Option Doc :=
  if readLine (job.sourceHash.drop (endAfter job.sourceHash k)) = [] then none
  else v.record job.configHash job.mode
    (readLine (job.sourceHash.drop (endAfter job.sourceHash k)))

/-- No record is left after the first `n` ones. -/
def Ended (job : Job) (n : ℕ) : Prop :=
  readLine (job.sourceHash.drop (endAfter job.sourceHash n)) = []

/-- A record with the revision that its job gives it. -/
structure Reads (v : Service) (job : Job) (k : ℕ) (r : Revision) : Prop where
  document : documentAt v job k = some r.doc
  version : r.version = job.id * versionRange + k + 1
  range : k + 1 < versionRange

theorem documentAt_lt (hended : Ended job n) {doc : Doc} (h : documentAt v job k = some doc) :
    k < n := by
  by_contra hle
  have hpresent : readLine (job.sourceHash.drop (endAfter job.sourceHash k)) ≠ [] := by
    intro hempty
    rw [documentAt, if_pos hempty] at h
    cases h
  exact present_before (by omega) hpresent hended

theorem Reads.unique {r' : Revision} (h : Reads v job k r) (h' : Reads v job k r') :
    r.doc = r'.doc ∧ r.version = r'.version := by
  refine ⟨?_, h.version.trans h'.version.symm⟩
  have hdoc := h.document.symm.trans h'.document
  exact Option.some.inj hdoc

/-- The manifest from one of its records on, when every record up to its end is valid. -/
theorem linesFrom_mapM {fuel : ℕ} (hended : Ended job n) (hk : k ≤ n)
    (hfuel : (job.sourceHash.drop (endAfter job.sourceHash k)).length ≤ fuel)
    (hvalid : ∀ i < n, ∃ doc, documentAt v job i = some doc) :
    ∃ docs, (linesFrom fuel (job.sourceHash.drop (endAfter job.sourceHash k))).mapM
        (v.record job.configHash job.mode) = some docs ∧
      ∀ i, docs[i]? = documentAt v job (k + i) := by
  have hnone : ∀ i, n ≤ i → documentAt v job i = none := by
    intro i hi
    cases hdoc : documentAt v job i with
    | none => rfl
    | some doc =>
      have := documentAt_lt hended hdoc
      omega
  induction fuel generalizing k with
  | zero =>
    have hempty := List.eq_nil_of_length_eq_zero (Nat.le_zero.mp hfuel)
    have hread : readLine (job.sourceHash.drop (endAfter job.sourceHash k)) = [] := by
      rw [hempty]
      rfl
    have hkn : k = n := by
      by_contra hne
      obtain ⟨doc, hdoc⟩ := hvalid k (by omega)
      rw [documentAt, if_pos hread] at hdoc
      cases hdoc
    exact ⟨[], rfl, fun i => (hnone (k + i) (by omega)).symm⟩
  | succ fuel ih =>
    rcases Nat.lt_or_eq_of_le hk with hlt | rfl
    · obtain ⟨doc, hdoc⟩ := hvalid k hlt
      have hline : readLine (job.sourceHash.drop (endAfter job.sourceHash k)) ≠ [] := by
        intro hempty
        rw [documentAt, if_pos hempty] at hdoc
        cases hdoc
      have hdrop : (job.sourceHash.drop (endAfter job.sourceHash k)).drop
          (readLine (job.sourceHash.drop (endAfter job.sourceHash k))).length =
          job.sourceHash.drop (endAfter job.sourceHash (k + 1)) := by
        rw [List.drop_drop, endAfter]
      have hshort : (job.sourceHash.drop (endAfter job.sourceHash (k + 1))).length ≤ fuel := by
        have := List.length_pos_of_ne_nil hline
        rw [← hdrop, List.length_drop]
        omega
      obtain ⟨docs, hdocs, hget⟩ := ih hlt hshort
      refine ⟨doc :: docs, ?_, ?_⟩
      · rw [linesFrom, if_neg hline, hdrop, List.mapM_cons, hdocs]
        rw [documentAt, if_neg hline] at hdoc
        rw [hdoc]
        rfl
      · intro i
        cases i with
        | zero => exact hdoc.symm
        | succ i =>
          rw [List.getElem?_cons_succ, hget i, Nat.succ_add_eq_add_succ]
    · rw [linesFrom, if_pos (show readLine _ = [] from hended)]
      exact ⟨[], rfl, fun i => (hnone (k + i) (by omega)).symm⟩

theorem documents_eq (hended : Ended job n)
    (hvalid : ∀ i < n, ∃ doc, documentAt v job i = some doc) :
    ∃ docs, documents v job = some docs ∧ ∀ i, docs[i]? = documentAt v job i := by
  have hlength : (job.sourceHash.drop (endAfter job.sourceHash 0)).length ≤
      job.sourceHash.length := by simp
  have hall := linesFrom_mapM hended (Nat.zero_le n) hlength hvalid
  simpa [endAfter, documents] using hall

/-! Manifests applied one after the other. -/

/-- The jobs since the last full one of a root, in the order of their publication. -/
def inForce (rootId : Text) (history : List Job) : List Job :=
  history.foldl (fun kept job => if job.rootId ≠ rootId then kept
    else if job.mode = .full then [job] else kept ++ [job]) []

/-- A record adds or replaces its item, or deletes it. -/
def amend (items : Table Text) (doc : Doc) : Table Text :=
  match doc.body with
  | some body => items.insert doc.itemId body
  | none => items.erase doc.itemId

def replay (docs : List Doc) : Table Text := docs.foldl amend ∅

/-- The items of manifests that are applied in this order. -/
def replayed (v : Service) (jobs : List Job) : Option (Table Text) :=
  (jobs.mapM (documents v)).map fun all => replay all.flatten

def live (docs : Table Stored) (item : Text) : Option Text := (docs[item]?).bind (·.doc.body)

/-! The engine as a store. -/

def storeOf (docs : Table Stored) : Store Text ℕ Doc := fun item =>
  (docs[item]?).map fun stored => (stored.version, stored.doc)

def writeOf (r : Revision) : Write Text ℕ Doc := ⟨r.doc.itemId, r.version, r.doc⟩

theorem storeOf_empty {P : Write Text ℕ Doc → Prop} : From (storeOf ∅) P := by
  intro item version doc hitem
  simp [storeOf] at hitem

theorem storeOf_put (docs : Table Stored) (r : Revision) :
    storeOf (put docs r) = (storeOf docs).write (writeOf r) := by
  funext item
  unfold put Store.write writeOf
  dsimp only
  by_cases hitem : item = r.doc.itemId
  · subst hitem
    rw [if_pos rfl]
    cases hold : docs[r.doc.itemId]? with
    | none => simp [storeOf, hold]
    | some old =>
      by_cases hle : old.version ≤ r.version
      · simp [storeOf, hold, hle]
      · simp [storeOf, hold, hle]
  · rw [if_neg hitem]
    have hne : ¬r.doc.itemId = item := fun h => hitem h.symm
    cases hold : docs[r.doc.itemId]? with
    | none => simp [storeOf, hne]
    | some old =>
      by_cases hle : old.version ≤ r.version
      · simp [storeOf, hle, hne]
      · simp [storeOf, hle]

theorem storeOf_puts (batch : List Revision) (docs : Table Stored) :
    storeOf (batch.foldl put docs) = (batch.map writeOf).foldl Store.write (storeOf docs) := by
  induction batch generalizing docs with
  | nil => rfl
  | cons r batch ih => rw [List.foldl_cons, ih, storeOf_put, List.map_cons, List.foldl_cons]

/-- The engine has every one of the first `n` records. -/
def Reached (v : Service) (docs : Table Stored) (job : Job) (n : ℕ) : Prop :=
  ∀ k < n, ∃ r, Reads v job k r ∧ Seen (storeOf docs) (writeOf r)

def Whole (v : Service) (docs : Table Stored) (job : Job) : Prop :=
  ∃ n, Ended job n ∧ Reached v docs job n

def Written (v : Service) (jobs : List Job) (write : Write Text ℕ Doc) : Prop :=
  ∃ job ∈ jobs, ∃ k r, Reads v job k r ∧ writeOf r = write

/-- The engine has these manifests and nothing else. -/
structure Exactly (v : Service) (docs : Table Stored) (jobs : List Job) : Prop where
  ascending : jobs.Pairwise fun a b => a.id < b.id
  whole : ∀ job ∈ jobs, Whole v docs job
  written : From (storeOf docs) (Written v jobs)

/-! The live documents. -/

def writes (v : Service) (job : Job) : List (Write Text ℕ Doc) :=
  ((documents v job).getD []).mapIdx fun k doc =>
    ⟨doc.itemId, job.id * versionRange + k + 1, doc⟩

theorem mem_writes {docs : Table Stored} (h : Whole v docs job) {write : Write Text ℕ Doc} :
    write ∈ writes v job ↔ ∃ k r, Reads v job k r ∧ writeOf r = write := by
  obtain ⟨n, hended, hreached⟩ := h
  obtain ⟨all, hall, hget⟩ := documents_eq (v := v) hended fun i hi => by
    obtain ⟨r, hr, _⟩ := hreached i hi
    exact ⟨r.doc, hr.document⟩
  simp only [writes, hall, Option.getD_some, List.mem_iff_getElem?, List.getElem?_mapIdx, hget,
    Option.map_eq_some_iff]
  constructor
  · rintro ⟨k, doc, hdoc, rfl⟩
    obtain ⟨r, hr, _⟩ := hreached k (documentAt_lt hended hdoc)
    obtain rfl : r.doc = doc := Option.some.inj (hr.document.symm.trans hdoc)
    exact ⟨k, r, hr, by rw [writeOf, hr.version]⟩
  · rintro ⟨k, r, hr, rfl⟩
    exact ⟨k, r.doc, hr.document, by rw [writeOf, hr.version]⟩

theorem writes_ascending (v : Service) (job : Job) :
    (writes v job).Pairwise fun a b => a.version < b.version := by
  rw [writes, List.pairwise_iff_getElem]
  intro i j hi hj hij
  simp only [List.getElem_mapIdx]
  omega

theorem writes_value (v : Service) (job : Job) {all : List Doc} (h : documents v job = some all) :
    (writes v job).map (·.value) = all := by
  rw [writes, h, Option.getD_some]
  apply List.ext_getElem?
  intro i
  simp [List.getElem?_mapIdx, Function.comp_def]

theorem Exactly.documents_some {docs : Table Stored} {jobs : List Job} (h : Exactly v docs jobs)
    (hjob : job ∈ jobs) : ∃ all, documents v job = some all := by
  obtain ⟨n, hended, hreached⟩ := h.whole job hjob
  obtain ⟨all, hall, _⟩ := documents_eq (v := v) hended fun i hi => by
    obtain ⟨r, hr, _⟩ := hreached i hi
    exact ⟨r.doc, hr.document⟩
  exact ⟨all, hall⟩

theorem mapM_writes {jobs : List Job} (h : ∀ job ∈ jobs, ∃ all, documents v job = some all) :
    ∃ all, jobs.mapM (documents v) = some all ∧
      (jobs.flatMap (writes v)).map (·.value) = all.flatten := by
  induction jobs with
  | nil => exact ⟨[], rfl, rfl⟩
  | cons job jobs ih =>
    obtain ⟨first, hfirst⟩ := h job (List.mem_cons_self ..)
    obtain ⟨rest, hrest, hvalues⟩ := ih fun other hother => h other (List.mem_cons_of_mem _ hother)
    refine ⟨first :: rest, by rw [List.mapM_cons, hfirst, hrest]; rfl, ?_⟩
    rw [List.flatMap_cons, List.map_append, writes_value v job hfirst, hvalues,
      List.flatten_cons]

theorem Exactly.flatMap_ascending {docs : Table Stored} {jobs : List Job}
    (h : Exactly v docs jobs) :
    (jobs.flatMap (writes v)).Pairwise fun a b => a.version < b.version := by
  rw [List.pairwise_flatMap]
  refine ⟨fun job _ => writes_ascending v job, ?_⟩
  apply h.ascending.imp_of_mem
  intro first second hfirst hsecond hlt a ha b hb
  obtain ⟨i, r, hr, rfl⟩ := (mem_writes (h.whole first hfirst)).mp ha
  obtain ⟨j, s, hs, rfl⟩ := (mem_writes (h.whole second hsecond)).mp hb
  have hrange := hr.range
  have hjobs := Nat.mul_le_mul_right versionRange hlt
  rw [Nat.succ_mul] at hjobs
  have hversions : r.version < s.version := by
    rw [hr.version, hs.version]
    omega
  exact hversions

theorem amend_get (items : Table Text) (doc : Doc) :
    (fun item : Text => (amend items doc)[item]?) =
      assign (fun item : Text => items[item]?) (doc.itemId, doc.body) := by
  funext item
  cases hbody : doc.body with
  | none => simp [amend, hbody, assign, eq_comm]
  | some body => simp [amend, hbody, assign, eq_comm]

theorem foldl_amend (docs : List Doc) (items : Table Text) :
    (fun item : Text => (docs.foldl amend items)[item]?) =
      docs.foldl (fun s doc => assign s (doc.itemId, doc.body)) fun item => items[item]? := by
  induction docs generalizing items with
  | nil => rfl
  | cons doc docs ih => rw [List.foldl_cons, List.foldl_cons, ih, amend_get]

theorem replay_lastWrite {ws : List (Write Text ℕ Doc)}
    (hkey : ∀ write ∈ ws, write.key = write.value.itemId) (item : Text) :
    (replay (ws.map (·.value)))[item]? =
      (lastWrite item ws).bind fun write => write.value.body := by
  have hempty : (fun item : Text => (∅ : Table Text)[item]?) = fun _ => none := by
    funext item
    simp
  have hsame : ∀ start, ws.foldl (fun s write =>
        assign s (write.value.itemId, write.value.body)) start =
      ws.foldl (fun s write => assign s (write.key, write.value.body)) start := by
    intro start
    apply List.foldl_ext
    intro s write hwrite
    rw [hkey write hwrite]
  calc (replay (ws.map (·.value)))[item]? =
        (ws.map (·.value)).foldl (fun s doc => assign s (doc.itemId, doc.body))
          (fun item => (∅ : Table Text)[item]?) item := congrFun (foldl_amend _ ∅) item
    _ = ws.foldl (fun s write => assign s (write.key, write.value.body)) (fun _ => none) item := by
        rw [List.foldl_map, hempty, hsame]
    _ = _ := foldl_assign (fun doc : Doc => doc.body) ws item

theorem writes_key {jobs : List Job} {write : Write Text ℕ Doc}
    (h : write ∈ jobs.flatMap (writes v)) : write.key = write.value.itemId := by
  obtain ⟨job, _, hwrite⟩ := List.mem_flatMap.mp h
  obtain ⟨k, hk⟩ := List.mem_iff_getElem?.mp hwrite
  rw [writes, List.getElem?_mapIdx] at hk
  obtain ⟨doc, _, rfl⟩ := Option.map_eq_some_iff.mp hk
  rfl

/-- The live documents of an exact point in time are those of the manifests, applied in order:
the last record of an item wins, and a deletion removes it. -/
theorem Exactly.live_eq {docs : Table Stored} {jobs : List Job} (h : Exactly v docs jobs) :
    ∃ items, replayed v jobs = some items ∧ ∀ item : Text, live docs item = items[item]? := by
  obtain ⟨all, hall, hvalues⟩ := mapM_writes fun job hjob => h.documents_some hjob
  refine ⟨replay all.flatten, by rw [replayed, hall]; rfl, ?_⟩
  intro item
  have hseen : ∀ write ∈ jobs.flatMap (writes v), Seen (storeOf docs) write := by
    intro write hwrite
    obtain ⟨job, hjob, hwrite⟩ := List.mem_flatMap.mp hwrite
    obtain ⟨k, r, hr, rfl⟩ := (mem_writes (h.whole job hjob)).mp hwrite
    obtain ⟨n, hended, hreached⟩ := h.whole job hjob
    obtain ⟨r', hr', hseen⟩ := hreached k (documentAt_lt hended hr.document)
    obtain ⟨hdoc, hversion⟩ := hr.unique hr'
    rw [writeOf, hdoc, hversion]
    exact hseen
  have hfrom : From (storeOf docs) (· ∈ jobs.flatMap (writes v)) := by
    intro key version doc hkey
    obtain ⟨job, hjob, hread⟩ := h.written key version doc hkey
    exact List.mem_flatMap.mpr ⟨job, hjob, (mem_writes (h.whole job hjob)).mpr hread⟩
  have hlast := read_eq_lastWrite h.flatMap_ascending hseen hfrom item
  calc live docs item = (storeOf docs item).bind fun held => held.2.body := by
        rw [live, storeOf, Option.bind_map]
        rfl
    _ = (lastWrite item (jobs.flatMap (writes v))).bind fun write => write.value.body := by
        rw [hlast, Option.bind_map]
        rfl
    _ = (replay all.flatten)[item]? := by
        rw [← hvalues, replay_lastWrite]
        intro write hwrite
        exact writes_key hwrite

end ArchiveManifests
