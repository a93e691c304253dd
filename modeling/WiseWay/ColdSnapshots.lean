import WiseWay.SnapshotRuns

/-! # Cold snapshots round-trip

A snapshot of two trees is accepted and restored as the same trees with the same manifest, and a
snapshot that differs from its manifest is refused with nothing left behind. -/
namespace ColdSnapshots

open TextCodecs JsonTexts PosixPaths OrderedDicts FileStores Sha256 Snapshots SnapshotScans
  SnapshotCopies SnapshotManifests SnapshotRuns

variable {readDatabase : ReadDatabase} {fs fs' : Files}
  {data sandbox snapshot snapshot' target : FilePath} {manifest : Manifest}

/-! ## A snapshot and its manifest -/

/-- A file of a snapshot under the path that a manifest has for it. -/
def FileIn (fs : Files) (snapshot : FilePath) (path : Str) (content : Bytes) : Prop :=
  ∃ name relative, Side name ∧ fs.get (snapshot ++ name :: relative) = some (.file content) ∧
    path = treePath name.1 relative

def DirectoryIn (fs : Files) (snapshot : FilePath) (path : Str) : Prop :=
  ∃ name relative, Side name ∧ fs.get (snapshot ++ name :: relative) = some .directory ∧
    path = treePath name.1 relative

/-- A snapshot has just the files and directories of its manifest, with their digests and
sizes. -/
structure Matches (fs : Files) (snapshot : FilePath) (manifest : Manifest) : Prop where
  files : ∀ path, path ∈ manifest.entries.map Entry.path ↔
    ∃ content, FileIn fs snapshot path content
  directories : ∀ path, path ∈ manifest.directories ↔ DirectoryIn fs snapshot path
  contents : ∀ entry ∈ manifest.entries, ∀ content, FileIn fs snapshot entry.path content →
    hexdigest content = entry.sha256 ∧ content.length = entry.sizeBytes

theorem child_path (snapshot : FilePath) (name : Name) (relative : List Name) :
    snapshot ++ [name] ++ relative = snapshot ++ name :: relative := by
  rw [List.append_assoc, List.singleton_append]

theorem mem_files_side (h : Valid readDatabase fs snapshot manifest) {name : Name}
    (hside : Side name) {relative : List Name} : relative ∈ filesIn fs (snapshot ++ [name]) ↔
      ∃ content, fs.get (snapshot ++ name :: relative) = some (.file content) := by
  rw [mem_filesIn (h.regular hside), child_path]

theorem file_path (h : Valid readDatabase fs snapshot manifest) {name : Name}
    (hside : Side name) {relative : List Name}
    (hmem : relative ∈ filesIn fs (snapshot ++ [name])) :
    pathUnder name.1 relative = treePath name.1 relative := by
  apply treePath_eq
  exact ((h.regular hside).mem_listing.mp (List.mem_filter.mp hmem).1).1

theorem valid_matches (h : Valid readDatabase fs snapshot manifest) :
    Matches fs snapshot manifest := by
  have hdistinct := (loadManifest_distinct h.loaded).1
  constructor
  · intro path
    rw [← mem_keys_byPath hdistinct]
    constructor
    · intro hpath
      obtain ⟨name, relative, hside, hin, rfl⟩ := h.declared_file hpath
      obtain ⟨content, hfile⟩ := (mem_files_side h hside).mp hin
      exact ⟨content, name, relative, hside, hfile, file_path h hside hin⟩
    · rintro ⟨content, name, relative, hside, hfile, rfl⟩
      have hin := (mem_files_side h hside).mpr ⟨content, hfile⟩
      rw [← file_path h hside hin, ← get_isSome, h.declared hside hin]
      rfl
  · intro path
    have hlisted : path ∈ manifest.directories ↔
        path ∈ treeDirectories fs (snapshot ++ [dataName]) (snapshot ++ [sandboxName]) := by
      rw [treeDirectories, List.mem_insertionSort]
      exact ⟨h.directories.1 path, h.directories.2 path⟩
    rw [hlisted, mem_treeDirectories h.data h.sandbox]
    constructor
    · rintro (⟨relative, hdir, rfl⟩ | ⟨relative, hdir, rfl⟩)
      · rw [child_path] at hdir
        exact ⟨dataName, relative, Or.inl rfl, hdir, rfl⟩
      · rw [child_path] at hdir
        exact ⟨sandboxName, relative, Or.inr rfl, hdir, rfl⟩
    · rintro ⟨name, relative, rfl | rfl, hdir, rfl⟩
      · rw [← child_path] at hdir
        exact Or.inl ⟨relative, hdir, rfl⟩
      · rw [← child_path] at hdir
        exact Or.inr ⟨relative, hdir, rfl⟩
  · rintro entry hentry content ⟨name, relative, hside, hfile, hpath⟩
    have hin := (mem_files_side h hside).mpr ⟨content, hfile⟩
    have hdeclared := h.declared hside hin
    rw [file_path h hside hin, ← hpath, (get_byPath hdistinct).mpr ⟨hentry, rfl⟩] at hdeclared
    rw [← child_path] at hfile
    rw [Option.some.inj hdeclared, entryFor, (contentAt_file hfile).2]
    exact ⟨rfl, rfl⟩

theorem refused (h : ∀ manifest, ¬ Valid readDatabase fs snapshot manifest) :
    ∃ after, restoreSnapshot readDatabase snapshot target fs = (none, after) ∧
      ∀ q, after.get q = fs.get q := by
  rcases hrun : restoreSnapshot readDatabase snapshot target fs with ⟨_ | restored, after⟩
  · exact ⟨after, rfl, restore_none hrun⟩
  · obtain ⟨manifest, hvalid⟩ := restore_some hrun
    exact absurd hvalid (h manifest)

/-! ## One manifest, one pair of trees -/

def Holds (fs : Files) (roots : List FilePath) (content : Bytes) : Prop :=
  ∃ root ∈ roots, ∃ relative, fs.get (root ++ relative) = some (.file content)

/-- Contents with one digest are one content. -/
def CollisionFree (P Q : Bytes → Prop) : Prop :=
  ∀ a b, P a → Q b → hexdigest a = hexdigest b → a = b

theorem loadManifest_raw (h : loadManifest fs snapshot = some manifest)
    (hfile : fs'.get (snapshot' ++ [manifestName]) = some (.file manifest.raw)) :
    loadManifest fs' snapshot' = some manifest := by
  have hread : fileAt fs' (snapshot' ++ [manifestName]) =
      fileAt fs (snapshot ++ [manifestName]) := by
    rw [(contentAt_file hfile).1, (contentAt_file (loadManifest_distinct h).2).1]
  rw [loadManifest, hread]
  exact h

theorem side_injective {name name' : Name} (h : Side name) (h' : Side name')
    {relative relative' : List Name}
    (heq : treePath name.1 relative = treePath name'.1 relative') :
    name = name' ∧ relative = relative' := by
  obtain ⟨hname, hrelative⟩ := treePath_injective h.top h'.top heq
  exact ⟨Subtype.ext hname, hrelative⟩

theorem Matches.directory_iff (h : Matches fs snapshot manifest) {name : Name} (hside : Side name)
    (relative : List Name) : fs.get (snapshot ++ name :: relative) = some .directory ↔
      treePath name.1 relative ∈ manifest.directories := by
  rw [h.directories]
  constructor
  · intro hdir
    exact ⟨name, relative, hside, hdir, rfl⟩
  · rintro ⟨name', relative', hside', hdir, heq⟩
    obtain ⟨rfl, rfl⟩ := side_injective hside hside' heq
    exact hdir

theorem Matches.file_iff (h : Matches fs snapshot manifest) {name : Name} (hside : Side name)
    (relative : List Name) : (∃ content, fs.get (snapshot ++ name :: relative) =
      some (.file content)) ↔ treePath name.1 relative ∈ manifest.entries.map Entry.path := by
  rw [h.files]
  constructor
  · rintro ⟨content, hfile⟩
    exact ⟨content, name, relative, hside, hfile, rfl⟩
  · rintro ⟨content, name', relative', hside', hfile, heq⟩
    obtain ⟨rfl, rfl⟩ := side_injective hside hside' heq
    exact ⟨content, hfile⟩

/-- Two valid snapshots with one manifest hold the same trees, unless two of their contents
collide. -/
theorem same_trees (h : Valid readDatabase fs snapshot manifest)
    (h' : Valid readDatabase fs' snapshot' manifest)
    (hfree : CollisionFree (Holds fs [snapshot ++ [dataName], snapshot ++ [sandboxName]])
      (Holds fs' [snapshot' ++ [dataName], snapshot' ++ [sandboxName]]))
    {name : Name} (hside : Side name) :
    fs.tree (snapshot ++ [name]) = fs'.tree (snapshot' ++ [name]) := by
  have hmatches := valid_matches h
  have hmatches' := valid_matches h'
  have hroot : ∀ {place : FilePath}, place ++ [name] ∈
      [place ++ [dataName], place ++ [sandboxName]] := by
    intro place
    rcases hside with rfl | rfl
    · exact List.mem_cons_self
    · exact List.mem_cons_of_mem _ List.mem_cons_self
  -- whatever stands in one snapshot stands in the other
  have hnode : ∀ relative, fs.get (snapshot ++ name :: relative) =
      fs'.get (snapshot' ++ name :: relative) := by
    intro relative
    have hdirectory := (hmatches.directory_iff hside relative).trans
      (hmatches'.directory_iff hside relative).symm
    have hfile := (hmatches.file_iff hside relative).trans
      (hmatches'.file_iff hside relative).symm
    have hkind : ∀ {place : FilePath} {files : Files}, Regular files (place ++ [name]) →
        files.get (place ++ name :: relative) ≠ none →
        files.get (place ++ name :: relative) = some .directory ∨
          ∃ content, files.get (place ++ name :: relative) = some (.file content) := by
      intro place files hregular hpresent
      by_cases hne : relative = []
      · left
        rw [hne]
        exact hregular.directory
      · rw [← child_path] at hpresent ⊢
        have hlisted := hregular.mem_listing.mpr ⟨hne, hpresent⟩
        rcases (hregular.permitted _ hlisted).1 with hkind | hkind
        · exact Or.inr ((mem_filesIn hregular).mp (List.mem_filter.mpr ⟨hlisted, hkind⟩))
        · exact Or.inl (of_decide_eq_true hkind)
    by_cases hpresent : fs.get (snapshot ++ name :: relative) = none
    · rw [hpresent]
      by_contra hother
      rcases hkind (h'.regular hside) (Ne.symm hother) with hdir | hcontent
      · rw [hdirectory.mpr hdir] at hpresent
        cases hpresent
      · obtain ⟨content, hget⟩ := hfile.mpr hcontent
        rw [hget] at hpresent
        cases hpresent
    · rcases hkind (h.regular hside) hpresent with hdir | hcontent
      · rw [hdir, hdirectory.mp hdir]
      · obtain ⟨content, hget⟩ := hcontent
        obtain ⟨content', hget'⟩ := hfile.mp ⟨content, hget⟩
        have hpath := (hmatches.file_iff hside relative).mp ⟨content, hget⟩
        obtain ⟨entry, hentry, hentryPath⟩ := List.mem_map.mp hpath
        have hdigest := (hmatches.contents entry hentry content
          ⟨name, relative, hside, hget, hentryPath⟩).1
        have hdigest' := (hmatches'.contents entry hentry content'
          ⟨name, relative, hside, hget', hentryPath⟩).1
        have hsame : content = content' := by
          apply hfree content content' _ _ (hdigest.trans hdigest'.symm)
          · exact ⟨_, hroot, relative, by rwa [child_path]⟩
          · exact ⟨_, hroot, relative, by rwa [child_path]⟩
        rw [hget, hget', hsame]
  funext relative
  show fs.get (snapshot ++ [name] ++ relative) = fs'.get (snapshot' ++ [name] ++ relative)
  rw [child_path, child_path, hnode]

/-! ## The tool's limits -/

/-- A tree of regular files and directories that is not too deep. -/
structure WithinLimits (fs : Files) (root : FilePath) : Prop where
  directory : fs.get root = some .directory
  kinds : ∀ relative reached, fs.get (root ++ relative) ≠ some (.other reached)
  depth : ∀ relative, fs.get (root ++ relative) ≠ none → relative.length ≤ maxDepth
  sized : Sized fs root

def nodeCount (fs : Files) (root : FilePath) : ℕ :=
  (fs.nodes.keys.filter fun path => root <+: path).length

/-- A pair of trees that the tool can copy: apart from each other, within its limits, with a valid
database and marker. -/
structure Snapshottable (readDatabase : ReadDatabase) (fs : Files) (data sandbox : FilePath) :
    Prop where
  separate : ¬ data <+: sandbox ∧ ¬ sandbox <+: data
  limits : WithinLimits fs data ∧ WithinLimits fs sandbox
  nodes : nodeCount fs data + nodeCount fs sandbox ≤ maxNodes
  database : validateDatabase readDatabase fs data = some ()
  marker : validateMarker fs sandbox = some ()
  manifest : (ascii (encode (manifestJson (treeEntries fs data sandbox)
    (treeDirectories fs data sandbox)))).length ≤ maxManifestBytes

theorem listing_le (h : fs.get data = some .directory) :
    (listing fs data).length + 1 ≤ nodeCount fs data := by
  have hnodup : (data :: (listing fs data).map (data ++ ·)).Nodup := by
    rw [List.nodup_cons]
    constructor
    · intro hmem
      obtain ⟨relative, hin, heq⟩ := List.mem_map.mp hmem
      obtain ⟨name, rest, rfl, -⟩ := mem_walk.mp hin
      simp at heq
    · exact (walk_nodup _ _).map (List.append_right_injective data)
  have hsubset : data :: (listing fs data).map (data ++ ·) ⊆
      fs.nodes.keys.filter fun path => data <+: path := by
    intro path hpath
    have hkey : ∀ {q}, fs.get q ≠ none → q ∈ fs.nodes.keys := by
      intro q hq
      rw [FileSystem.get, ← Option.isSome_iff_ne_none] at hq
      exact get_isSome.mp hq
    rw [List.mem_filter, decide_eq_true_eq]
    rcases List.mem_cons.mp hpath with rfl | hpath
    · exact ⟨hkey (by rw [h]; exact Option.some_ne_none _), List.prefix_refl _⟩
    · obtain ⟨relative, hin, rfl⟩ := List.mem_map.mp hpath
      obtain ⟨name, rest, -, -, hpresent⟩ := mem_walk.mp hin
      exact ⟨hkey hpresent, List.prefix_append _ _⟩
  have hlength := (List.subperm_of_subset hnodup hsubset).length_le
  rw [List.length_cons, List.length_map] at hlength
  exact hlength

theorem manifestBytes_fits {entries : List Entry} {directories : List Str}
    (h : (ascii (encode (manifestJson entries directories))).length ≤ maxManifestBytes) :
    manifestBytes entries directories =
      some (ascii (encode (manifestJson entries directories))) := by
  rw [manifestBytes]
  exact if_neg (Nat.not_lt.mpr h)

theorem Snapshottable.admitted (h : Snapshottable readDatabase fs data sandbox) :
    ∃ raw, Admitted readDatabase fs data sandbox raw := by
  obtain ⟨hdata, hsandbox⟩ := h.limits
  have hfirst := listing_le hdata.directory
  have hsecond := listing_le hsandbox.directory
  have hnodes := h.nodes
  have hsmall : (listing fs data).length + 1 + ((listing fs sandbox).length + 1) ≤ maxNodes := by
    omega
  have hregular : Regular fs data :=
    regular_of_limits hdata.directory hdata.kinds hdata.depth (by omega)
  have hregular' : Regular fs sandbox :=
    regular_of_limits hsandbox.directory hsandbox.kinds hsandbox.depth (by omega)
  exact ⟨_, h.separate, hregular, hregular', hsmall, ⟨hdata.sized, hsandbox.sized⟩, h.database,
    h.marker, manifestBytes_fits h.manifest⟩

/-- A directory that equals a snapshot, wherever it was moved to, is as valid. -/
theorem Valid.moved (h : Valid readDatabase fs snapshot manifest)
    (hmoved : fs'.tree snapshot' = fs.tree snapshot) :
    Valid readDatabase fs' snapshot' manifest := by
  have hget : ∀ relative, fs'.get (snapshot' ++ relative) = fs.get (snapshot ++ relative) :=
    fun relative => congrFun hmoved relative
  have htree : ∀ name, fs.tree (snapshot ++ [name]) = fs'.tree (snapshot' ++ [name]) := by
    intro name
    funext relative
    show fs.get (snapshot ++ [name] ++ relative) = fs'.get (snapshot' ++ [name] ++ relative)
    rw [child_path, child_path, hget]
  have hroot := hget []
  rw [List.append_nil, List.append_nil] at hroot
  have hnames : ∀ name, name ∈ fs'.names snapshot' ↔ name ∈ fs.names snapshot := by
    intro name
    rw [mem_names, mem_names, hget]
  have hpaths : ∀ {name : Name} (top : Str), Side name →
      (foundIn fs' (snapshot' ++ [name]) top).files.map FileEntry.path =
        (foundIn fs (snapshot ++ [name]) top).files.map FileEntry.path := by
    intro name top _
    rw [files_found, files_found, filesIn, filesIn, listing_congr (htree name),
      isFile_congr (htree name), List.map_map, List.map_map]
    rfl
  constructor
  · rw [hroot, h.directory]
  · constructor
    · intro name hname
      exact h.names.1 name ((hnames name).mp hname)
    · intro name hname
      exact (hnames name).mpr (h.names.2 name hname)
  · apply loadManifest_raw h.loaded
    rw [hget]
    exact (loadManifest_distinct h.loaded).2
  · exact h.data.congr (htree _)
  · exact h.sandbox.congr (htree _)
  · have hfiles := h.files
    rw [List.map_append] at hfiles ⊢
    rwa [hpaths _ (Or.inl rfl), hpaths _ (Or.inr rfl)]
  · have hdirectories := h.directories
    rwa [directories_congr (htree dataName), directories_congr (htree sandboxName)] at hdirectories
  · rw [forM_eq_some]
    intro item hitem
    obtain ⟨name, relative, hside, hin, rfl⟩ := found_side hitem
    rw [filesIn, ← listing_congr (htree name), ← isFile_congr (htree name)] at hin
    obtain ⟨content, hfile⟩ := (mem_filesIn (h.regular hside)).mp hin
    have hfile' : fs'.get (snapshot' ++ [name] ++ relative) = some (.file content) := by
      rw [child_path, hget, ← child_path]
      exact hfile
    refine (checkFile_iff hfile').mpr ⟨_, h.declared hside hin, ?_⟩
    rw [entryFor, (contentAt_file hfile).2]
    exact ⟨rfl, rfl⟩
  · exact (validateDatabase_congr (htree _)).symm.trans h.database
  · exact (validateMarker_congr (htree _)).symm.trans h.marker

/-! ## The round trip -/

/-- The trees `data` and `sandbox` of one file system, found again in a directory of another,
with a manifest beside them. -/
structure Restored (fs fs' : Files) (data sandbox place : FilePath) (raw : Bytes) : Prop where
  data : fs'.tree (place ++ [dataName]) = fs.tree data
  sandbox : fs'.tree (place ++ [sandboxName]) = fs.tree sandbox
  manifest : fs'.get (place ++ [manifestName]) = some (.file raw)
  names : sameSet (fs'.names place) [dataName, sandboxName, manifestName]

/-- What creation gives for trees within the limits: a snapshot that is accepted and restored,
wherever it was moved to. -/
theorem created_restored {locked : Files} (hlock : openLock data fs = some locked)
    (h : Snapshottable readDatabase locked data sandbox)
    (hfree : Free locked [data, sandbox] target) :
    ∃ created raw entries directories,
      createSnapshot readDatabase data sandbox target fs = (some target, created) ∧
      Restored locked created data sandbox target raw ∧ Under target locked created ∧
      Valid readDatabase created target ⟨raw, entries, directories⟩ ∧
      ∀ later snapshot place, later.tree snapshot = created.tree target →
        Free later [snapshot] place →
        ∃ restored, restoreSnapshot readDatabase snapshot place later = (some place, restored) ∧
          Restored locked restored data sandbox place raw ∧ Under place later restored := by
  obtain ⟨raw, hadmitted⟩ := h.admitted
  obtain ⟨created, hcreate, hfinished⟩ := create_ready hlock hadmitted hfree
  have hvalid := created_valid hadmitted hfinished
  refine ⟨created, raw, _, _, hcreate, ⟨hfinished.data, hfinished.sandbox, hfinished.manifest,
    hfinished.names⟩, hfinished.under, hvalid, ?_⟩
  intro later snapshot place hmoved hplace
  have hget : ∀ relative, later.get (snapshot ++ relative) = created.get (target ++ relative) :=
    fun relative => congrFun hmoved relative
  have htree : ∀ name, later.tree (snapshot ++ [name]) = created.tree (target ++ [name]) := by
    intro name
    funext relative
    show later.get (snapshot ++ [name] ++ relative) = created.get (target ++ [name] ++ relative)
    rw [child_path, child_path, hget]
  obtain ⟨restored, hrestore, hdone⟩ := restore_valid (Valid.moved hvalid hmoved) hplace
  exact ⟨restored, hrestore, ⟨hdone.data.trans ((htree _).trans hfinished.data),
    hdone.sandbox.trans ((htree _).trans hfinished.sandbox), hdone.manifest, hdone.names⟩,
    hdone.under⟩

/-- Cold snapshots round-trip. With the lock file in place, trees within the limits give a
snapshot that is accepted, and whose restoration has the same trees and the same manifest. A
snapshot that differs from its manifest, be it the one it was created with, is refused, and then
as after a failed creation nothing is left behind. -/
theorem cold_snapshots_round_trip {locked : Files} (hlock : openLock data fs = some locked)
    (h : Snapshottable readDatabase locked data sandbox)
    (hfree : Free locked [data, sandbox] target) :
    ∃ created raw,
      createSnapshot readDatabase data sandbox target fs = (some target, created) ∧
      Restored locked created data sandbox target raw ∧ Under target locked created ∧
      (validateSnapshot readDatabase created target).isSome ∧
      (∀ later snapshot place, later.tree snapshot = created.tree target →
        Free later [snapshot] place →
        ∃ restored, restoreSnapshot readDatabase snapshot place later = (some place, restored) ∧
          Restored locked restored data sandbox place raw ∧ Under place later restored) ∧
      (∀ later snapshot place, later.get (snapshot ++ [manifestName]) = some (.file raw) →
        CollisionFree (Holds locked [data, sandbox])
          (Holds later [snapshot ++ [dataName], snapshot ++ [sandboxName]]) →
        later.tree (snapshot ++ [dataName]) ≠ locked.tree data ∨
          later.tree (snapshot ++ [sandboxName]) ≠ locked.tree sandbox →
        ∃ after, restoreSnapshot readDatabase snapshot place later = (none, after) ∧
          ∀ q, after.get q = later.get q) ∧
      (∀ later snapshot place,
        (∀ manifest, loadManifest later snapshot = some manifest →
          ¬ Matches later snapshot manifest) →
        ∃ after, restoreSnapshot readDatabase snapshot place later = (none, after) ∧
          ∀ q, after.get q = later.get q) ∧
      ∀ before data sandbox place after,
        createSnapshot readDatabase data sandbox place before = (none, after) →
        (∀ q, after.get q = before.get q) ∨
          ∃ locked, openLock data before = some locked ∧ ∀ q, after.get q = locked.get q := by
  obtain ⟨created, raw, entries, directories, hcreate, hcreated, hunder, hvalid, hrestore⟩ :=
    created_restored hlock h hfree
  refine ⟨created, raw, hcreate, hcreated, hunder, ?_, hrestore, ?_, ?_, ?_⟩
  · rw [validateSnapshot_valid hvalid]
    rfl
  · intro later snapshot place hraw hcollision hdiffers
    apply refused
    intro manifest hother
    -- the manifest of the later snapshot is the one that was created
    have hloaded := loadManifest_raw hvalid.loaded hraw
    rw [hother.loaded] at hloaded
    rw [Option.some.inj hloaded] at hother
    have hholds : ∀ content, Holds created [target ++ [dataName], target ++ [sandboxName]] content →
        Holds locked [data, sandbox] content := by
      rintro content ⟨root, hroot, relative, hfile⟩
      simp only [List.mem_cons, List.not_mem_nil, or_false] at hroot
      rcases hroot with rfl | rfl
      · have hget := congrFun hcreated.data relative
        exact ⟨data, List.mem_cons_self, relative, hget.symm.trans hfile⟩
      · have hget := congrFun hcreated.sandbox relative
        exact ⟨sandbox, List.mem_cons_of_mem _ List.mem_cons_self, relative,
          hget.symm.trans hfile⟩
    have hfreeOf : CollisionFree (Holds created [target ++ [dataName], target ++ [sandboxName]])
        (Holds later [snapshot ++ [dataName], snapshot ++ [sandboxName]]) :=
      fun a b ha hb heq => hcollision a b (hholds a ha) hb heq
    rcases hdiffers with hdata | hsandbox
    · exact hdata ((same_trees hvalid hother hfreeOf (Or.inl rfl)).symm.trans hcreated.data)
    · exact hsandbox
        ((same_trees hvalid hother hfreeOf (Or.inr rfl)).symm.trans hcreated.sandbox)
  · intro later snapshot place hdiffers
    apply refused
    intro manifest hvalid
    exact hdiffers manifest hvalid.loaded (valid_matches hvalid)
  · intro before data sandbox place after hfailed
    exact create_none hfailed

/-! ## A small installation -/

def bytesOf (ns : List ℕ) : Bytes := ns.map UInt8.ofNat

def zeros (n : ℕ) : Bytes := List.replicate n 0

/-- A database of one page. Its tables are two views: `schema_migrations` selects the version 1,
and `objects` the completed bootstrap. -/
def smallDatabase : Bytes :=
  bytesOf [83, 81, 76, 105, 116, 101, 32, 102, 111, 114, 109, 97, 116, 32, 51, 0, 2, 0, 1, 1, 0,
    64, 32, 32, 0, 0, 0, 2, 0, 0, 0, 1] ++ zeros 11 ++ bytesOf [2, 0, 0, 0, 4] ++ zeros 11 ++
    bytesOf [1] ++ zeros 35 ++ bytesOf [2, 0, 46, 122, 112, 13, 0, 0, 0, 2, 1, 38, 0, 1, 158, 1,
    38] ++ zeros 182 ++ bytesOf [118, 2, 7, 21, 27, 27, 8, 129, 71, 118, 105, 101, 119, 111, 98,
    106, 101, 99, 116, 115, 111, 98, 106, 101, 99, 116, 115, 67, 82, 69, 65, 84, 69, 32, 86, 73,
    69, 87, 32, 111, 98, 106, 101, 99, 116, 115, 32, 65, 83, 32, 83, 69, 76, 69, 67, 84, 32, 39,
    98, 111, 111, 116, 115, 116, 114, 97, 112, 39, 32, 65, 83, 32, 107, 105, 110, 100, 44, 39,
    115, 101, 101, 100, 45, 118, 49, 39, 32, 65, 83, 32, 105, 100, 44, 39, 123, 34, 99, 111, 109,
    112, 108, 101, 116, 101, 34, 58, 116, 114, 117, 101, 125, 39, 32, 65, 83, 32, 98, 111, 100,
    121, 96, 1, 6, 21, 47, 47, 8, 117, 118, 105, 101, 119, 115, 99, 104, 101, 109, 97, 95, 109,
    105, 103, 114, 97, 116, 105, 111, 110, 115, 115, 99, 104, 101, 109, 97, 95, 109, 105, 103,
    114, 97, 116, 105, 111, 110, 115, 67, 82, 69, 65, 84, 69, 32, 86, 73, 69, 87, 32, 115, 99,
    104, 101, 109, 97, 95, 109, 105, 103, 114, 97, 116, 105, 111, 110, 115, 32, 65, 83, 32, 83,
    69, 76, 69, 67, 84, 32, 49, 32, 65, 83, 32, 118, 101, 114, 115, 105, 111, 110]

def smallRead : ReadDatabase := fun main wal shm =>
  if main = smallDatabase ∧ wal = none ∧ shm = none then
    some ⟨true, true, some (.text (str "\x7b\"complete\":true\x7d")), []⟩
  else none

def smallMarker : Bytes :=
  ascii (str "\x7b\"product\":\"Wise Way\",\"synthetic\":true,\"bootstrap_complete\":true\x7d")

def inboxName : Name := ⟨str "inbox", by decide⟩

def letterName : Name := ⟨[233], by decide⟩

def copyName : Name := ⟨str "copy", by decide⟩

set_option maxRecDepth 20000

def smallNodes : List (FilePath × Node Bytes) :=
  [([], .directory), ([dataName], .directory), ([dataName, databaseName], .file smallDatabase),
    ([sandboxName], .directory), ([sandboxName, markerName], .file smallMarker),
    ([sandboxName, inboxName], .directory), ([sandboxName, inboxName, letterName], .file [1, 2, 3])]

def smallFiles : Files := ofNodes ⟨smallNodes, by decide +kernel⟩ (by decide +kernel)

/-- The same with the lock file. -/
def lockedFiles : Files :=
  ofNodes ⟨smallNodes ++ [([dataName, lockName], .file [])], by decide +kernel⟩ (by decide +kernel)

def modest (entry : FilePath × Node Bytes) : Bool :=
  entry.1.length ≤ maxDepth &&
    match entry.2 with
    | .file content => content.length < 2 ^ 63
    | .directory => true
    | .other _ => false

theorem withinLimits_of_modest (hdirectory : fs.get data = some .directory)
    (h : ∀ entry ∈ fs.nodes.entries, modest entry = true) : WithinLimits fs data := by
  have hmodest : ∀ relative node, fs.get (data ++ relative) = some node →
      modest (data ++ relative, node) = true :=
    fun relative node hget => h _ (get_eq_some.mp hget)
  constructor
  · exact hdirectory
  · intro relative reached hget
    have hnode := hmodest relative _ hget
    simp [modest] at hnode
  · intro relative hpresent
    obtain ⟨node, hget⟩ := Option.ne_none_iff_exists'.mp hpresent
    have hnode := hmodest relative node hget
    rw [modest, Bool.and_eq_true, decide_eq_true_eq, List.length_append] at hnode
    omega
  · intro relative content hget
    have hnode := hmodest relative _ hget
    rw [modest, Bool.and_eq_true] at hnode
    exact of_decide_eq_true hnode.2

theorem snapshottable_of_modest (hmodest : ∀ entry ∈ fs.nodes.entries, modest entry = true)
    (hdirectories : fs.get [dataName] = some .directory ∧ fs.get [sandboxName] = some .directory)
    (hnodes : nodeCount fs [dataName] + nodeCount fs [sandboxName] ≤ maxNodes)
    (hdatabase : validateDatabase readDatabase fs [dataName] = some ())
    (hmarker : validateMarker fs [sandboxName] = some ())
    (hmanifest : (ascii (encode (manifestJson (treeEntries fs [dataName] [sandboxName])
      (treeDirectories fs [dataName] [sandboxName])))).length ≤ maxManifestBytes) :
    Snapshottable readDatabase fs [dataName] [sandboxName] :=
  ⟨by decide, ⟨withinLimits_of_modest hdirectories.1 hmodest,
    withinLimits_of_modest hdirectories.2 hmodest⟩, hnodes, hdatabase, hmarker, hmanifest⟩

theorem small_snapshottable : Snapshottable smallRead smallFiles [dataName] [sandboxName] := by
  apply snapshottable_of_modest
  all_goals decide +kernel

theorem locked_snapshottable : Snapshottable smallRead lockedFiles [dataName] [sandboxName] := by
  apply snapshottable_of_modest
  all_goals decide +kernel

theorem small_lock : openLock [dataName] smallFiles = some lockedFiles := by
  have habsent : smallFiles.get ([dataName] ++ [lockName]) = none := by decide +kernel
  obtain ⟨locked, hadd⟩ := add_succeeds (.file []) (by decide) habsent (by decide +kernel)
  have hentries : locked.nodes.entries = lockedFiles.nodes.entries := by
    rw [nodes_add hadd]
    decide +kernel
  rw [openLock, habsent]
  show smallFiles.add ([dataName] ++ [lockName]) (.file []) = some lockedFiles
  rw [hadd, eq_of_entries hentries]

theorem small_free : Free lockedFiles [[dataName], [sandboxName]] [copyName] := by
  constructor
  · decide +kernel
  · decide +kernel
  · decide

theorem cold_snapshots_round_trip_small : ∃ created raw,
    createSnapshot smallRead [dataName] [sandboxName] [copyName] smallFiles =
      (some [copyName], created) ∧
    Restored lockedFiles created [dataName] [sandboxName] [copyName] raw ∧
    (validateSnapshot smallRead created [copyName]).isSome := by
  obtain ⟨created, raw, hcreate, hcreated, -, hvalid, -⟩ :=
    cold_snapshots_round_trip small_lock locked_snapshottable small_free
  exact ⟨created, raw, hcreate, hcreated, hvalid⟩

/-- The restored data tree has a lock file that the given one lacked. -/
theorem lock_restored : Snapshottable smallRead smallFiles [dataName] [sandboxName] ∧
    ∃ created restored,
      createSnapshot smallRead [dataName] [sandboxName] [copyName] smallFiles =
        (some [copyName], created) ∧
      restoreSnapshot smallRead [copyName] [inboxName] created = (some [inboxName], restored) ∧
      smallFiles.tree [dataName] [lockName] = none ∧
      restored.tree [inboxName, dataName] [lockName] = some (.file []) := by
  obtain ⟨created, raw, entries, directories, hcreate, -, hunder, -, hrestore⟩ :=
    created_restored small_lock locked_snapshottable small_free
  have hplace : Free created [[copyName]] [inboxName] := by
    constructor
    · rw [hunder _ (by decide)]
      decide +kernel
    · exact created.root
    · decide
  obtain ⟨restored, hdone, htrees, -⟩ := hrestore created [copyName] [inboxName] rfl hplace
  refine ⟨small_snapshottable, created, restored, hcreate, hdone, by decide +kernel, ?_⟩
  have hlock := congrFun htrees.data [lockName]
  have hgiven : lockedFiles.tree [dataName] [lockName] = some (.file []) := by decide +kernel
  exact hlock.trans hgiven

end ColdSnapshots
