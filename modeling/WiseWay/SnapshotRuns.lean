import WiseWay.SnapshotManifests

/-! # Runs of the snapshot tool

What is created is valid, what is valid is restored as it is, and a run that fails leaves all as
it was. -/
namespace SnapshotRuns

open TextCodecs JsonTexts PosixPaths OrderedDicts FileStores Sha256 Snapshots SnapshotScans
  SnapshotCopies SnapshotManifests

variable {readDatabase : ReadDatabase} {fs fs' : Files}
  {data sandbox snapshot target : FilePath} {sources : List FilePath}

/-! ## Trees and what depends on them -/

theorem foundIn_congr (h : fs.tree data = fs'.tree data) (top : Str) :
    foundIn fs data top = foundIn fs' data top := by
  simp only [foundIn, collect, listing_congr h, isFile_congr h, isDir_congr h]

theorem entriesIn_congr {root root' : FilePath} (h : fs.tree root = fs'.tree root') (top : Str) :
    entriesIn fs root top = entriesIn fs' root' top := by
  have hentry : entryFor fs root top = entryFor fs' root' top := by
    funext relative
    have hget : fs.get (root ++ relative) = fs'.get (root' ++ relative) := congrFun h relative
    simp only [entryFor, contentAt, fileAt, hget]
  rw [entriesIn, entriesIn, hentry, filesIn, filesIn, listing_congr h, isFile_congr h]

theorem directories_congr {root root' : FilePath} (h : fs.tree root = fs'.tree root')
    (top : Str) :
    (foundIn fs root top).directories = (foundIn fs' root' top).directories := by
  rw [directories_found, directories_found, directoriesIn, directoriesIn, listing_congr h,
    isDir_congr h]

theorem validateDatabase_congr {root root' : FilePath} (h : fs.tree root = fs'.tree root') :
    validateDatabase readDatabase fs root = validateDatabase readDatabase fs' root' := by
  have hget : ∀ name, fs.get (root ++ [name]) = fs'.get (root' ++ [name]) :=
    fun name => congrFun h [name]
  simp only [validateDatabase, fileAt, optionalFile, hget]

theorem validateMarker_congr {root root' : FilePath} (h : fs.tree root = fs'.tree root') :
    validateMarker fs root = validateMarker fs' root' := by
  have hget : fs.get (root ++ [markerName]) = fs'.get (root' ++ [markerName]) :=
    congrFun h [markerName]
  simp only [validateMarker, fileAt, hget]

theorem apart_of_outside {source target : FilePath} (h : ¬ source <+: target)
    (h' : ¬ target <+: source) (name : Name) : Apart source (target ++ [name]) := by
  intro relative relative' heq
  have hsource : source <+: source ++ relative := List.prefix_append _ _
  have htarget : target <+: source ++ relative := by
    rw [heq, List.append_assoc]
    exact List.prefix_append _ _
  rcases List.prefix_or_prefix_of_prefix hsource htarget with hin | hin
  · exact h hin
  · exact h' hin

/-! ## Making a destination -/

/-- A place where a copy can be made of what lies in the sources. -/
structure Free (fs : Files) (sources : List FilePath) (target : FilePath) : Prop where
  absent : fs.get target = none
  parent : fs.get target.dropLast = some .directory
  outside : ∀ source ∈ sources, ¬ source <+: target ∧ ¬ target <+: source

theorem Free.ne_root (h : Free fs sources target) : target ≠ [] := by
  rintro rfl
  have hroot : fs.get [] = some .directory := fs.root
  rw [h.absent] at hroot
  cases hroot

theorem newDestination_free (h : Free fs sources target) :
    ∃ fs', fs.add target .directory = some fs' ∧
      newDestination target sources fs = (some target, fs') := by
  obtain ⟨fs', hadd⟩ := add_succeeds .directory h.ne_root h.absent h.parent
  refine ⟨fs', hadd, ?_⟩
  have hfirst : reads (fun fs : Files => ensure (fs.get target = none)) fs = (some (), fs) := by
    rw [reads, ensure, if_pos h.absent]
  have hsecond : reads (fun fs : Files => requireDirectory fs target.dropLast) fs =
      (some (), fs) := by
    rw [reads, requireDirectory, ensure, if_pos h.parent]
  have hthird : check (∀ source ∈ sources, ¬ source <+: target ∧ ¬ target <+: source) fs =
      (some (), fs) := by
    rw [check, reads, ensure, if_pos h.outside]
  have hmkdir : mkdir target fs = (some (), fs') := changes_some hadd
  rw [newDestination, bind_some hfirst, bind_some hsecond, bind_some hthird, bind_some hmkdir]
  rfl

theorem newDestination_cases (fs : Files) (target : FilePath) (sources : List FilePath) :
    newDestination target sources fs = (none, fs) ∨ Free fs sources target := by
  by_cases habsent : fs.get target = none
  · by_cases hparent : fs.get target.dropLast = some .directory
    · by_cases houtside : ∀ source ∈ sources, ¬ source <+: target ∧ ¬ target <+: source
      · exact Or.inr ⟨habsent, hparent, houtside⟩
      · left
        rw [newDestination, bind_some (show reads _ fs = (some (), fs) by
          rw [reads, ensure, if_pos habsent]), bind_some (show reads _ fs = (some (), fs) by
          rw [reads, requireDirectory, ensure, if_pos hparent])]
        apply bind_none
        rw [check, reads, ensure, if_neg houtside]
    · left
      rw [newDestination, bind_some (show reads _ fs = (some (), fs) by
        rw [reads, ensure, if_pos habsent])]
      apply bind_none
      rw [reads, requireDirectory, ensure, if_neg hparent]
  · left
    apply bind_none
    rw [reads, ensure, if_neg habsent]

/-! ## Copying both trees -/

def Empty (fs : Files) (target : FilePath) : Prop :=
  fs.get target = some .directory ∧ ∀ relative, relative ≠ [] → fs.get (target ++ relative) = none

theorem empty_added (habsent : fs.get target = none) (hadd : fs.add target .directory = some fs') :
    Empty fs' target := by
  constructor
  · rw [get_add hadd, if_pos rfl]
  · intro relative hne
    rw [get_add hadd, if_neg (by simpa using hne)]
    by_contra hpresent
    exact present_above relative hpresent habsent

theorem tree_under {source : FilePath} (hunder : Under target fs fs')
    (h : ¬ source <+: target) (h' : ¬ target <+: source) : fs'.tree source = fs.tree source := by
  funext relative
  apply hunder
  intro hbelow
  have hsource : source <+: source ++ relative := List.prefix_append _ _
  rcases List.prefix_or_prefix_of_prefix hsource hbelow with hin | hin
  · exact h hin
  · exact h' hin

theorem under_trans {between after : Files} (h : Under target fs between)
    (h' : Under target between after) : Under target fs after :=
  fun q hq => (h' q hq).trans (h q hq)

theorem under_below {between : Files} {name : Name} (h : Under (target ++ [name]) fs between) :
    Under target fs between := by
  intro q hq
  apply h
  intro hbelow
  exact hq ((List.prefix_append target [name]).trans hbelow)

theorem names_apart {a b : Name} (h : a ≠ b) (relative : List Name) :
    ¬ target ++ [a] <+: target ++ b :: relative := by
  rw [List.prefix_append_right_inj, List.cons_prefix_cons]
  exact fun hin => h hin.1

theorem data_ne_sandbox : dataName ≠ sandboxName := by decide

theorem valid_data : ValidName (str "data") := dataName.2

theorem valid_sandbox : ValidName (str "sandbox") := sandboxName.2

/-- What the copy of both trees leaves: the two trees below an otherwise empty target. -/
structure Copied (fs fs' : Files) (data sandbox target : FilePath) : Prop where
  directory : fs'.get target = some .directory
  data : fs'.tree (target ++ [dataName]) = fs.tree data
  sandbox : fs'.tree (target ++ [sandboxName]) = fs.tree sandbox
  others : ∀ name relative, name ≠ dataName → name ≠ sandboxName →
    fs'.get (target ++ name :: relative) = none
  under : Under target fs fs'

theorem copyTrees_spec (hdata : Regular fs data) (hsandbox : Regular fs sandbox)
    (hempty : Empty fs target) (hout : ¬ data <+: target ∧ ¬ target <+: data)
    (hout' : ¬ sandbox <+: target ∧ ¬ target <+: sandbox) :
    ∃ fs', copyTrees (foundIn fs data (str "data")) (foundIn fs sandbox (str "sandbox")) target fs =
        (some (treeEntries fs data sandbox), fs') ∧ Copied fs fs' data sandbox target := by
  have hlast : ∀ name : Name, (target ++ [name]).dropLast = target :=
    fun name => List.dropLast_concat
  -- the two directories
  obtain ⟨first, hfirst, hget⟩ := mkdir_spec fs (target ++ [dataName]) (by simp)
    (hempty.2 _ (by simp)) (by rw [hlast, hempty.1])
  have hsandboxFree : first.get (target ++ [sandboxName]) = none := by
    rw [hget, if_neg (by simpa using data_ne_sandbox.symm)]
    exact hempty.2 _ (by simp)
  obtain ⟨second, hsecond, hget'⟩ := mkdir_spec first (target ++ [sandboxName])
    (by simp) hsandboxFree (by rw [hlast, hget, if_neg (by simp), hempty.1])
  have hmade : Under target fs second := by
    intro q hq
    rw [hget', hget, if_neg, if_neg]
    · rintro rfl
      exact hq (List.prefix_append _ _)
    · rintro rfl
      exact hq (List.prefix_append _ _)
  have hdataTree := tree_under hmade hout.1 hout.2
  have hsandboxTree := tree_under hmade hout'.1 hout'.2
  have hdataRoot : second.get (target ++ [dataName]) = some .directory := by
    rw [hget', if_neg (by simpa using data_ne_sandbox), hget, if_pos rfl]
  have hbelow : ∀ name rest, name :: rest ≠ [dataName] → name :: rest ≠ [sandboxName] →
      second.get (target ++ name :: rest) = none := by
    intro name rest hne hne'
    rw [hget', if_neg (by simpa using hne'), hget, if_neg (by simpa using hne)]
    exact hempty.2 _ (List.cons_ne_nil _ _)
  -- the copy of the data tree
  obtain ⟨third, hthird, hcopied, hunder⟩ := copyTree_spec (target ++ [dataName])
    valid_data (hdata.congr hdataTree.symm)
    (apart_of_outside hout.1 hout.2 _) hdataRoot (by
      intro relative hne
      rw [List.append_assoc, List.singleton_append]
      apply hbelow
      · simpa using hne
      · intro heq
        exact data_ne_sandbox (List.cons_eq_cons.mp heq).1)
  have hthirdUnder : Under target second third := under_below hunder
  have hsandboxThird := tree_under hthirdUnder hout'.1 hout'.2
  have hkept : ∀ relative, third.get (target ++ sandboxName :: relative) =
      second.get (target ++ sandboxName :: relative) :=
    fun relative => hunder _ (names_apart data_ne_sandbox relative)
  -- the copy of the sandbox tree
  have hsandboxNow : fs.tree sandbox = third.tree sandbox := (hsandboxThird.trans hsandboxTree).symm
  obtain ⟨fs', hfourth, hcopied', hunder'⟩ := copyTree_spec (target ++ [sandboxName])
    valid_sandbox (hsandbox.congr hsandboxNow)
    (apart_of_outside hout'.1 hout'.2 _) (by
      have hroot := hkept []
      rw [hroot, hget', if_pos rfl]) (by
      intro relative hne
      rw [List.append_assoc, List.singleton_append, hkept]
      apply hbelow
      · intro heq
        exact data_ne_sandbox (List.cons_eq_cons.mp heq).1.symm
      · simpa using hne)
  have hfourthUnder : Under target third fs' := under_below hunder'
  have hkept' : ∀ name relative, name ≠ sandboxName → fs'.get (target ++ name :: relative) =
      third.get (target ++ name :: relative) :=
    fun name relative hne => hunder' _ (names_apart hne.symm relative)
  refine ⟨fs', ?_, ?_⟩
  · rw [foundIn_congr hdataTree.symm, foundIn_congr hsandboxNow, copyTrees, bind_some hfirst,
      bind_some hsecond, bind_some hthird, bind_some hfourth, treeEntries,
      entriesIn_congr hdataTree.symm, entriesIn_congr hsandboxNow]
    rfl
  · constructor
    · have hrootOut : ∀ name : Name, ¬ target ++ [name] <+: target := by
        intro name hbelow
        have hlength := hbelow.length_le
        rw [List.length_append, List.length_singleton] at hlength
        omega
      rw [hunder' _ (hrootOut _), hunder _ (hrootOut _), hget', if_neg (by simp), hget,
        if_neg (by simp), hempty.1]
    · rw [← hdataTree, ← hcopied]
      funext relative
      show fs'.get (target ++ [dataName] ++ relative) = third.get (target ++ [dataName] ++ relative)
      rw [List.append_assoc, List.singleton_append]
      exact hkept' _ _ data_ne_sandbox
    · rw [hcopied', hsandboxNow]
    · intro name relative hdataNe hsandboxNe
      rw [hkept' name relative hsandboxNe, hunder _ (names_apart hdataNe.symm relative)]
      apply hbelow
      · intro heq
        exact hdataNe (List.cons_eq_cons.mp heq).1
      · intro heq
        exact hsandboxNe (List.cons_eq_cons.mp heq).1
    · exact under_trans hmade (under_trans hthirdUnder hfourthUnder)

/-! ## Finishing -/

theorem finishSnapshot_spec (raw : Bytes) (hdirectory : fs.get target = some .directory)
    (hfree : fs.get (target ++ [manifestName]) = none)
    (hdatabase : validateDatabase readDatabase fs (target ++ [dataName]) = some ())
    (hmarker : validateMarker fs (target ++ [sandboxName]) = some ()) :
    ∃ fs', finishSnapshot readDatabase target (some raw) fs = (some target, fs') ∧
      ∀ q, fs'.get q = if q = target ++ [manifestName] then some (.file raw) else fs.get q := by
  obtain ⟨fs', hcreate, hget⟩ := createFile_spec fs (target ++ [manifestName])
    (by simp) hfree (by rw [List.dropLast_concat, hdirectory]) raw
  refine ⟨fs', ?_, hget⟩
  have hroot : fs'.get target ≠ none := by
    rw [hget, if_neg (by simp), hdirectory]
    exact Option.some_ne_none _
  have hsync : fsyncDirectory target fs' = (some (), fs') := by
    rw [fsyncDirectory, reads, ensure, if_pos hroot]
  rw [finishSnapshot, bind_some (show reads _ fs = (some (), fs) by rw [reads, hdatabase]),
    bind_some (show reads _ fs = (some (), fs) by rw [reads, hmarker]),
    bind_some (show reads _ fs = (some raw, fs) from rfl), bind_some hcreate, bind_some hsync]
  rfl

theorem confined_finishSnapshot (readDatabase : ReadDatabase) (target : FilePath)
    (content : Option Bytes) : Confined target (finishSnapshot readDatabase target content) := by
  apply (confined_reads _ _).bind
  intro _
  apply (confined_reads _ _).bind
  intro _
  apply (confined_reads _ _).bind
  intro manifest
  apply (confined_add (List.prefix_append _ _) _).bind
  intro _
  apply (confined_reads _ _).bind
  intro _
  exact confined_pure _ _

theorem Confined.weaken {α : Type} {run : Run Files α} {name : Name}
    (h : Confined (target ++ [name]) run) : Confined target run :=
  fun fs => under_below (h fs)

theorem confined_copyTrees (data sandbox : Found) (target : FilePath) :
    Confined target (copyTrees data sandbox target) := by
  apply (confined_add (List.prefix_append _ _) _).bind
  intro _
  apply (confined_add (List.prefix_append _ _) _).bind
  intro _
  apply (Confined.weaken (confined_copyTree _ _ _ _)).bind
  intro dataEntries
  apply (Confined.weaken (confined_copyTree _ _ _ _)).bind
  intro sandboxEntries
  exact confined_pure _ _

/-- A finished copy: the two trees and the manifest, below an otherwise empty target. -/
structure Finished (fs fs' : Files) (data sandbox target : FilePath) (raw : Bytes) : Prop where
  directory : fs'.get target = some .directory
  data : fs'.tree (target ++ [dataName]) = fs.tree data
  sandbox : fs'.tree (target ++ [sandboxName]) = fs.tree sandbox
  manifest : fs'.get (target ++ [manifestName]) = some (.file raw)
  names : sameSet (fs'.names target) [dataName, sandboxName, manifestName]
  under : Under target fs fs'

theorem manifest_apart : manifestName ≠ dataName ∧ manifestName ≠ sandboxName := by decide

/-- Copying the trees and finishing, one after the other. -/
theorem finished_copy {between : Files} (raw : Bytes) (hdata : Regular fs data)
    (hsandbox : Regular fs sandbox) (hcopied : Copied fs between data sandbox target)
    (hdatabase : validateDatabase readDatabase fs data = some ())
    (hmarker : validateMarker fs sandbox = some ()) :
    ∃ fs', finishSnapshot readDatabase target (some raw) between = (some target, fs') ∧
      Finished fs fs' data sandbox target raw := by
  have hfree : between.get (target ++ [manifestName]) = none :=
    hcopied.others manifestName [] manifest_apart.1 manifest_apart.2
  obtain ⟨fs', hrun, hget⟩ := finishSnapshot_spec raw hcopied.directory hfree
    ((validateDatabase_congr hcopied.data).trans hdatabase)
    ((validateMarker_congr hcopied.sandbox).trans hmarker)
  have hat : ∀ name relative, name ≠ manifestName →
      fs'.get (target ++ name :: relative) = between.get (target ++ name :: relative) := by
    intro name relative hne
    rw [hget, if_neg]
    intro heq
    exact hne (List.cons_eq_cons.mp (List.append_cancel_left heq)).1
  have htree : ∀ name, name ≠ manifestName →
      fs'.tree (target ++ [name]) = between.tree (target ++ [name]) := by
    intro name hne
    funext relative
    show fs'.get (target ++ [name] ++ relative) = between.get (target ++ [name] ++ relative)
    rw [List.append_assoc, List.singleton_append]
    exact hat name relative hne
  have hdataTree : fs'.tree (target ++ [dataName]) = fs.tree data :=
    (htree _ manifest_apart.1.symm).trans hcopied.data
  have hsandboxTree : fs'.tree (target ++ [sandboxName]) = fs.tree sandbox :=
    (htree _ manifest_apart.2.symm).trans hcopied.sandbox
  have hmanifest : fs'.get (target ++ [manifestName]) = some (.file raw) := by
    rw [hget, if_pos rfl]
  have hroot : ∀ {name root}, fs'.tree (target ++ [name]) = fs.tree root → Regular fs root →
      fs'.get (target ++ [name]) ≠ none := by
    intro name root htree hregular
    have hself : fs'.get (target ++ [name] ++ []) = fs.get (root ++ []) := congrFun htree []
    rw [List.append_nil, List.append_nil, hregular.directory] at hself
    rw [hself]
    exact Option.some_ne_none _
  refine ⟨fs', hrun, ?_⟩
  constructor
  · rw [hget, if_neg (by simp), hcopied.directory]
  · exact hdataTree
  · exact hsandboxTree
  · exact hmanifest
  · constructor
    · intro name hname
      rw [mem_names] at hname
      by_cases hm : name = manifestName
      · simp [hm]
      · rw [hat name [] hm] at hname
        by_cases hd : name = dataName
        · simp [hd]
        · by_cases hs : name = sandboxName
          · simp [hs]
          · exact absurd (hcopied.others name [] hd hs) hname
    · intro name hname
      rw [mem_names]
      simp only [List.mem_cons, List.not_mem_nil, or_false] at hname
      rcases hname with rfl | rfl | rfl
      · exact hroot hdataTree hdata
      · exact hroot hsandboxTree hsandbox
      · rw [hmanifest]
        exact Option.some_ne_none _
  · apply under_trans hcopied.under
    intro q hq
    rw [hget, if_neg]
    rintro rfl
    exact hq (List.prefix_append _ _)

/-! ## Valid snapshots -/

theorem get_declared (entries : List Entry) (declared : OrderedDict Str Entry)
    (h : (entries.map Entry.path).Nodup) {path : Str} {entry : Entry} :
    (entries.foldl (fun declared entry => declared.set entry.path entry) declared).get path =
        some entry ↔
      (entry ∈ entries ∧ entry.path = path) ∨
        (path ∉ entries.map Entry.path ∧ declared.get path = some entry) := by
  induction entries generalizing declared with
  | nil => simp
  | cons first entries ih =>
    obtain ⟨hnew, hrest⟩ := List.nodup_cons.mp h
    rw [List.foldl_cons, ih _ hrest, get_set, List.map_cons, List.mem_cons, List.mem_cons, not_or]
    by_cases hpath : path = first.path
    · subst hpath
      rw [if_pos rfl]
      constructor
      · rintro (⟨hmem, heq⟩ | ⟨-, heq⟩)
        · exact Or.inl ⟨Or.inr hmem, heq⟩
        · exact Or.inl ⟨Or.inl (Option.some.inj heq).symm, by rw [← Option.some.inj heq]⟩
      · rintro (⟨rfl | hmem, heq⟩ | ⟨⟨hne, -⟩, -⟩)
        · exact Or.inr ⟨hnew, rfl⟩
        · exact absurd (heq ▸ List.mem_map_of_mem hmem) hnew
        · exact absurd rfl hne
    · rw [if_neg hpath]
      constructor
      · rintro (⟨hmem, heq⟩ | ⟨hout, hget⟩)
        · exact Or.inl ⟨Or.inr hmem, heq⟩
        · exact Or.inr ⟨⟨hpath, hout⟩, hget⟩
      · rintro (⟨rfl | hmem, heq⟩ | ⟨⟨-, hout⟩, hget⟩)
        · exact absurd heq.symm hpath
        · exact Or.inl ⟨hmem, heq⟩
        · exact Or.inr ⟨hout, hget⟩

theorem get_byPath {entries : List Entry} (h : (entries.map Entry.path).Nodup) {path : Str}
    {entry : Entry} : (byPath entries).get path = some entry ↔
      entry ∈ entries ∧ entry.path = path := by
  rw [byPath, get_declared entries _ h]
  simp

theorem mem_keys_byPath {entries : List Entry} (h : (entries.map Entry.path).Nodup) {path : Str} :
    path ∈ (byPath entries).keys ↔ path ∈ entries.map Entry.path := by
  rw [← get_isSome, Option.isSome_iff_exists, List.mem_map]
  constructor
  · rintro ⟨entry, hget⟩
    exact ⟨entry, (get_byPath h).mp hget⟩
  · rintro ⟨entry, hentry⟩
    exact ⟨entry, (get_byPath h).mpr hentry⟩

theorem foldlM_distinct {items : List Json} {read entries : List Entry}
    (h : items.foldlM appendEntry read = some entries) (hread : (read.map Entry.path).Nodup) :
    (entries.map Entry.path).Nodup := by
  induction items generalizing read with
  | nil => rwa [← Option.some.inj h]
  | cons item items ih =>
    rw [List.foldlM_cons] at h
    obtain ⟨between, hfirst, hrest⟩ := Option.bind_eq_some_iff.mp h
    apply ih hrest
    obtain ⟨entry, hentry, hroom⟩ := Option.bind_eq_some_iff.mp hfirst
    have hnew : entry.path ∉ read.map Entry.path := by
      unfold readEntry at hentry
      simp only [Option.bind_eq_bind, Option.bind_eq_some_iff] at hentry
      obtain ⟨members, -, path, -, digest, -, size, -, hcheck⟩ := hentry
      split at hcheck
      · next hall =>
        rw [← Option.some.inj hcheck]
        exact hall.2.2.2
      · cases hcheck
    split at hroom
    · cases hroom
    · rw [← Option.some.inj hroom, List.map_append, List.map_singleton]
      exact List.nodup_append_comm.mp (List.nodup_cons.mpr ⟨hnew, hread⟩)

theorem loadManifest_distinct {manifest : Manifest} (h : loadManifest fs snapshot = some manifest) :
    (manifest.entries.map Entry.path).Nodup ∧
      fs.get (snapshot ++ [manifestName]) = some (.file manifest.raw) := by
  unfold loadManifest at h
  simp only [Option.bind_eq_bind, Option.bind_eq_some_iff] at h
  obtain ⟨raw, hraw, _, -, parsed, -, _, -, files, -, listed, -, entries, hentries, directories, -,
    _, -, hmanifest⟩ := h
  rw [← Option.some.inj hmanifest]
  refine ⟨foldlM_distinct hentries (by simp), ?_⟩
  unfold fileAt at hraw
  split at hraw
  · next content hget =>
    rw [hget, Option.some.inj hraw]
  · cases hraw

/-- What it takes for a snapshot to be accepted. -/
structure Valid (readDatabase : ReadDatabase) (fs : Files) (snapshot : FilePath)
    (manifest : Manifest) : Prop where
  directory : fs.get snapshot = some .directory
  names : sameSet (fs.names snapshot) [dataName, sandboxName, manifestName]
  loaded : loadManifest fs snapshot = some manifest
  data : Regular fs (snapshot ++ [dataName])
  sandbox : Regular fs (snapshot ++ [sandboxName])
  files : sameSet (byPath manifest.entries).keys
    (((foundIn fs (snapshot ++ [dataName]) (str "data")).files ++
      (foundIn fs (snapshot ++ [sandboxName]) (str "sandbox")).files).map FileEntry.path)
  directories : sameSet manifest.directories
    ((foundIn fs (snapshot ++ [dataName]) (str "data")).directories ++
      (foundIn fs (snapshot ++ [sandboxName]) (str "sandbox")).directories)
  contents : ((foundIn fs (snapshot ++ [dataName]) (str "data")).files ++
    (foundIn fs (snapshot ++ [sandboxName]) (str "sandbox")).files).forM
      (checkFile fs (byPath manifest.entries)) = some ()
  database : validateDatabase readDatabase fs (snapshot ++ [dataName]) = some ()
  marker : validateMarker fs (snapshot ++ [sandboxName]) = some ()

theorem validateSnapshot_iff {valid : Validated} :
    validateSnapshot readDatabase fs snapshot = some valid ↔
      Valid readDatabase fs snapshot valid.manifest ∧
        valid = ⟨valid.manifest, foundIn fs (snapshot ++ [dataName]) (str "data"),
          foundIn fs (snapshot ++ [sandboxName]) (str "sandbox")⟩ := by
  unfold validateSnapshot
  simp only [Option.bind_eq_bind, Option.bind_eq_some_iff, requireDirectory, ensure_eq_some,
    scan_iff, Option.some.injEq]
  constructor
  · rintro ⟨_, hdirectory, _, hnames, _, -, _, -, manifest, hmanifest, _, ⟨hdata, rfl⟩, _,
      ⟨hsandbox, rfl⟩, _, hfiles, _, hdirectories, _, hcontents, _, hdatabase, _, hmarker, rfl⟩
    exact ⟨⟨hdirectory, hnames, hmanifest, hdata, hsandbox, hfiles, hdirectories, hcontents,
      hdatabase, hmarker⟩, rfl⟩
  · rintro ⟨hvalid, hform⟩
    exact ⟨(), hvalid.directory, (), hvalid.names, (), hvalid.data.directory, (),
      hvalid.sandbox.directory, valid.manifest, hvalid.loaded, _, ⟨hvalid.data, rfl⟩, _,
      ⟨hvalid.sandbox, rfl⟩, (), hvalid.files, (), hvalid.directories, (), hvalid.contents, (),
      hvalid.database, (), hvalid.marker, hform.symm⟩

theorem forM_eq_some {α : Type} {f : α → Option Unit} (l : List α) :
    l.forM f = some () ↔ ∀ a ∈ l, f a = some () := by
  induction l with
  | nil => simp only [List.not_mem_nil, false_implies, implies_true, iff_true]; rfl
  | cons a l ih =>
    show (f a >>= fun _ => l.forM f) = some () ↔ _
    rw [Option.bind_eq_bind, Option.bind_eq_some_iff, List.forall_mem_cons, ← ih]
    exact ⟨fun ⟨_, h, h'⟩ => ⟨h, h'⟩, fun ⟨h, h'⟩ => ⟨(), h, h'⟩⟩

theorem checkFile_iff {declared : OrderedDict Str Entry} {root : FilePath} {top : Str}
    {relative : List Name} {content : Bytes}
    (hfile : fs.get (root ++ relative) = some (.file content)) :
    checkFile fs declared (fileEntry root top relative) = some () ↔
      ∃ entry, declared.get (pathUnder top relative) = some entry ∧
        hexdigest content = entry.sha256 ∧ content.length = entry.sizeBytes := by
  have hread : fileAt fs (fileEntry root top relative).source = some content :=
    (contentAt_file hfile).1
  rw [checkFile, hread, Option.bind_eq_bind, Option.bind_some, Option.bind_eq_bind,
    Option.bind_eq_some_iff]
  simp only [ensure_eq_some]
  rfl

/-- The trees of a snapshot by the names they have in it. -/
def Side (name : Name) : Prop := name = dataName ∨ name = sandboxName

theorem Side.top {name : Name} (h : Side name) : Top name.1 := by
  rcases h with rfl | rfl
  · exact Or.inl rfl
  · exact Or.inr rfl

variable {manifest : Manifest}

theorem Valid.regular (h : Valid readDatabase fs snapshot manifest) {name : Name}
    (hside : Side name) : Regular fs (snapshot ++ [name]) := by
  rcases hside with rfl | rfl
  · exact h.data
  · exact h.sandbox

theorem item_found {name : Name} (hside : Side name) {relative : List Name}
    (hmem : relative ∈ filesIn fs (snapshot ++ [name])) :
    fileEntry (snapshot ++ [name]) name.1 relative ∈
      (foundIn fs (snapshot ++ [dataName]) (str "data")).files ++
        (foundIn fs (snapshot ++ [sandboxName]) (str "sandbox")).files := by
  rw [List.mem_append, files_found, files_found]
  rcases hside with rfl | rfl
  · exact Or.inl (List.mem_map_of_mem hmem)
  · exact Or.inr (List.mem_map_of_mem hmem)

theorem found_side {item : FileEntry}
    (h : item ∈ (foundIn fs (snapshot ++ [dataName]) (str "data")).files ++
      (foundIn fs (snapshot ++ [sandboxName]) (str "sandbox")).files) :
    ∃ name relative, Side name ∧ relative ∈ filesIn fs (snapshot ++ [name]) ∧
      item = fileEntry (snapshot ++ [name]) name.1 relative := by
  rw [List.mem_append, files_found, files_found] at h
  rcases h with h | h
  · obtain ⟨relative, hin, rfl⟩ := List.mem_map.mp h
    exact ⟨dataName, relative, Or.inl rfl, hin, rfl⟩
  · obtain ⟨relative, hin, rfl⟩ := List.mem_map.mp h
    exact ⟨sandboxName, relative, Or.inr rfl, hin, rfl⟩

theorem Valid.declared (h : Valid readDatabase fs snapshot manifest) {name : Name}
    (hside : Side name) {relative : List Name}
    (hmem : relative ∈ filesIn fs (snapshot ++ [name])) :
    (byPath manifest.entries).get (pathUnder name.1 relative) =
      some (entryFor fs (snapshot ++ [name]) name.1 relative) := by
  obtain ⟨content, hfile⟩ := (mem_filesIn (h.regular hside)).mp hmem
  have hchecked := (forM_eq_some _).mp h.contents _ (item_found hside hmem)
  obtain ⟨entry, hget, hdigest, hsize⟩ := (checkFile_iff hfile).mp hchecked
  have hpath := ((get_byPath (loadManifest_distinct h.loaded).1).mp hget).2
  obtain ⟨path, digest, size⟩ := entry
  rw [hget, entryFor, (contentAt_file hfile).2, hdigest, hsize, ← hpath]

theorem Valid.declared_file (h : Valid readDatabase fs snapshot manifest) {path : Str}
    (hmem : path ∈ (byPath manifest.entries).keys) :
    ∃ name relative, Side name ∧ relative ∈ filesIn fs (snapshot ++ [name]) ∧
      path = pathUnder name.1 relative := by
  obtain ⟨item, hitem, rfl⟩ := List.mem_map.mp (h.files.1 path hmem)
  obtain ⟨name, relative, hside, hin, rfl⟩ := found_side hitem
  exact ⟨name, relative, hside, hin, rfl⟩

theorem mem_entries_side {entry : Entry} : entry ∈ treeEntries fs (snapshot ++ [dataName])
      (snapshot ++ [sandboxName]) ↔ ∃ name relative, Side name ∧
        relative ∈ filesIn fs (snapshot ++ [name]) ∧
        entry = entryFor fs (snapshot ++ [name]) name.1 relative := by
  rw [mem_treeEntries]
  constructor
  · rintro (⟨relative, hin, rfl⟩ | ⟨relative, hin, rfl⟩)
    · exact ⟨dataName, relative, Or.inl rfl, hin, rfl⟩
    · exact ⟨sandboxName, relative, Or.inr rfl, hin, rfl⟩
  · rintro ⟨name, relative, rfl | rfl, hin, rfl⟩
    · exact Or.inl ⟨relative, hin, rfl⟩
    · exact Or.inr ⟨relative, hin, rfl⟩

theorem Valid.same_entries (h : Valid readDatabase fs snapshot manifest) :
    sameDict (byPath (treeEntries fs (snapshot ++ [dataName]) (snapshot ++ [sandboxName])))
      (byPath manifest.entries) := by
  have hdistinct := distinct_paths h.data h.sandbox
  have hboth : ∀ {name : Name} {relative : List Name}, Side name →
      relative ∈ filesIn fs (snapshot ++ [name]) →
      (byPath (treeEntries fs (snapshot ++ [dataName]) (snapshot ++ [sandboxName]))).get
          (pathUnder name.1 relative) =
        (byPath manifest.entries).get (pathUnder name.1 relative) := by
    intro name relative hside hin
    rw [h.declared hside hin, get_byPath hdistinct]
    exact ⟨mem_entries_side.mpr ⟨name, relative, hside, hin, rfl⟩, rfl⟩
  constructor
  · intro path hpath
    rw [mem_keys_byPath hdistinct, List.mem_map] at hpath
    obtain ⟨entry, hentry, rfl⟩ := hpath
    obtain ⟨name, relative, hside, hin, rfl⟩ := mem_entries_side.mp hentry
    exact hboth hside hin
  · intro path hpath
    obtain ⟨name, relative, hside, hin, rfl⟩ := h.declared_file hpath
    exact hboth hside hin

theorem validateSnapshot_valid (h : Valid readDatabase fs snapshot manifest) :
    validateSnapshot readDatabase fs snapshot =
      some ⟨manifest, foundIn fs (snapshot ++ [dataName]) (str "data"),
        foundIn fs (snapshot ++ [sandboxName]) (str "sandbox")⟩ :=
  validateSnapshot_iff.mpr ⟨h, rfl⟩

/-! ## Restoring -/

theorem treeEntries_congr {data' sandbox' : FilePath} (h : fs.tree data = fs'.tree data')
    (h' : fs.tree sandbox = fs'.tree sandbox') :
    treeEntries fs data sandbox = treeEntries fs' data' sandbox' := by
  rw [treeEntries, treeEntries, entriesIn_congr h, entriesIn_congr h']

theorem treeDirectories_congr {data' sandbox' : FilePath} (h : fs.tree data = fs'.tree data')
    (h' : fs.tree sandbox = fs'.tree sandbox') :
    treeDirectories fs data sandbox = treeDirectories fs' data' sandbox' := by
  rw [treeDirectories, treeDirectories, directories_congr h, directories_congr h']

theorem under_added (hadd : fs.add target .directory = some fs') : Under target fs fs' := by
  intro q hq
  rw [get_add hadd, if_neg]
  rintro rfl
  exact hq (List.prefix_refl _)

theorem outside_child {name : Name} (h : ¬ snapshot <+: target ∧ ¬ target <+: snapshot) :
    ¬ snapshot ++ [name] <+: target ∧ ¬ target <+: snapshot ++ [name] := by
  constructor
  · intro hbelow
    exact h.1 ((List.prefix_append snapshot [name]).trans hbelow)
  · intro hbelow
    rcases List.prefix_concat_iff.mp hbelow with heq | hbelow
    · exact h.1 (by rw [heq]; exact List.prefix_append _ _)
    · exact h.2 hbelow

theorem guarded_some {α : Type} {body : Run Files α} {a : α} (h : body fs = (some a, fs')) :
    guarded target body fs = (some a, fs') := by
  rw [guarded, h]

theorem copied_to_free {between : Files} (raw : Bytes) (hdata : Regular fs data)
    (hsandbox : Regular fs sandbox) (hfree : Free fs [data, sandbox] target)
    (hadd : fs.add target .directory = some between)
    (hdatabase : validateDatabase readDatabase fs data = some ())
    (hmarker : validateMarker fs sandbox = some ()) :
    ∃ copied fs', copyTrees (foundIn fs data (str "data")) (foundIn fs sandbox (str "sandbox"))
        target between = (some (treeEntries fs data sandbox), copied) ∧
      finishSnapshot readDatabase target (some raw) copied = (some target, fs') ∧
      Finished fs fs' data sandbox target raw := by
  have hout := hfree.outside data (by simp)
  have hout' := hfree.outside sandbox (by simp)
  have hdataTree := tree_under (under_added hadd) hout.1 hout.2
  have hsandboxTree := tree_under (under_added hadd) hout'.1 hout'.2
  have hdataNow := hdata.congr hdataTree.symm
  have hsandboxNow := hsandbox.congr hsandboxTree.symm
  obtain ⟨copied, hcopy, hcopied⟩ := copyTrees_spec hdataNow hsandboxNow
    (empty_added hfree.absent hadd) hout hout'
  obtain ⟨fs', hfinish, hfinished⟩ := finished_copy raw hdataNow hsandboxNow hcopied
    ((validateDatabase_congr hdataTree).trans hdatabase)
    ((validateMarker_congr hsandboxTree).trans hmarker)
  refine ⟨copied, fs', ?_, hfinish, ?_⟩
  · rw [foundIn_congr hdataTree.symm, foundIn_congr hsandboxTree.symm,
      treeEntries_congr hdataTree.symm hsandboxTree.symm]
    exact hcopy
  · exact ⟨hfinished.directory, hfinished.data.trans hdataTree,
      hfinished.sandbox.trans hsandboxTree, hfinished.manifest, hfinished.names,
      under_trans (under_added hadd) hfinished.under⟩

theorem restore_valid (h : Valid readDatabase fs snapshot manifest)
    (hfree : Free fs [snapshot] target) :
    ∃ fs', restoreSnapshot readDatabase snapshot target fs = (some target, fs') ∧
      Finished fs fs' (snapshot ++ [dataName]) (snapshot ++ [sandboxName]) target manifest.raw := by
  obtain ⟨between, hadd, hnew⟩ := newDestination_free hfree
  have hout := hfree.outside snapshot (by simp)
  have hinner : Free fs [snapshot ++ [dataName], snapshot ++ [sandboxName]] target := by
    refine ⟨hfree.absent, hfree.parent, ?_⟩
    intro source hsource
    simp only [List.mem_cons, List.not_mem_nil, or_false] at hsource
    rcases hsource with rfl | rfl
    · exact outside_child hout
    · exact outside_child hout
  obtain ⟨copied, fs', hcopy, hfinish, hfinished⟩ :=
    copied_to_free manifest.raw h.data h.sandbox hinner hadd h.database h.marker
  have hvalidate := validateSnapshot_valid h
  have hsame : check (sameDict (byPath (treeEntries fs (snapshot ++ [dataName])
      (snapshot ++ [sandboxName]))) (byPath manifest.entries)) copied = (some (), copied) := by
    rw [check, reads, ensure_of h.same_entries]
  refine ⟨fs', ?_, hfinished⟩
  rw [restoreSnapshot, bind_some (show reads _ fs = (some (), fs) by
      rw [reads, requireDirectory, ensure_of h.directory]),
    bind_some (show reads _ fs = (some _, fs) by rw [reads, hvalidate]), bind_some hnew]
  apply guarded_some
  rw [bind_some hcopy, bind_some hsame]
  exact hfinish

theorem restore_some {restored : FilePath}
    (h : restoreSnapshot readDatabase snapshot target fs = (some restored, fs')) :
    ∃ manifest, Valid readDatabase fs snapshot manifest := by
  obtain ⟨_, first, hfirst, h⟩ := bind_eq_some h
  have hsame : first = fs := (Prod.mk.inj hfirst).2.symm
  rw [hsame] at h
  obtain ⟨valid, second, hsecond, -⟩ := bind_eq_some h
  exact ⟨valid.manifest, (validateSnapshot_iff.mp (Prod.mk.inj hsecond).1).1⟩

/-- A refused or failed restore leaves everything as it was. -/
theorem restore_none (h : restoreSnapshot readDatabase snapshot target fs = (none, fs')) :
    ∀ q, fs'.get q = fs.get q := by
  have hlook : ∀ {α γ : Type} {look : Files → Option α} {next : α → Run Files γ},
      (reads look >>= next) fs = (none, fs') →
      (∀ a, next a fs = (none, fs') → ∀ q, fs'.get q = fs.get q) → ∀ q, fs'.get q = fs.get q := by
    intro α γ look next hrun hnext
    rw [run_bind] at hrun
    cases hlook : look fs with
    | none =>
      rw [reads, hlook] at hrun
      intro q
      rw [(Prod.mk.inj hrun).2]
    | some a =>
      rw [reads, hlook] at hrun
      exact hnext a hrun
  apply hlook h
  intro _ h
  apply hlook h
  intro valid h
  rcases newDestination_cases fs target [snapshot] with hnone | hfree
  · rw [bind_none hnone] at h
    intro q
    rw [(Prod.mk.inj h).2]
  · obtain ⟨between, hadd, hnew⟩ := newDestination_free hfree
    rw [bind_some hnew] at h
    apply guarded_failure _ hadd h
    apply (confined_copyTrees _ _ _).bind
    intro copied
    apply (confined_reads _ _).bind
    intro _
    exact confined_finishSnapshot _ _ _

/-! ## Creating -/

theorem get_openLock (h : openLock data fs = some fs') (q : FilePath) :
    fs'.get q = if q = data ++ [lockName] ∧ fs.get q = none then some (.file []) else fs.get q := by
  unfold openLock at h
  cases hget : fs.get (data ++ [lockName]) with
  | none =>
    simp only [hget] at h
    rw [get_add h]
    by_cases hq : q = data ++ [lockName]
    · rw [if_pos hq, if_pos ⟨hq, by rw [hq, hget]⟩]
    · rw [if_neg hq, if_neg fun hand => hq hand.1]
  | some node =>
    rw [hget] at h
    cases node with
    | file content =>
      rw [← Option.some.inj h, if_neg]
      rintro ⟨rfl, hnone⟩
      rw [hget] at hnone
      cases hnone
    | directory => cases h
    | other reached => cases h

theorem directory_before_lock {path : FilePath} (h : openLock data fs = some fs')
    (hdirectory : fs'.get path = some .directory) : fs.get path = some .directory := by
  rw [get_openLock h] at hdirectory
  split at hdirectory
  · cases hdirectory
  · exact hdirectory

/-- What creation asks of the trees, with the lock file in place. -/
structure Admitted (readDatabase : ReadDatabase) (fs : Files) (data sandbox : FilePath)
    (raw : Bytes) : Prop where
  separate : ¬ data <+: sandbox ∧ ¬ sandbox <+: data
  regular_data : Regular fs data
  regular_sandbox : Regular fs sandbox
  small : (listing fs data).length + 1 + ((listing fs sandbox).length + 1) ≤ maxNodes
  sized : Sized fs data ∧ Sized fs sandbox
  database : validateDatabase readDatabase fs data = some ()
  marker : validateMarker fs sandbox = some ()
  manifest : manifestBytes (treeEntries fs data sandbox) (treeDirectories fs data sandbox) =
    some raw

theorem create_ready {locked : Files} {raw : Bytes} (hlock : openLock data fs = some locked)
    (h : Admitted readDatabase locked data sandbox raw)
    (hfree : Free locked [data, sandbox] target) :
    ∃ fs', createSnapshot readDatabase data sandbox target fs = (some target, fs') ∧
      Finished locked fs' data sandbox target raw := by
  obtain ⟨between, hadd, hnew⟩ := newDestination_free hfree
  obtain ⟨copied, fs', hcopy, hfinish, hfinished⟩ :=
    copied_to_free raw h.regular_data h.regular_sandbox hfree hadd h.database h.marker
  have hroom : (foundIn locked data (str "data")).files.length +
      (foundIn locked data (str "data")).directories.length +
      (foundIn locked sandbox (str "sandbox")).files.length +
      (foundIn locked sandbox (str "sandbox")).directories.length ≤ maxNodes := by
    have hfirst := size_found (str "data") h.regular_data
    have hsecond := size_found (str "sandbox") h.regular_sandbox
    rw [entriesIn, List.length_map] at hfirst hsecond
    rw [files_found, files_found, List.length_map, List.length_map]
    have hsmall := h.small
    omega
  have hdata := directory_before_lock hlock h.regular_data.directory
  have hsandbox := directory_before_lock hlock h.regular_sandbox.directory
  refine ⟨fs', ?_, hfinished⟩
  rw [createSnapshot,
    bind_some (show reads _ fs = (some (), fs) by rw [reads, requireDirectory, ensure_of hdata]),
    bind_some (show reads _ fs = (some (), fs) by rw [reads, requireDirectory, ensure_of hsandbox]),
    bind_some (show check _ fs = (some (), fs) by rw [check, reads, ensure_of h.separate]),
    bind_some (changes_some hlock),
    bind_some (show reads _ locked = (some (), locked) by rw [reads, h.database]),
    bind_some (show reads _ locked = (some (), locked) by rw [reads, h.marker]),
    bind_some (show reads _ locked = (some _, locked) by
      rw [reads, scan_iff.mpr ⟨h.regular_data, rfl⟩]),
    bind_some (show reads _ locked = (some _, locked) by
      rw [reads, scan_iff.mpr ⟨h.regular_sandbox, rfl⟩]),
    bind_some (show check _ locked = (some (), locked) by rw [check, reads, ensure_of hroom]),
    bind_some hnew]
  apply guarded_some
  rw [bind_some hcopy]
  show finishSnapshot readDatabase target (manifestBytes (treeEntries locked data sandbox)
    (treeDirectories locked data sandbox)) copied = _
  rw [h.manifest]
  exact hfinish

theorem created_valid {locked : Files} {raw : Bytes}
    (h : Admitted readDatabase locked data sandbox raw)
    (hfinished : Finished locked fs' data sandbox target raw) :
    Valid readDatabase fs' target
      ⟨raw, treeEntries locked data sandbox, treeDirectories locked data sandbox⟩ := by
  have hwritable := writable_trees h.regular_data h.regular_sandbox h.sized.1 h.sized.2 h.small
  have hdata := h.regular_data.congr hfinished.data.symm
  have hsandbox := h.regular_sandbox.congr hfinished.sandbox.symm
  have hentries : treeEntries locked data sandbox =
      treeEntries fs' (target ++ [dataName]) (target ++ [sandboxName]) :=
    treeEntries_congr hfinished.data.symm hfinished.sandbox.symm
  have hdirectories : treeDirectories locked data sandbox =
      treeDirectories fs' (target ++ [dataName]) (target ++ [sandboxName]) :=
    treeDirectories_congr hfinished.data.symm hfinished.sandbox.symm
  have hdistinct := hwritable.distinct
  have hloaded := loadManifest_written hwritable h.manifest hfinished.manifest
  rw [hentries, hdirectories] at hloaded ⊢
  rw [hentries] at hdistinct
  have hdeclared : ∀ {name : Name} {relative : List Name}, Side name →
      relative ∈ filesIn fs' (target ++ [name]) →
      (byPath (treeEntries fs' (target ++ [dataName]) (target ++ [sandboxName]))).get
        (pathUnder name.1 relative) = some (entryFor fs' (target ++ [name]) name.1 relative) := by
    intro name relative hside hin
    rw [get_byPath hdistinct]
    exact ⟨mem_entries_side.mpr ⟨name, relative, hside, hin, rfl⟩, rfl⟩
  constructor
  · exact hfinished.directory
  · exact hfinished.names
  · exact hloaded
  · exact hdata
  · exact hsandbox
  · constructor
    · intro path hpath
      rw [mem_keys_byPath hdistinct, List.mem_map] at hpath
      obtain ⟨entry, hentry, rfl⟩ := hpath
      obtain ⟨name, relative, hside, hin, rfl⟩ := mem_entries_side.mp hentry
      exact List.mem_map.mpr ⟨_, item_found hside hin, rfl⟩
    · intro path hpath
      obtain ⟨item, hitem, rfl⟩ := List.mem_map.mp hpath
      obtain ⟨name, relative, hside, hin, rfl⟩ := found_side hitem
      rw [← get_isSome, fileEntry, hdeclared hside hin]
      rfl
  · constructor
    · intro directory hmem
      rwa [treeDirectories, List.mem_insertionSort] at hmem
    · intro directory hmem
      rwa [treeDirectories, List.mem_insertionSort]
  · rw [forM_eq_some]
    intro item hitem
    obtain ⟨name, relative, hside, hin, rfl⟩ := found_side hitem
    have hregular : Regular fs' (target ++ [name]) := by
      rcases hside with rfl | rfl
      · exact hdata
      · exact hsandbox
    obtain ⟨content, hfile⟩ := (mem_filesIn hregular).mp hin
    refine (checkFile_iff hfile).mpr ⟨_, hdeclared hside hin, ?_⟩
    rw [entryFor, (contentAt_file hfile).2]
    exact ⟨rfl, rfl⟩
  · exact (validateDatabase_congr hfinished.data).trans h.database
  · exact (validateMarker_congr hfinished.sandbox).trans h.marker

/-- A refused or failed creation leaves nothing but the lock file. -/
theorem create_none (h : createSnapshot readDatabase data sandbox target fs = (none, fs')) :
    (∀ q, fs'.get q = fs.get q) ∨
      ∃ locked, openLock data fs = some locked ∧ ∀ q, fs'.get q = locked.get q := by
  have hlook : ∀ {α γ : Type} {look : Files → Option α} {next : α → Run Files γ} {start : Files}
      {P : Prop}, (reads look >>= next) start = (none, fs') → (fs' = start → P) →
      (∀ a, next a start = (none, fs') → P) → P := by
    intro α γ look next start P hrun hself hnext
    rw [run_bind] at hrun
    cases hlook : look start with
    | none =>
      rw [reads, hlook] at hrun
      exact hself (Prod.mk.inj hrun).2.symm
    | some a =>
      rw [reads, hlook] at hrun
      exact hnext a hrun
  have hstart : fs' = fs → (∀ q, fs'.get q = fs.get q) ∨
      ∃ locked, openLock data fs = some locked ∧ ∀ q, fs'.get q = locked.get q := by
    rintro rfl
    exact Or.inl fun q => rfl
  apply hlook h hstart
  intro _ h
  apply hlook h hstart
  intro _ h
  apply hlook h hstart
  intro _ h
  cases hlock : openLock data fs with
  | none =>
    rw [bind_none (show changes _ fs = (none, fs) by rw [changes, hlock])] at h
    left
    intro q
    rw [(Prod.mk.inj h).2]
  | some locked =>
    rw [bind_some (changes_some hlock)] at h
    right
    refine ⟨locked, rfl, ?_⟩
    have hlocked : fs' = locked → ∀ q, fs'.get q = locked.get q := by
      rintro rfl q
      rfl
    apply hlook h hlocked
    intro _ h
    apply hlook h hlocked
    intro _ h
    apply hlook h hlocked
    intro dataFound h
    apply hlook h hlocked
    intro sandboxFound h
    apply hlook h hlocked
    intro _ h
    rcases newDestination_cases locked target [data, sandbox] with hnone | hfree
    · rw [bind_none hnone] at h
      exact hlocked (Prod.mk.inj h).2.symm
    · obtain ⟨between, hadd, hnew⟩ := newDestination_free hfree
      rw [bind_some hnew] at h
      apply guarded_failure _ hadd h
      apply (confined_copyTrees _ _ _).bind
      intro entries
      exact confined_finishSnapshot _ _ _

end SnapshotRuns
