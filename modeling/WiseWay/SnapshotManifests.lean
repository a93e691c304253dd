import WiseWay.JsonRoundTrips
import WiseWay.SnapshotCopies

/-! # Manifests are read back

Every manifest that is written for a pair of trees is accepted by the reader, which returns the
entries and directories it was written from. -/
namespace SnapshotManifests

open TextCodecs JsonTexts JsonRoundTrips PosixPaths FileStores Sha256 Snapshots SnapshotScans
  SnapshotCopies

variable {fs fs' : Files} {data sandbox snapshot : FilePath} {top : Str}

/-! ## Paths -/

/-- The two trees of a snapshot by the names they have in it. -/
def Top (top : Str) : Prop := top = str "data" ∨ top = str "sandbox"

theorem Top.valid (h : Top top) : ValidName top := by
  rcases h with rfl | rfl
  · exact dataName.2
  · exact sandboxName.2

/-- A path of a snapshot's manifest: that of a tree or of a node below it. -/
def treePath (top : Str) (relative : List Name) : Str :=
  joinNames (top :: relative.map Subtype.val)

theorem treePath_nil (top : Str) : treePath top [] = top := joinNames_one top

theorem treePath_eq {relative : List Name} (hne : relative ≠ []) :
    pathUnder top relative = treePath top relative := pathUnder_eq hne

theorem treePath_injective {top' : Str} (h : Top top) (h' : Top top')
    {relative relative' : List Name} (heq : treePath top relative = treePath top' relative') :
    top = top' ∧ relative = relative' := by
  have hnames := joinNames_injective (valid_joined h.valid relative)
    (valid_joined h'.valid relative') (List.cons_ne_nil _ _) (List.cons_ne_nil _ _) heq
  obtain ⟨htop, hrest⟩ := List.cons_eq_cons.mp hnames
  exact ⟨htop, List.map_injective_iff.mpr Subtype.val_injective hrest⟩

theorem parse_treePath (h : Top top) (relative : List Name) :
    parsePath (treePath top relative) = ⟨[], top :: relative.map Subtype.val⟩ :=
  parsePath_joinNames (valid_joined h.valid relative) (List.cons_ne_nil _ _)

theorem treePath_not_top (h : Top top) {top' : Str} (h' : Top top') {relative : List Name}
    (hne : relative ≠ []) : treePath top relative ≠ top' := by
  intro heq
  rw [← treePath_nil top'] at heq
  exact hne (treePath_injective h h' heq).2

theorem treePath_under (top : Str) {relative : List Name} (hne : relative ≠ []) :
    top ++ [slash] <+: treePath top relative := by
  obtain ⟨name, rest, rfl⟩ := List.exists_cons_of_ne_nil hne
  rw [treePath, List.map_cons, joinNames_cons]
  exact ⟨joinNames (name.1 :: rest.map Subtype.val), by simp⟩

theorem valid_treePath (h : Top top) {relative : List Name} (hne : relative ≠ [])
    (allowRoot : Bool) : validManifestPath (treePath top relative) allowRoot := by
  have hroot : ¬ (treePath top relative = str "data" ∨ treePath top relative = str "sandbox") := by
    rintro (heq | heq)
    · exact treePath_not_top h (Or.inl rfl) hne heq
    · exact treePath_not_top h (Or.inr rfl) hne heq
  have hposix : (parsePath (treePath top relative)).asPosix = treePath top relative := by
    rw [parse_treePath h, asPosix_joinNames (List.cons_ne_nil _ _)]
    rfl
  refine ⟨?_, ?_, hposix, ?_⟩
  · rw [parse_treePath h]
    simp [PurePath.isAbsolute]
  · rw [parse_treePath h, PurePath.parts, if_pos rfl]
    intro hmem
    exact (valid_joined h.valid relative _ hmem).parent rfl
  · rw [if_neg hroot, parse_treePath h, PurePath.parts, if_pos rfl]
    have hunder := treePath_under top hne
    refine ⟨?_, ?_⟩
    · obtain ⟨name, rest, rfl⟩ := List.exists_cons_of_ne_nil hne
      simp
    · rcases h with rfl | rfl
      · exact Or.inl hunder
      · exact Or.inr hunder

theorem valid_top (h : Top top) : validManifestPath top true := by
  rcases h with rfl | rfl
  · decide
  · decide

theorem plain_name {name : Str} (h : ValidName name) : PlainText name := by
  intro c hc
  obtain ⟨-, -, hlow, hsurrogate⟩ := h.points c hc
  refine ⟨hlow, ?_⟩
  intro hhigh
  have hrange := hsurrogate (Or.inl hhigh)
  have hbelow : c < 0xDC00 := hhigh.2
  omega

theorem plain_joinNames {names : List Str} (h : ∀ name ∈ names, ValidName name) :
    PlainText (joinNames names) := by
  induction names with
  | nil => intro c hc; cases hc
  | cons name names ih =>
    have hfirst := plain_name (h name List.mem_cons_self)
    cases names with
    | nil =>
      rw [joinNames_one]
      exact hfirst
    | cons next rest =>
      have hrest := ih fun n hn => h n (List.mem_cons_of_mem _ hn)
      rw [joinNames_cons]
      intro c hc
      rcases List.mem_append.mp hc with hc | hc
      · exact hfirst c hc
      · rcases List.mem_cons.mp hc with rfl | hc
        · exact ⟨by decide, by decide⟩
        · exact hrest c hc

theorem plain_treePath (h : Top top) (relative : List Name) : PlainText (treePath top relative) :=
  plain_joinNames (valid_joined h.valid relative)

/-! ## Entries and directories of a manifest -/

structure Written (entry : Entry) : Prop where
  path : ∃ top relative, Top top ∧ relative ≠ [] ∧ entry.path = treePath top relative
  digest : entry.sha256.length = 64 ∧ ∀ c ∈ entry.sha256, HexDigit c
  size : entry.sizeBytes < 2 ^ 63

theorem size_writable {n : ℕ} (h : n < 2 ^ 63) : n < 10 ^ maxDigits := by
  have hsmall : (2 : ℕ) ^ 63 ≤ 10 ^ 19 := by decide
  have hpow : (10 : ℕ) ^ 19 ≤ 10 ^ maxDigits := Nat.pow_le_pow_right (by decide) (by decide)
  omega

theorem plain_digest {digest : Str} (h : ∀ c ∈ digest, HexDigit c) : PlainText digest := by
  intro c hc
  have hall : ∀ d ∈ str "0123456789abcdef", PlainPoint d := by
    unfold PlainPoint
    decide
  exact hall c (h c hc)

theorem encodable_entry {entry : Entry} (h : Written entry) : Encodable (entryJson entry) := by
  obtain ⟨top, relative, htop, -, hpath⟩ := h.path
  apply Encodable.obj
  · have hkeys : ∀ key ∈ [str "path", str "sha256", str "size_bytes"], PlainText key := by
      unfold PlainText PlainPoint
      decide
    intro m hm
    exact hkeys m.1 (List.mem_map_of_mem hm)
  · intro m hm
    simp only [List.mem_cons, List.not_mem_nil, or_false] at hm
    rcases hm with rfl | rfl | rfl
    · apply Encodable.str
      rw [hpath]
      exact plain_treePath htop relative
    · exact Encodable.str (plain_digest h.digest.2)
    · exact Encodable.int (size_writable h.size)

def WrittenDirectory (directory : Str) : Prop :=
  ∃ top relative, Top top ∧ directory = treePath top relative

theorem WrittenDirectory.valid {directory : Str} (h : WrittenDirectory directory) :
    validManifestPath directory true := by
  obtain ⟨top, relative, htop, rfl⟩ := h
  by_cases hne : relative = []
  · rw [hne, treePath_nil]
    exact valid_top htop
  · exact valid_treePath htop hne true

theorem encodable_manifest {entries : List Entry} {directories : List Str}
    (hentries : ∀ entry ∈ entries, Written entry)
    (hdirectories : ∀ directory ∈ directories, WrittenDirectory directory) :
    Encodable (manifestJson entries directories) := by
  apply Encodable.obj
  · have hkeys : ∀ key ∈ [str "format", str "directories", str "files"], PlainText key := by
      unfold PlainText PlainPoint
      decide
    intro m hm
    exact hkeys m.1 (List.mem_map_of_mem hm)
  · intro m hm
    simp only [List.mem_cons, List.not_mem_nil, or_false] at hm
    rcases hm with rfl | rfl | rfl
    · apply Encodable.str
      unfold PlainText PlainPoint
      decide
    · apply Encodable.arr
      intro item hitem
      obtain ⟨directory, hmem, rfl⟩ := List.mem_map.mp hitem
      obtain ⟨top, relative, htop, rfl⟩ := hdirectories directory hmem
      exact Encodable.str (plain_treePath htop relative)
    · apply Encodable.arr
      intro item hitem
      obtain ⟨entry, hmem, rfl⟩ := List.mem_map.mp hitem
      exact encodable_entry (hentries entry hmem)

/-! ## Reading a written manifest -/

theorem sorted_members {a b c : Str} {x y z : Json} (hab : a ≤ b) (hbc : b ≤ c) :
    [(a, x), (b, y), (c, z)].insertionSort keyLe = [(a, x), (b, y), (c, z)] := by
  simp [List.insertionSort_cons, keyLe, hab, hbc]

theorem sortKeys_entry (entry : Entry) : sortKeys (entryJson entry) = entryJson entry := by
  have hsorted := sorted_members (x := .str entry.path) (y := .str entry.sha256)
    (z := .int entry.sizeBytes) (by decide : str "path" ≤ str "sha256")
    (by decide : str "sha256" ≤ str "size_bytes")
  rw [entryJson, sortKeys_obj, hsorted]
  rfl

/-- The members of a manifest as they are written. -/
def writtenMembers (entries : List Entry) (directories : List Str) : Members :=
  [(str "directories", .arr (directories.map Json.str)),
    (str "files", .arr (entries.map entryJson)), (str "format", .str format)]

theorem sortKeys_manifest (entries : List Entry) (directories : List Str) :
    sortKeys (manifestJson entries directories) = .obj (writtenMembers entries directories) := by
  have hfirst : str "directories" ≤ str "files" := by decide
  have hsecond : str "files" ≤ str "format" := by decide
  have hthird : ¬ str "format" ≤ str "directories" := by decide
  have hfourth : ¬ str "format" ≤ str "files" := by decide
  have hsorted : ∀ x y z : Json, [(str "format", x), (str "directories", y),
      (str "files", z)].insertionSort keyLe =
        [(str "directories", y), (str "files", z), (str "format", x)] := by
    intro x y z
    simp [List.insertionSort_cons, List.orderedInsert, keyLe, hfirst, hthird, hfourth]
  have hdirectories : sortItems (directories.map Json.str) = directories.map Json.str := by
    rw [sortItems_eq, List.map_map]
    rfl
  have hentries : sortItems (entries.map entryJson) = entries.map entryJson := by
    rw [sortItems_eq, List.map_map]
    exact List.map_congr_left fun entry _ => sortKeys_entry entry
  rw [manifestJson, sortKeys_obj, hsorted]
  simp only [List.map_cons, List.map_nil, sortKeys, hdirectories, hentries]
  rfl

theorem readEntry_written {entry : Entry} (h : Written entry) {seen : List Str}
    (hnew : entry.path ∉ seen) : readEntry seen (entryJson entry) = some entry := by
  obtain ⟨top, relative, htop, hne, hpath⟩ := h.path
  have hvalid : validManifestPath entry.path false := by
    rw [hpath]
    exact valid_treePath htop hne false
  have hsize : sizeField (some (.int entry.sizeBytes)) = some entry.sizeBytes := by
    rw [sizeField, if_neg (by omega)]
    rfl
  have hall : validManifestPath entry.path false ∧ entry.sha256.length = 64 ∧
      (∀ c ∈ entry.sha256, HexDigit c) ∧ entry.path ∉ seen :=
    ⟨hvalid, h.digest.1, h.digest.2, hnew⟩
  show (sizeField (some (.int entry.sizeBytes)) >>= fun size => _) = _
  rw [hsize]
  exact if_pos hall

theorem foldlM_appendEntry (entries read : List Entry) (h : ∀ entry ∈ entries, Written entry)
    (hnodup : ((read ++ entries).map Entry.path).Nodup)
    (hcount : (read ++ entries).length ≤ maxFiles) :
    (entries.map entryJson).foldlM appendEntry read = some (read ++ entries) := by
  induction entries generalizing read with
  | nil => rw [List.append_nil]; rfl
  | cons entry entries ih =>
    have hsplit : read ++ entry :: entries = (read ++ [entry]) ++ entries := by simp
    have hnew : entry.path ∉ read.map Entry.path := by
      rw [List.map_append, List.map_cons] at hnodup
      intro hmem
      exact (List.nodup_append.mp hnodup).2.2 _ hmem _ List.mem_cons_self rfl
    have hroom : ¬ maxFiles < read.length + 1 := by
      rw [List.length_append, List.length_cons] at hcount
      omega
    have hfirst : appendEntry read (entryJson entry) = some (read ++ [entry]) := by
      rw [appendEntry, readEntry_written (h entry List.mem_cons_self) hnew]
      exact if_neg hroom
    rw [hsplit] at hnodup hcount ⊢
    rw [List.map_cons, List.foldlM_cons, hfirst]
    exact ih (read ++ [entry]) (fun e he => h e (List.mem_cons_of_mem _ he)) hnodup hcount

theorem foldlM_appendDirectory {files : List Str} (directories read : List Str)
    (h : ∀ directory ∈ directories, WrittenDirectory directory ∧ directory ∉ files)
    (hnodup : (read ++ directories).Nodup) :
    (directories.map Json.str).foldlM (appendDirectory files) read = some (read ++ directories)
    := by
  induction directories generalizing read with
  | nil => rw [List.append_nil]; rfl
  | cons directory directories ih =>
    obtain ⟨hwritten, hfile⟩ := h directory List.mem_cons_self
    have hsplit : read ++ directory :: directories = (read ++ [directory]) ++ directories := by simp
    have hnew : directory ∉ read := by
      intro hmem
      exact (List.nodup_append.mp hnodup).2.2 _ hmem _ List.mem_cons_self rfl
    have hfirst : appendDirectory files read (.str directory) = some (read ++ [directory]) :=
      if_pos ⟨hwritten.valid, hfile, hnew⟩
    rw [hsplit] at hnodup ⊢
    rw [List.map_cons, List.foldlM_cons, hfirst]
    exact ih (read ++ [directory]) (fun d hd => h d (List.mem_cons_of_mem _ hd)) hnodup

/-- A manifest as it is written: its entries and directories are distinct paths of the two trees,
both of which are there. -/
structure Writable (entries : List Entry) (directories : List Str) : Prop where
  written : ∀ entry ∈ entries, Written entry
  distinct : (entries.map Entry.path).Nodup
  listed : ∀ directory ∈ directories, WrittenDirectory directory
  listed_distinct : directories.Nodup
  apart : ∀ directory ∈ directories, directory ∉ entries.map Entry.path
  roots : str "data" ∈ directories ∧ str "sandbox" ∈ directories
  small : entries.length + directories.length ≤ maxNodes

theorem loadManifest_written {entries : List Entry} {directories : List Str} {raw : Bytes}
    (h : Writable entries directories) (hraw : manifestBytes entries directories = some raw)
    (hfile : fs.get (snapshot ++ [manifestName]) = some (.file raw)) :
    loadManifest fs snapshot = some ⟨raw, entries, directories⟩ := by
  obtain ⟨hsize, hbytes⟩ : raw.length ≤ maxManifestBytes ∧
      raw = ascii (encode (manifestJson entries directories)) := by
    rw [manifestBytes] at hraw
    by_cases hfull : maxManifestBytes < (ascii (encode (manifestJson entries directories))).length
    · rw [if_pos hfull] at hraw
      cases hraw
    · rw [if_neg hfull] at hraw
      rw [← Option.some.inj hraw]
      exact ⟨Nat.le_of_not_lt hfull, rfl⟩
  have hloads : loads raw = some (.obj (writtenMembers entries directories)) := by
    rw [hbytes, loads_encode (encodable_manifest h.written h.listed), sortKeys_manifest]
  have hentries : (entries.map entryJson).foldlM appendEntry [] = some entries := by
    have hsmall := h.small
    exact foldlM_appendEntry entries [] h.written h.distinct (by
      unfold maxNodes at hsmall
      unfold maxFiles
      rw [List.nil_append]
      omega)
  have hdirectories : (directories.map Json.str).foldlM
      (appendDirectory (entries.map Entry.path)) [] = some directories :=
    foldlM_appendDirectory directories [] (fun d hd => ⟨h.listed d hd, h.apart d hd⟩)
      h.listed_distinct
  have hformat : Json.get (writtenMembers entries directories) (str "format") =
      some (.str format) := rfl
  have hfiles : Json.get (writtenMembers entries directories) (str "files") =
      some (.arr (entries.map entryJson)) := rfl
  have hlisted : Json.get (writtenMembers entries directories) (str "directories") =
      some (.arr (directories.map Json.str)) := rfl
  rw [loadManifest, (contentAt_file hfile).1, Option.bind_eq_bind, Option.bind_some,
    ensure_of hsize, Option.bind_eq_bind, Option.bind_some, hloads]
  simp only [objectOf, strOf, itemsOf, hformat, hfiles, hlisted, hentries, hdirectories,
    ensure_of trivial, ensure_of (And.intro h.small h.roots), Option.bind_eq_bind,
    Option.bind_some]

/-! ## The manifest of two trees -/

/-- The entries of the data and sandbox trees, as a manifest lists them. -/
def treeEntries (fs : Files) (data sandbox : FilePath) : List Entry :=
  (entriesIn fs data (str "data") ++ entriesIn fs sandbox (str "sandbox")).insertionSort entryLe

def treeDirectories (fs : Files) (data sandbox : FilePath) : List Str :=
  ((foundIn fs data (str "data")).directories ++
    (foundIn fs sandbox (str "sandbox")).directories).insertionSort (· ≤ ·)

theorem files_paths (h : Regular fs data) (top : Str) :
    (filesIn fs data).map (pathUnder top) = (filesIn fs data).map (treePath top) := by
  apply List.map_congr_left
  intro relative hmem
  obtain ⟨content, hfile⟩ := (mem_filesIn h).mp hmem
  apply treePath_eq
  rintro rfl
  rw [List.append_nil, h.directory] at hfile
  cases hfile

theorem entries_paths (h : Regular fs data) (top : Str) :
    (entriesIn fs data top).map Entry.path = (filesIn fs data).map (treePath top) := by
  rw [entriesIn, List.map_map, ← files_paths h]
  rfl

theorem directories_paths (h : Regular fs data) (top : Str) :
    (foundIn fs data top).directories = ([] :: directoriesIn fs data).map (treePath top) := by
  rw [directories_found, List.map_cons, treePath_nil]
  congr 1
  apply List.map_congr_left
  intro relative hmem
  exact treePath_eq ((mem_directoriesIn h).mp hmem).1

theorem nodup_paths {relatives relatives' : List (List Name)} (h : relatives.Nodup)
    (h' : relatives'.Nodup) :
    (relatives.map (treePath (str "data")) ++ relatives'.map (treePath (str "sandbox"))).Nodup := by
  have hinjective : ∀ {top}, Top top → Function.Injective (treePath top) :=
    fun htop _ _ heq => (treePath_injective htop htop heq).2
  rw [List.nodup_append]
  refine ⟨h.map (hinjective (Or.inl rfl)), h'.map (hinjective (Or.inr rfl)), ?_⟩
  intro a ha b hb heq
  obtain ⟨relative, -, rfl⟩ := List.mem_map.mp ha
  obtain ⟨relative', -, rfl⟩ := List.mem_map.mp hb
  have htops := (treePath_injective (Or.inl rfl) (Or.inr rfl) heq).1
  exact absurd htops (by decide)

theorem mem_treeEntries {entry : Entry} : entry ∈ treeEntries fs data sandbox ↔
    (∃ relative ∈ filesIn fs data, entry = entryFor fs data (str "data") relative) ∨
      ∃ relative ∈ filesIn fs sandbox, entry = entryFor fs sandbox (str "sandbox") relative := by
  rw [treeEntries, List.mem_insertionSort, List.mem_append, entriesIn, entriesIn, List.mem_map,
    List.mem_map]
  simp only [eq_comm]

theorem mem_treeDirectories (hdata : Regular fs data) (hsandbox : Regular fs sandbox)
    {directory : Str} : directory ∈ treeDirectories fs data sandbox ↔
      (∃ relative, fs.get (data ++ relative) = some .directory ∧
        directory = treePath (str "data") relative) ∨
      ∃ relative, fs.get (sandbox ++ relative) = some .directory ∧
        directory = treePath (str "sandbox") relative := by
  have hside : ∀ {root : FilePath} {top : Str}, Regular fs root →
      (directory ∈ (foundIn fs root top).directories ↔
        ∃ relative, fs.get (root ++ relative) = some .directory ∧
          directory = treePath top relative) := by
    intro root top h
    rw [directories_paths h, List.mem_map]
    constructor
    · rintro ⟨relative, hmem, rfl⟩
      refine ⟨relative, ?_, rfl⟩
      rcases List.mem_cons.mp hmem with rfl | hmem
      · rw [List.append_nil, h.directory]
      · exact ((mem_directoriesIn h).mp hmem).2
    · rintro ⟨relative, hdir, rfl⟩
      refine ⟨relative, ?_, rfl⟩
      by_cases hne : relative = []
      · rw [hne]
        exact List.mem_cons_self
      · exact List.mem_cons_of_mem _ ((mem_directoriesIn h).mpr ⟨hne, hdir⟩)
  rw [treeDirectories, List.mem_insertionSort, List.mem_append, hside hdata, hside hsandbox]

/-- Sizes of files are signed 64-bit numbers. -/
def Sized (fs : Files) (root : FilePath) : Prop :=
  ∀ relative content, fs.get (root ++ relative) = some (.file content) → content.length < 2 ^ 63

theorem written_entryFor (h : Regular fs data) (htop : Top top) (hsized : Sized fs data)
    {relative : List Name} (hmem : relative ∈ filesIn fs data) :
    Written (entryFor fs data top relative) := by
  obtain ⟨content, hfile⟩ := (mem_filesIn h).mp hmem
  have hne : relative ≠ [] := by
    rintro rfl
    rw [List.append_nil, h.directory] at hfile
    cases hfile
  refine ⟨⟨top, relative, htop, hne, treePath_eq hne⟩, ⟨length_hexdigest _, hexDigit_hexdigest _⟩,
    ?_⟩
  show (contentAt fs (data ++ relative)).length < 2 ^ 63
  rw [(contentAt_file hfile).2]
  exact hsized relative content hfile

theorem size_found (top : Str) (h : Regular fs data) :
    (entriesIn fs data top).length + (foundIn fs data top).directories.length =
      (listing fs data).length + 1 := by
  have hsize := size_collect top ⟨[], [top]⟩ _ h.permitted
  have hfiles : (entriesIn fs data top).length = (foundIn fs data top).files.length := by
    rw [entriesIn, files_found, List.length_map, List.length_map]
  rw [hfiles]
  simp only [List.length_nil, List.length_singleton] at hsize
  rw [foundIn, hsize]
  omega

theorem distinct_paths (hdata : Regular fs data) (hsandbox : Regular fs sandbox) :
    ((treeEntries fs data sandbox).map Entry.path).Nodup := by
  have hperm := (List.perm_insertionSort entryLe (entriesIn fs data (str "data") ++
    entriesIn fs sandbox (str "sandbox"))).map Entry.path
  rw [treeEntries, hperm.nodup_iff, List.map_append, entries_paths hdata, entries_paths hsandbox]
  exact nodup_paths ((walk_nodup _ _).filter _) ((walk_nodup _ _).filter _)

theorem writable_trees (hdata : Regular fs data) (hsandbox : Regular fs sandbox)
    (hsized : Sized fs data) (hsized' : Sized fs sandbox)
    (hsmall : (listing fs data).length + 1 + ((listing fs sandbox).length + 1) ≤ maxNodes) :
    Writable (treeEntries fs data sandbox) (treeDirectories fs data sandbox) := by
  have hroots : fs.get (data ++ []) = some .directory ∧ fs.get (sandbox ++ []) = some .directory :=
    ⟨by rw [List.append_nil, hdata.directory], by rw [List.append_nil, hsandbox.directory]⟩
  constructor
  · intro entry hmem
    rcases mem_treeEntries.mp hmem with ⟨relative, hin, rfl⟩ | ⟨relative, hin, rfl⟩
    · exact written_entryFor hdata (Or.inl rfl) hsized hin
    · exact written_entryFor hsandbox (Or.inr rfl) hsized' hin
  · exact distinct_paths hdata hsandbox
  · intro directory hmem
    rcases (mem_treeDirectories hdata hsandbox).mp hmem with ⟨relative, -, rfl⟩ | ⟨relative, -, rfl⟩
    · exact ⟨_, relative, Or.inl rfl, rfl⟩
    · exact ⟨_, relative, Or.inr rfl, rfl⟩
  · have hnew : ∀ root, [] ∉ directoriesIn fs root := by
      intro root hmem
      obtain ⟨name, rest, hempty, -⟩ := mem_walk.mp (List.mem_filter.mp hmem).1
      cases hempty
    rw [treeDirectories, (List.perm_insertionSort _ _).nodup_iff, directories_paths hdata,
      directories_paths hsandbox]
    exact nodup_paths (List.nodup_cons.mpr ⟨hnew data, (walk_nodup _ _).filter _⟩)
      (List.nodup_cons.mpr ⟨hnew sandbox, (walk_nodup _ _).filter _⟩)
  · -- a path is not that of a directory and of a file
    have hclash : ∀ {root : FilePath} {relative relative' : List Name},
        Regular fs root → fs.get (root ++ relative) = some .directory →
        relative' ∈ filesIn fs root → relative ≠ relative' := by
      intro root relative relative' h hdir hfile heq
      obtain ⟨content, hget⟩ := (mem_filesIn h).mp hfile
      rw [← heq, hdir] at hget
      cases hget
    intro directory hmem hpath
    obtain ⟨entry, hentry, rfl⟩ := List.mem_map.mp hpath
    have hform : ∃ top relative, entry.path = treePath top relative ∧
        ((top = str "data" ∧ relative ∈ filesIn fs data) ∨
          (top = str "sandbox" ∧ relative ∈ filesIn fs sandbox)) := by
      rcases mem_treeEntries.mp hentry with ⟨relative, hin, rfl⟩ | ⟨relative, hin, rfl⟩
      · obtain ⟨hne, -⟩ := hdata.mem_listing.mp (List.mem_filter.mp hin).1
        exact ⟨_, relative, treePath_eq hne, Or.inl ⟨rfl, hin⟩⟩
      · obtain ⟨hne, -⟩ := hsandbox.mem_listing.mp (List.mem_filter.mp hin).1
        exact ⟨_, relative, treePath_eq hne, Or.inr ⟨rfl, hin⟩⟩
    obtain ⟨top, relative, hentry, hside⟩ := hform
    rcases (mem_treeDirectories hdata hsandbox).mp hmem with ⟨other, hdir, heq⟩ | ⟨other, hdir, heq⟩
    · rw [hentry] at heq
      rcases hside with ⟨rfl, hin⟩ | ⟨rfl, hin⟩
      · exact hclash hdata hdir hin
          (treePath_injective (Or.inl rfl) (Or.inl rfl) heq).2.symm
      · exact absurd (treePath_injective (Or.inr rfl) (Or.inl rfl) heq).1 (by decide)
    · rw [hentry] at heq
      rcases hside with ⟨rfl, hin⟩ | ⟨rfl, hin⟩
      · exact absurd (treePath_injective (Or.inl rfl) (Or.inr rfl) heq).1 (by decide)
      · exact hclash hsandbox hdir hin
          (treePath_injective (Or.inr rfl) (Or.inr rfl) heq).2.symm
  · constructor
    · exact (mem_treeDirectories hdata hsandbox).mpr
        (Or.inl ⟨[], hroots.1, (treePath_nil _).symm⟩)
    · exact (mem_treeDirectories hdata hsandbox).mpr
        (Or.inr ⟨[], hroots.2, (treePath_nil _).symm⟩)
  · have hfirst := size_found (str "data") hdata
    have hsecond := size_found (str "sandbox") hsandbox
    rw [treeEntries, treeDirectories, (List.perm_insertionSort _ _).length_eq,
      (List.perm_insertionSort _ _).length_eq, List.length_append, List.length_append]
    omega

end SnapshotManifests
