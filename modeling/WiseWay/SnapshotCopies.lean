import WiseWay.SnapshotScans

/-! # What a copy leaves

Copying what a scan found makes below the target just the tree that was scanned, and writes down
a digest and a size for each of its files. -/
namespace SnapshotCopies

open TextCodecs PosixPaths FileStores Sha256 Snapshots SnapshotScans

variable {fs fs' : Files} {source targetRoot : FilePath} {top : Str}

/-! ## Paths as texts and back -/

theorem names_valid (relative : List Name) : ∀ name ∈ relative.map Subtype.val, ValidName name := by
  intro name hname
  obtain ⟨⟨_, hvalid⟩, -, rfl⟩ := List.mem_map.mp hname
  exact hvalid

theorem pathUnder_eq {relative : List Name} (hne : relative ≠ []) :
    pathUnder top relative = joinNames (top :: relative.map Subtype.val) := by
  obtain ⟨name, rest, rfl⟩ := List.exists_cons_of_ne_nil hne
  rw [pathUnder, asPosix_joinNames (by simp), List.map_cons, joinNames_cons]

theorem mapM_nameOf (relative : List Name) :
    (relative.map Subtype.val).mapM nameOf = some relative := by
  induction relative with
  | nil => rfl
  | cons name rest ih =>
    have hname : nameOf name.1 = some name := dif_pos name.2
    rw [List.map_cons, List.mapM_cons, hname, ih]
    rfl

theorem relativeTo_joined (htop : ValidName top) (relative : List Name) :
    relativeTo top (joinNames (top :: relative.map Subtype.val)) = some relative := by
  rw [relativeTo, relativeTo_joinNames htop (names_valid relative), Option.bind_some,
    mapM_nameOf]

theorem relativeTo_pathUnder (htop : ValidName top) {relative : List Name} (hne : relative ≠ []) :
    relativeTo top (pathUnder top relative) = some relative := by
  rw [pathUnder_eq hne, relativeTo_joined htop]

theorem relativeTo_top (htop : ValidName top) : relativeTo top top = some [] := by
  have hjoined := relativeTo_joined htop []
  rwa [List.map_nil, joinNames_one] at hjoined

theorem valid_joined (htop : ValidName top) (relative : List Name) :
    ∀ name ∈ top :: relative.map Subtype.val, ValidName name := by
  intro name hname
  rcases List.mem_cons.mp hname with rfl | hname
  · exact htop
  · exact names_valid relative name hname

theorem count_pathUnder (htop : ValidName top) {relative : List Name} (hne : relative ≠ []) :
    (pathUnder top relative).count slash = relative.length := by
  rw [pathUnder_eq hne, count_slash (valid_joined htop relative), List.length_cons,
    List.length_map]
  rfl

theorem count_top (htop : ValidName top) : top.count slash = 0 :=
  List.count_eq_zero.mpr htop.no_slash

/-! ## Making the directories -/

/-- The relative path that a directory's text stands for. -/
def relativeOf (top directory : Str) : List Name := (relativeTo top directory).getD []

theorem copyDirectory_forM (directories : List Str)
    (h : ∀ directory ∈ directories, (relativeTo top directory).isSome) :
    directories.forM (copyDirectory targetRoot top) =
      (((directories.map (relativeOf top)).filter (· ≠ [])).map (targetRoot ++ ·)).forM mkdir := by
  induction directories with
  | nil => rfl
  | cons directory directories ih =>
    obtain ⟨relative, hrelative⟩ := Option.isSome_iff_exists.mp (h directory List.mem_cons_self)
    have hrest := ih fun d hd => h d (List.mem_cons_of_mem _ hd)
    have hself : relativeOf top directory = relative := by rw [relativeOf, hrelative]; rfl
    have hstep : copyDirectory targetRoot top directory =
        if relative = [] then pure () else mkdir (targetRoot ++ relative) := by
      funext fs
      exact bind_some (show reads _ fs = (some relative, fs) by rw [reads, hrelative])
    show (copyDirectory targetRoot top directory >>= fun _ =>
      directories.forM (copyDirectory targetRoot top)) = _
    rw [hstep, hrest, List.map_cons, hself]
    by_cases hempty : relative = []
    · rw [if_pos hempty, List.filter_cons_of_neg (by simpa using hempty), pure_bind]
    · rw [if_neg hempty, List.filter_cons_of_pos (by simpa using hempty)]
      rfl

theorem shallower_total (a b : Str) : shallower a b ∨ shallower b a := by
  rcases lt_trichotomy (a.count slash) (b.count slash) with h | h | h
  · exact Or.inl (Or.inl h)
  · rcases le_total a b with hle | hle
    · exact Or.inl (Or.inr ⟨h, hle⟩)
    · exact Or.inr (Or.inr ⟨h.symm, hle⟩)
  · exact Or.inr (Or.inl h)

theorem shallower_trans {a b c : Str} (h : shallower a b) (h' : shallower b c) :
    shallower a c := by
  rcases h with h | ⟨h, hle⟩
  · rcases h' with h' | ⟨h', -⟩
    · exact Or.inl (h.trans h')
    · exact Or.inl (h.trans_eq h')
  · rcases h' with h' | ⟨h', hle'⟩
    · exact Or.inl (h.trans_lt h')
    · exact Or.inr ⟨h.trans h', hle.trans hle'⟩

instance : Std.Total shallower := ⟨shallower_total⟩

instance : IsTrans Str shallower := ⟨fun _ _ _ => shallower_trans⟩

theorem shallower_count {a b : Str} (h : shallower a b) : a.count slash ≤ b.count slash := by
  rcases h with h | ⟨h, -⟩
  · exact le_of_lt h
  · exact le_of_eq h

def filesIn (fs : Files) (source : FilePath) : List (List Name) :=
  (listing fs source).filter (isFile fs source)

def directoriesIn (fs : Files) (source : FilePath) : List (List Name) :=
  (listing fs source).filter (isDir fs source)

theorem directories_found : (foundIn fs source top).directories =
    top :: (directoriesIn fs source).map (pathUnder top) := rfl

theorem files_found : (foundIn fs source top).files =
    (filesIn fs source).map (fileEntry source top) := rfl

theorem mem_directoriesIn (h : Regular fs source) {relative : List Name} :
    relative ∈ directoriesIn fs source ↔
      relative ≠ [] ∧ fs.get (source ++ relative) = some .directory := by
  rw [directoriesIn, List.mem_filter, h.mem_listing, isDir, decide_eq_true_eq]
  constructor
  · rintro ⟨⟨hne, -⟩, hdir⟩
    exact ⟨hne, hdir⟩
  · rintro ⟨hne, hdir⟩
    exact ⟨⟨hne, by rw [hdir]; exact Option.some_ne_none _⟩, hdir⟩

theorem mem_filesIn (h : Regular fs source) {relative : List Name} :
    relative ∈ filesIn fs source ↔ ∃ content, fs.get (source ++ relative) = some (.file content)
    := by
  rw [filesIn, List.mem_filter, h.mem_listing]
  constructor
  · rintro ⟨-, hfile⟩
    rw [isFile, fileAt] at hfile
    cases hget : fs.get (source ++ relative) with
    | none => simp [hget] at hfile
    | some node =>
      cases node with
      | file content => exact ⟨content, rfl⟩
      | directory => simp [hget] at hfile
      | other reached => simp [hget] at hfile
  · rintro ⟨content, hget⟩
    refine ⟨⟨?_, by rw [hget]; exact Option.some_ne_none _⟩, by simp [isFile, fileAt, hget]⟩
    rintro rfl
    rw [List.append_nil, h.directory] at hget
    cases hget

theorem relatives_perm (htop : ValidName top) (h : Regular fs source) :
    (((((foundIn fs source top).directories.insertionSort shallower)).map
      (relativeOf top)).filter (· ≠ [])).Perm (directoriesIn fs source) := by
  have hmap : ((directoriesIn fs source).map (pathUnder top)).map (relativeOf top) =
      directoriesIn fs source := by
    have hread : ∀ relative ∈ directoriesIn fs source,
        (relativeOf top ∘ pathUnder top) relative = id relative := by
      intro relative hmem
      have hne := ((mem_directoriesIn h).mp hmem).1
      show relativeOf top (pathUnder top relative) = relative
      rw [relativeOf, relativeTo_pathUnder htop hne]
      rfl
    rw [List.map_map, List.map_congr_left hread, List.map_id]
  have hkeep : (directoriesIn fs source).filter (· ≠ []) = directoriesIn fs source := by
    rw [List.filter_eq_self]
    intro relative hmem
    exact decide_eq_true ((mem_directoriesIn h).mp hmem).1
  have hperm := ((List.perm_insertionSort shallower (foundIn fs source top).directories).map
    (relativeOf top)).filter (· ≠ [])
  have hself : relativeOf top top = [] := by rw [relativeOf, relativeTo_top htop]; rfl
  rw [directories_found, List.map_cons, hmap, hself, List.filter_cons_of_neg (by simp),
    hkeep] at hperm
  exact hperm

theorem relatives_ordered (htop : ValidName top) (h : Regular fs source) :
    ((((foundIn fs source top).directories.insertionSort shallower).map
      (relativeOf top)).filter (· ≠ [])).Pairwise (fun a b => a.length ≤ b.length) := by
  apply List.Pairwise.filter
  rw [List.pairwise_map]
  have hsorted := List.pairwise_insertionSort shallower (foundIn fs source top).directories
  have hcount : ∀ d ∈ (foundIn fs source top).directories.insertionSort shallower,
      (relativeOf top d).length = d.count slash := by
    intro d hd
    rw [List.mem_insertionSort, directories_found] at hd
    rcases List.mem_cons.mp hd with rfl | hd
    · rw [relativeOf, relativeTo_top htop, count_top htop]
      rfl
    · obtain ⟨relative, hmem, rfl⟩ := List.mem_map.mp hd
      have hne := ((mem_directoriesIn h).mp hmem).1
      rw [relativeOf, relativeTo_pathUnder htop hne, count_pathUnder htop hne]
      rfl
  apply hsorted.imp_of_mem
  intro a b ha hb hab
  rw [hcount a ha, hcount b hb]
  exact shallower_count hab

theorem directories_spec (htop : ValidName top) (h : Regular fs source)
    (htarget : fs.get targetRoot = some .directory)
    (hfree : ∀ relative, relative ≠ [] → fs.get (targetRoot ++ relative) = none) :
    ∃ fs', ((foundIn fs source top).directories.insertionSort shallower).forM
        (copyDirectory targetRoot top) fs = (some (), fs') ∧
      ∀ q, fs'.get q = if ∃ relative ∈ directoriesIn fs source, q = targetRoot ++ relative
        then some .directory else fs.get q := by
  have hsome : ∀ d ∈ (foundIn fs source top).directories.insertionSort shallower,
      (relativeTo top d).isSome := by
    intro d hd
    rw [List.mem_insertionSort, directories_found] at hd
    rcases List.mem_cons.mp hd with rfl | hd
    · rw [relativeTo_top htop]
      rfl
    · obtain ⟨relative, hmem, rfl⟩ := List.mem_map.mp hd
      rw [relativeTo_pathUnder htop ((mem_directoriesIn h).mp hmem).1]
      rfl
  have hperm := relatives_perm htop h
  have hordered := relatives_ordered htop h
  rw [copyDirectory_forM _ hsome]
  generalize (((foundIn fs source top).directories.insertionSort shallower).map
    (relativeOf top)).filter (· ≠ []) = relatives at hperm hordered
  have hnodup : relatives.Nodup := hperm.nodup_iff.mpr ((walk_nodup _ _).filter _)
  have hmem : ∀ relative ∈ relatives, relative ≠ [] ∧
      fs.get (source ++ relative) = some .directory :=
    fun relative hin => (mem_directoriesIn h).mp (hperm.subset hin)
  obtain ⟨fs', hrun, hget⟩ := mkdirs_spec fs (relatives.map (targetRoot ++ ·))
    (hnodup.map (List.append_right_injective targetRoot))
    (by
      intro path hpath
      obtain ⟨relative, hin, rfl⟩ := List.mem_map.mp hpath
      refine ⟨?_, hfree relative (hmem relative hin).1⟩
      intro hempty
      exact (hmem relative hin).1 (List.append_eq_nil_iff.mp hempty).2)
    (by
      intro before path after hsplit
      obtain ⟨rbefore, rrest, hrelatives, hbefore, hrest⟩ := List.map_eq_append_iff.mp hsplit
      obtain ⟨relative, rafter, rfl, rfl, -⟩ := List.map_eq_cons_iff.mp hrest
      have hin : relative ∈ relatives := by rw [hrelatives]; simp
      obtain ⟨hne, hdir⟩ := hmem relative hin
      rw [List.dropLast_append_of_ne_nil hne]
      by_cases hlast : relative.dropLast = []
      · rw [hlast, List.append_nil]
        exact Or.inl htarget
      · -- the directory above is in the list, and cannot come later, being shorter
        have hsource : fs.get (source ++ relative.dropLast) = some .directory := by
          have hform : source ++ relative =
              (source ++ relative.dropLast) ++ [relative.getLast hne] := by
            rw [List.append_assoc, List.dropLast_append_getLast]
          rw [hform] at hdir
          exact fs.parent _ _ (by
            show fs.get _ ≠ none
            rw [hdir]
            exact Option.some_ne_none _)
        have habove : relative.dropLast ∈ relatives :=
          hperm.symm.subset ((mem_directoriesIn h).mpr ⟨hlast, hsource⟩)
        rw [hrelatives, List.mem_append, List.mem_cons] at habove
        have hshort : relative.dropLast.length < relative.length := by
          rw [List.length_dropLast]
          have hpos := List.length_pos_iff.mpr hne
          omega
        rcases habove with habove | habove | habove
        · right
          rw [← hbefore]
          exact List.mem_map_of_mem habove
        · rw [habove] at hshort
          exact absurd hshort (lt_irrefl _)
        · rw [hrelatives, List.pairwise_append, List.pairwise_cons] at hordered
          have hle := hordered.2.1.1 _ habove
          omega)
  refine ⟨fs', hrun, ?_⟩
  intro q
  rw [hget]
  have hiff : q ∈ relatives.map (targetRoot ++ ·) ↔
      ∃ relative ∈ directoriesIn fs source, q = targetRoot ++ relative := by
    rw [List.mem_map]
    constructor
    · rintro ⟨relative, hin, rfl⟩
      exact ⟨relative, hperm.subset hin, rfl⟩
    · rintro ⟨relative, hin, rfl⟩
      exact ⟨relative, hperm.symm.subset hin, rfl⟩
  simp only [hiff]

/-! ## Copying the files -/

def contentAt (fs : Files) (path : FilePath) : Bytes := (fileAt fs path).getD []

def entryFor (fs : Files) (source : FilePath) (top : Str) (relative : List Name) : Entry where
  path := pathUnder top relative
  sha256 := hexdigest (contentAt fs (source ++ relative))
  sizeBytes := (contentAt fs (source ++ relative)).length

def entriesIn (fs : Files) (source : FilePath) (top : Str) : List Entry :=
  (filesIn fs source).map (entryFor fs source top)

theorem contentAt_file {path : FilePath} {content : Bytes}
    (h : fs.get path = some (.file content)) :
    fileAt fs path = some content ∧ contentAt fs path = content := by
  have hfile : fileAt fs path = some content := by rw [fileAt, h]
  exact ⟨hfile, by rw [contentAt, hfile]; rfl⟩

/-- No path of one tree is one of the other. -/
def Apart (source targetRoot : FilePath) : Prop :=
  ∀ relative relative', source ++ relative ≠ targetRoot ++ relative'

theorem copyFile_spec (htop : ValidName top) {relative : List Name} (hne : relative ≠ [])
    (hfree : fs.get (targetRoot ++ relative) = none)
    (hparent : fs.get (targetRoot ++ relative.dropLast) = some .directory) {content : Bytes}
    (hfile : fs.get (source ++ relative) = some (.file content)) :
    ∃ fs', copyFile targetRoot top (fileEntry source top relative) fs =
        (some (entryFor fs source top relative), fs') ∧
      ∀ q, fs'.get q = if q = targetRoot ++ relative then some (.file content) else fs.get q := by
  obtain ⟨hread, hcontent⟩ := contentAt_file hfile
  have hroot : targetRoot ++ relative ≠ [] := by
    intro hempty
    exact hne (List.append_eq_nil_iff.mp hempty).2
  obtain ⟨fs', hcreate, hget⟩ := createFile_spec fs _ hroot hfree
    (by rwa [List.dropLast_append_of_ne_nil hne]) content
  refine ⟨fs', ?_, hget⟩
  have hrelative : relativeTo top (fileEntry source top relative).path = some relative :=
    relativeTo_pathUnder htop hne
  rw [copyFile, bind_some (show reads _ fs = (some relative, fs) by rw [reads, hrelative])]
  have hcopy : hashAndCopy (fileEntry source top relative).source (targetRoot ++ relative) fs =
      (some (hexdigest content, content.length), fs') := by
    rw [hashAndCopy, bind_some (show reads _ fs = (some content, fs) by
      rw [reads]
      exact congrArg (·, fs) hread), bind_some hcreate]
    rfl
  rw [bind_some hcopy]
  show (some (Entry.mk _ _ _), fs') = _
  rw [entryFor, hcontent]
  rfl

theorem files_spec (fs : Files) (htop : ValidName top) (hapart : Apart source targetRoot)
    (relatives : List (List Name)) (hnodup : relatives.Nodup)
    (h : ∀ relative ∈ relatives, relative ≠ [] ∧ fs.get (targetRoot ++ relative) = none ∧
      fs.get (targetRoot ++ relative.dropLast) = some .directory ∧
      ∃ content, fs.get (source ++ relative) = some (.file content)) :
    ∃ fs', (relatives.map (fileEntry source top)).mapM (copyFile targetRoot top) fs =
        (some (relatives.map (entryFor fs source top)), fs') ∧
      ∀ q, (∀ relative ∈ relatives, q = targetRoot ++ relative →
          fs'.get q = fs.get (source ++ relative)) ∧
        ((∀ relative ∈ relatives, q ≠ targetRoot ++ relative) → fs'.get q = fs.get q) := by
  induction relatives generalizing fs with
  | nil => exact ⟨fs, rfl, fun q => ⟨by simp, fun _ => rfl⟩⟩
  | cons relative relatives ih =>
    obtain ⟨hne, hfree, hparent, content, hfile⟩ := h relative List.mem_cons_self
    obtain ⟨between, hfirst, hbetween⟩ := copyFile_spec htop hne hfree hparent hfile
    have hother : ∀ r ∈ relatives, targetRoot ++ r ≠ targetRoot ++ relative := by
      intro r hr heq
      rw [List.append_cancel_left heq] at hr
      exact (List.nodup_cons.mp hnodup).1 hr
    have hsource : ∀ r, between.get (source ++ r) = fs.get (source ++ r) := by
      intro r
      rw [hbetween, if_neg (hapart r relative)]
    have hentry : ∀ r, entryFor between source top r = entryFor fs source top r := by
      intro r
      simp only [entryFor, contentAt, fileAt, hsource r]
    obtain ⟨fs', hrest, hget⟩ := ih between (List.nodup_cons.mp hnodup).2 (by
      intro r hr
      obtain ⟨hne', hfree', hparent', hfile'⟩ := h r (List.mem_cons_of_mem _ hr)
      refine ⟨hne', ?_, ?_, ?_⟩
      · rw [hbetween, if_neg (hother r hr), hfree']
      · rw [hbetween, if_neg, hparent']
        intro heq
        rw [heq, hfree] at hparent'
        cases hparent'
      · rwa [hsource])
    have hentries : relatives.map (entryFor between source top) =
        relatives.map (entryFor fs source top) := List.map_congr_left fun r _ => hentry r
    rw [hentries] at hrest
    refine ⟨fs', ?_, ?_⟩
    · rw [List.map_cons, List.mapM_cons, bind_some hfirst, bind_some hrest]
      rfl
    · intro q
      obtain ⟨hin, hout⟩ := hget q
      constructor
      · intro r hr hq
        rcases List.mem_cons.mp hr with rfl | hr
        · rw [hout (fun r' hr' heq => hother r' hr' (heq.symm.trans hq)), hbetween, if_pos hq,
            hfile]
        · rw [hin r hr hq, hsource]
      · intro hq
        rw [hout fun r hr => hq r (List.mem_cons_of_mem _ hr), hbetween,
          if_neg (hq relative List.mem_cons_self)]

/-! ## The whole copy -/

theorem sync_spec (directories : List Str)
    (h : ∀ directory ∈ directories, ∃ relative, relativeTo top directory = some relative ∧
      fs.get (targetRoot ++ relative) ≠ none) :
    directories.forM (syncDirectory targetRoot top) fs = (some (), fs) := by
  induction directories with
  | nil => rfl
  | cons directory directories ih =>
    obtain ⟨relative, hrelative, hpresent⟩ := h directory List.mem_cons_self
    have hfirst : syncDirectory targetRoot top directory fs = (some (), fs) := by
      rw [syncDirectory, bind_some (show reads _ fs = (some relative, fs) by rw [reads, hrelative]),
        fsyncDirectory, reads, ensure, if_pos hpresent]
    exact (bind_some hfirst).trans (ih fun d hd => h d (List.mem_cons_of_mem _ hd))

theorem confined_copyTree (files : List FileEntry) (targetRoot : FilePath) (top : Str)
    (directories : List Str) : Confined targetRoot (copyTree files targetRoot top directories) := by
  have hbelow : ∀ relative, targetRoot <+: targetRoot ++ relative :=
    fun relative => List.prefix_append _ _
  unfold copyTree
  apply Confined.bind
  · apply confined_forM
    intro directory
    apply (confined_reads _ _).bind
    intro relative
    by_cases hempty : relative = []
    · rw [if_pos hempty]
      exact confined_pure _ _
    · rw [if_neg hempty]
      exact confined_add (hbelow relative) _
  · intro _
    apply Confined.bind
    · apply confined_mapM
      intro item
      apply (confined_reads _ _).bind
      intro relative
      apply Confined.bind
      · apply (confined_reads _ _).bind
        intro content
        exact (confined_add (hbelow relative) _).bind fun _ => confined_pure _ _
      · intro copied
        exact confined_pure _ _
    · intro manifest
      apply Confined.bind
      · apply confined_forM
        intro directory
        exact (confined_reads _ _).bind fun relative => confined_reads _ _
      · intro _
        exact confined_pure _ _

/-- A copy below an empty directory equals the tree that was scanned. -/
theorem copyTree_spec (targetRoot : FilePath) (htop : ValidName top) (h : Regular fs source)
    (hapart : Apart source targetRoot) (htarget : fs.get targetRoot = some .directory)
    (hfree : ∀ relative, relative ≠ [] → fs.get (targetRoot ++ relative) = none) :
    ∃ fs', copyTree (foundIn fs source top).files targetRoot top (foundIn fs source top).directories
        fs = (some (entriesIn fs source top), fs') ∧
      fs'.tree targetRoot = fs.tree source ∧ Under targetRoot fs fs' := by
  obtain ⟨made, hmade, hget⟩ := directories_spec htop h htarget hfree
  have hsource : ∀ r, made.get (source ++ r) = fs.get (source ++ r) := by
    intro r
    rw [hget, if_neg]
    rintro ⟨relative, -, heq⟩
    exact hapart r relative heq
  have htree : made.tree source = fs.tree source := funext hsource
  -- what the directories alone leave below the target
  have hmadeAt : ∀ r, r ≠ [] → made.get (targetRoot ++ r) =
      if r ∈ directoriesIn fs source then some .directory else none := by
    intro r hr
    rw [hget, hfree r hr]
    have hiff : (∃ relative ∈ directoriesIn fs source, targetRoot ++ r = targetRoot ++ relative) ↔
        r ∈ directoriesIn fs source := by
      constructor
      · rintro ⟨relative, hmem, heq⟩
        rwa [List.append_cancel_left heq]
      · intro hmem
        exact ⟨r, hmem, rfl⟩
    simp only [hiff]
  have hmadeRoot : made.get targetRoot = some .directory := by
    rw [hget, htarget, ite_self]
  obtain ⟨fs', hcopied, hcontents⟩ := files_spec made htop hapart (filesIn fs source)
    ((walk_nodup _ _).filter _) (by
      intro relative hmem
      obtain ⟨content, hfile⟩ := (mem_filesIn h).mp hmem
      have hne : relative ≠ [] := by
        rintro rfl
        rw [List.append_nil, h.directory] at hfile
        cases hfile
      refine ⟨hne, ?_, ?_, content, by rw [hsource, hfile]⟩
      · rw [hmadeAt relative hne, if_neg]
        intro hdir
        rw [mem_directoriesIn h, hfile] at hdir
        cases hdir.2
      · by_cases hlast : relative.dropLast = []
        · rw [hlast, List.append_nil, hmadeRoot]
        · rw [hmadeAt _ hlast, if_pos]
          rw [mem_directoriesIn h]
          refine ⟨hlast, ?_⟩
          apply directory_above [relative.getLast hne] _ (List.cons_ne_nil _ _)
          rw [List.append_assoc, List.dropLast_append_getLast, hfile]
          exact Option.some_ne_none _)
  have hentries : (filesIn fs source).map (entryFor made source top) = entriesIn fs source top := by
    apply List.map_congr_left
    intro r _
    simp only [entryFor, contentAt, fileAt, hsource r]
  have hat : ∀ r, fs'.get (targetRoot ++ r) = fs.get (source ++ r) := by
    intro r
    obtain ⟨hin, hout⟩ := hcontents (targetRoot ++ r)
    by_cases hfile : r ∈ filesIn fs source
    · rw [hin r hfile rfl, hsource]
    · rw [hout fun r' hr' heq => hfile (by rwa [List.append_cancel_left heq])]
      by_cases hr : r = []
      · rw [hr, List.append_nil, List.append_nil, hmadeRoot, h.directory]
      · rw [hmadeAt r hr]
        by_cases hdir : r ∈ directoriesIn fs source
        · rw [if_pos hdir, ((mem_directoriesIn h).mp hdir).2]
        · rw [if_neg hdir]
          by_contra hpresent
          have hlisted := h.mem_listing.mpr ⟨hr, Ne.symm hpresent⟩
          rcases (h.permitted r hlisted).1 with hkind | hkind
          · exact hfile (List.mem_filter.mpr ⟨hlisted, hkind⟩)
          · exact hdir (List.mem_filter.mpr ⟨hlisted, hkind⟩)
  have hsync : ((foundIn fs source top).directories.insertionSort shallower).reverse.forM
      (syncDirectory targetRoot top) fs' = (some (), fs') := by
    apply sync_spec
    intro directory hmem
    rw [List.mem_reverse, List.mem_insertionSort, directories_found] at hmem
    rcases List.mem_cons.mp hmem with rfl | hmem
    · refine ⟨[], relativeTo_top htop, ?_⟩
      rw [hat, List.append_nil, h.directory]
      exact Option.some_ne_none _
    · obtain ⟨relative, hin, rfl⟩ := List.mem_map.mp hmem
      obtain ⟨hne, hdir⟩ := (mem_directoriesIn h).mp hin
      refine ⟨relative, relativeTo_pathUnder htop hne, ?_⟩
      rw [hat, hdir]
      exact Option.some_ne_none _
  have hrun : copyTree (foundIn fs source top).files targetRoot top
      (foundIn fs source top).directories fs = (some (entriesIn fs source top), fs') := by
    rw [hentries] at hcopied
    exact (bind_some hmade).trans ((bind_some hcopied).trans (bind_some hsync))
  refine ⟨fs', hrun, funext hat, ?_⟩
  intro q hq
  have hconfined := confined_copyTree (foundIn fs source top).files targetRoot top
    (foundIn fs source top).directories fs q hq
  rwa [hrun] at hconfined

end SnapshotCopies
