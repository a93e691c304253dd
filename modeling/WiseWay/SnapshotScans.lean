import Mathlib.Data.List.Nodup
import WiseWay.Snapshots

/-! # What a scan finds

A scan goes through the listing of a tree in preorder. What it returns depends on the tree alone,
and it names every node of the tree once. -/
namespace SnapshotScans

open TextCodecs PosixPaths FileStores Snapshots

variable {fs fs' : Files} {root root' : FilePath} {top : Str} {found found' : Found}

/-- The paths below a directory in preorder, relative to the root of the walk. -/
def walk (fs : Files) (root : FilePath) : ℕ → List Name → List (List Name)
  | 0, _ => []
  | fuel + 1, relative =>
    (sortedNames fs (root ++ relative)).flatMap fun entry =>
      (relative ++ [entry]) ::
        if fs.get (root ++ (relative ++ [entry])) = some .directory then
          walk fs root fuel (relative ++ [entry])
        else []

def listing (fs : Files) (root : FilePath) : List (List Name) := walk fs root (maxDepth + 1) []

def fileEntry (root : FilePath) (top : Str) (relative : List Name) : FileEntry :=
  ⟨pathUnder top relative, root ++ relative⟩

/-- What a scan does with one path of the listing. -/
def record (fs : Files) (root : FilePath) (top : Str) (found : Found) (relative : List Name) :
    Option Found :=
  match fs.get (root ++ relative) with
  | none => none
  | some details =>
    if maxDepth < relative.length then none
    else match details with
      | .directory =>
        some { found with directories := found.directories ++ [pathUnder top relative] }
      | .file _ =>
        let files := found.files ++ [⟨pathUnder top relative, root ++ relative⟩]
        if maxFiles < files.length ∨ maxNodes < files.length + found.directories.length then none
        else some { found with files := files }
      | .other _ => none

theorem foldlM_flatMap {α β γ : Type} {f : γ → β → Option γ} {g : α → List β} (l : List α) (c : γ) :
    (l.flatMap g).foldlM f c = l.foldlM (fun c a => (g a).foldlM f c) c := by
  induction l generalizing c with
  | nil => rfl
  | cons a l ih =>
    rw [List.flatMap_cons, List.foldlM_append, List.foldlM_cons]
    congr 1
    funext c'
    exact ih c'

/-- The walk of the source records the listing, path by path. -/
theorem visit_eq (top : Str) (fuel : ℕ) (relative : List Name) (found : Found)
    (hdir : fs.get (root ++ relative) = some .directory) (hshallow : relative.length ≤ maxDepth)
    (hfuel : fuel + relative.length = maxDepth + 1) :
    visit fs top fuel (root ++ relative) relative found =
      (walk fs root fuel relative).foldlM (record fs root top) found := by
  induction fuel generalizing relative found with
  | zero => omega
  | succ fuel ih =>
    rw [visit, if_pos hdir, walk, foldlM_flatMap]
    congr 1
    funext found entry
    rw [List.foldlM_cons, visitEntry, record, List.append_assoc]
    cases hget : fs.get (root ++ (relative ++ [entry])) with
    | none => rfl
    | some details =>
      by_cases hdeep : maxDepth < (relative ++ [entry]).length
      · simp only [if_pos hdeep]
        rfl
      · simp only [if_neg hdeep]
        cases details with
        | directory =>
          rw [if_pos rfl]
          apply ih (relative ++ [entry]) _ hget (Nat.le_of_not_lt hdeep)
          rw [List.length_append, List.length_singleton]
          omega
        | file content =>
          have hleaf : ¬ (some (Node.file content) = some .directory) := by simp
          rw [if_neg hleaf]
          by_cases hfull : maxFiles < (found.files ++ [fileEntry root top
              (relative ++ [entry])]).length ∨ maxNodes < (found.files ++ [fileEntry root top
              (relative ++ [entry])]).length + found.directories.length
          · simp only [fileEntry] at hfull
            simp only [if_pos hfull]
            rfl
          · simp only [fileEntry] at hfull
            simp only [if_neg hfull]
            rfl
        | other reached => rfl

/-! ## The result of a scan -/

def isFile (fs : Files) (root : FilePath) (relative : List Name) : Bool :=
  (fileAt fs (root ++ relative)).isSome

def isDir (fs : Files) (root : FilePath) (relative : List Name) : Bool :=
  fs.get (root ++ relative) = some .directory

/-- The files and directories of a listing, after those found before. -/
def collect (fs : Files) (root : FilePath) (top : Str) (found : Found)
    (relatives : List (List Name)) : Found where
  files := found.files ++ (relatives.filter (isFile fs root)).map (fileEntry root top)
  directories := found.directories ++ (relatives.filter (isDir fs root)).map (pathUnder top)

/-- A node that a scan lets pass. -/
def Permitted (fs : Files) (root : FilePath) (relative : List Name) : Prop :=
  (isFile fs root relative ∨ isDir fs root relative) ∧ relative.length ≤ maxDepth

theorem collect_nil : collect fs root top found [] = found := by
  simp [collect]

theorem collect_cons (relative : List Name) (relatives : List (List Name)) :
    collect fs root top found (relative :: relatives) =
      collect fs root top (collect fs root top found [relative]) relatives := by
  have hsplit : relative :: relatives = [relative] ++ relatives := rfl
  rw [hsplit, collect, collect, collect, List.filter_append, List.filter_append, List.map_append,
    List.map_append, List.append_assoc, List.append_assoc]

theorem record_some {relative : List Name} (h : record fs root top found relative = some found') :
    Permitted fs root relative ∧ found' = collect fs root top found [relative] := by
  unfold record at h
  cases hget : fs.get (root ++ relative) with
  | none =>
    rw [hget] at h
    cases h
  | some details =>
    rw [hget] at h
    by_cases hdeep : maxDepth < relative.length
    · simp only [if_pos hdeep] at h
      cases h
    · simp only [if_neg hdeep] at h
      cases details with
      | directory =>
        have hfile : isFile fs root relative = false := by simp [isFile, fileAt, hget]
        have hdir : isDir fs root relative = true := by simp [isDir, hget]
        refine ⟨⟨Or.inr hdir, Nat.le_of_not_lt hdeep⟩, ?_⟩
        rw [← Option.some.inj h]
        simp [collect, hfile, hdir]
      | file content =>
        have hfile : isFile fs root relative = true := by simp [isFile, fileAt, hget]
        have hdir : isDir fs root relative = false := by simp [isDir, hget]
        refine ⟨⟨Or.inl hfile, Nat.le_of_not_lt hdeep⟩, ?_⟩
        simp only at h
        split at h
        · cases h
        · rw [← Option.some.inj h]
          simp [collect, hfile, hdir, fileEntry]
      | other reached => cases h

theorem record_permitted (top : Str) {relative : List Name} (h : Permitted fs root relative)
    (hroom : found.files.length + found.directories.length + 1 ≤ maxNodes) :
    record fs root top found relative = some (collect fs root top found [relative]) := by
  unfold record
  cases hget : fs.get (root ++ relative) with
  | none =>
    rcases h.1 with hkind | hkind
    · simp [isFile, fileAt, hget] at hkind
    · simp [isDir, hget] at hkind
  | some details =>
    simp only [if_neg (Nat.not_lt.mpr h.2)]
    cases details with
    | directory => simp [collect, isFile, isDir, fileAt, hget]
    | file content =>
      have hfull : ¬ (maxFiles < (found.files ++ [fileEntry root top relative]).length ∨
          maxNodes < (found.files ++ [fileEntry root top relative]).length +
            found.directories.length) := by
        rw [List.length_append, List.length_singleton]
        unfold maxFiles maxNodes at *
        omega
      simp only [fileEntry] at hfull
      simp only [if_neg hfull]
      simp [collect, isFile, isDir, fileAt, hget, fileEntry]
    | other reached =>
      rcases h.1 with hkind | hkind
      · simp [isFile, fileAt, hget] at hkind
      · simp [isDir, hget] at hkind

theorem foldlM_record (relatives : List (List Name))
    (h : relatives.foldlM (record fs root top) found = some found') :
    (∀ relative ∈ relatives, Permitted fs root relative) ∧
      found' = collect fs root top found relatives := by
  induction relatives generalizing found with
  | nil => exact ⟨by simp, by rw [collect_nil, ← Option.some.inj h]⟩
  | cons relative relatives ih =>
    rw [List.foldlM_cons] at h
    obtain ⟨between, hfirst, hrest⟩ := Option.bind_eq_some_iff.mp h
    obtain ⟨hpermitted, rfl⟩ := record_some hfirst
    obtain ⟨hothers, rfl⟩ := ih hrest
    refine ⟨?_, (collect_cons relative relatives).symm⟩
    intro other hother
    rcases List.mem_cons.mp hother with rfl | hother
    · exact hpermitted
    · exact hothers other hother

theorem size_collect_one (fs : Files) (root : FilePath) (top : Str) (found : Found)
    (relative : List Name) :
    (collect fs root top found [relative]).files.length +
      (collect fs root top found [relative]).directories.length ≤
        found.files.length + found.directories.length + 1 := by
  have hdisjoint : ¬ (isFile fs root relative = true ∧ isDir fs root relative = true) := by
    rintro ⟨hfile, hdir⟩
    have hget : fs.get (root ++ relative) = some .directory := by simpa [isDir] using hdir
    simp [isFile, fileAt, hget] at hfile
  cases hfile : isFile fs root relative <;> cases hdir : isDir fs root relative
  · simp [collect, hfile, hdir]
  · simp [collect, hfile, hdir]
    omega
  · simp [collect, hfile, hdir]
    omega
  · exact absurd ⟨hfile, hdir⟩ hdisjoint

theorem foldlM_permitted (found : Found) (relatives : List (List Name))
    (h : ∀ relative ∈ relatives, Permitted fs root relative)
    (hroom : found.files.length + found.directories.length + relatives.length ≤ maxNodes) :
    relatives.foldlM (record fs root top) found = some (collect fs root top found relatives) := by
  induction relatives generalizing found with
  | nil => rw [collect_nil]; rfl
  | cons relative relatives ih =>
    rw [List.length_cons] at hroom
    have hfirst := record_permitted top (h relative List.mem_cons_self)
      (show found.files.length + found.directories.length + 1 ≤ maxNodes by omega)
    have hsize := size_collect_one fs root top found relative
    have hrest := ih (collect fs root top found [relative])
      (fun other hother => h other (List.mem_cons_of_mem _ hother)) (by omega)
    rw [collect_cons relative relatives, ← hrest, List.foldlM_cons, hfirst]
    rfl

theorem size_collect (top : Str) (found : Found) (relatives : List (List Name))
    (h : ∀ relative ∈ relatives, Permitted fs root relative) :
    (collect fs root top found relatives).files.length +
      (collect fs root top found relatives).directories.length =
        found.files.length + found.directories.length + relatives.length := by
  have hcount : (relatives.filter (isFile fs root)).length +
      (relatives.filter (isDir fs root)).length = relatives.length := by
    have hother : relatives.filter (isDir fs root) =
        relatives.filter (fun relative => !isFile fs root relative) := by
      apply List.filter_congr
      intro relative hmem
      cases hfile : isFile fs root relative with
      | true =>
        rw [Bool.not_true]
        by_contra hdir
        have hget : fs.get (root ++ relative) = some .directory := by simpa [isDir] using hdir
        simp [isFile, fileAt, hget] at hfile
      | false =>
        rcases (h relative hmem).1 with hkind | hkind
        · rw [hfile] at hkind
          cases hkind
        · rw [hkind, Bool.not_false]
    rw [hother]
    exact (List.length_eq_length_filter_add _).symm
  simp only [collect, List.length_append, List.length_map]
  omega

/-! ## The listing -/

theorem mem_sortedNames {directory : FilePath} {name : Name} :
    name ∈ sortedNames fs directory ↔ fs.get (directory ++ [name]) ≠ none := by
  rw [sortedNames, List.mem_insertionSort, mem_names]

theorem mem_walk {fuel : ℕ} {relative p : List Name} :
    p ∈ walk fs root fuel relative ↔
      ∃ name rest, p = relative ++ name :: rest ∧ rest.length < fuel ∧ fs.get (root ++ p) ≠ none
    := by
  induction fuel generalizing relative with
  | zero => simp [walk]
  | succ fuel ih =>
    rw [walk, List.mem_flatMap]
    constructor
    · rintro ⟨entry, hentry, hp⟩
      rw [mem_sortedNames, List.append_assoc] at hentry
      rcases List.mem_cons.mp hp with rfl | hp
      · exact ⟨entry, [], rfl, Nat.succ_pos fuel, hentry⟩
      · by_cases hdir : fs.get (root ++ (relative ++ [entry])) = some .directory
        · rw [if_pos hdir] at hp
          obtain ⟨name, rest, rfl, hlength, hpresent⟩ := ih.mp hp
          refine ⟨entry, name :: rest, by simp, ?_, hpresent⟩
          rw [List.length_cons]
          omega
        · rw [if_neg hdir] at hp
          cases hp
    · rintro ⟨entry, rest, rfl, hlength, hpresent⟩
      have hsplit : root ++ (relative ++ entry :: rest) =
          (root ++ (relative ++ [entry])) ++ rest := by simp
      rw [hsplit] at hpresent
      refine ⟨entry, ?_, ?_⟩
      · rw [mem_sortedNames, List.append_assoc]
        exact present_above rest hpresent
      · cases rest with
        | nil => exact List.mem_cons_self
        | cons name rest =>
          have hdir := directory_above (name :: rest) hpresent (List.cons_ne_nil _ _)
          rw [if_pos hdir]
          apply List.mem_cons_of_mem
          rw [ih]
          refine ⟨name, rest, by simp, ?_, by rwa [hsplit]⟩
          rw [List.length_cons] at hlength
          omega

theorem walk_below {fuel : ℕ} {relative p : List Name} (h : p ∈ walk fs root fuel relative) :
    relative <+: p ∧ relative.length < p.length := by
  obtain ⟨name, rest, rfl, -, -⟩ := mem_walk.mp h
  refine ⟨List.prefix_append _ _, ?_⟩
  rw [List.length_append, List.length_cons]
  omega

theorem sortedNames_nodup (directory : FilePath) : (sortedNames fs directory).Nodup :=
  (List.perm_insertionSort _ _).nodup_iff.mpr (names_nodup fs directory)

theorem walk_nodup (fuel : ℕ) (relative : List Name) : (walk fs root fuel relative).Nodup := by
  induction fuel generalizing relative with
  | zero => exact List.nodup_nil
  | succ fuel ih =>
    have hbelow : ∀ entry p, p ∈ (relative ++ [entry]) ::
        (if fs.get (root ++ (relative ++ [entry])) = some .directory then
          walk fs root fuel (relative ++ [entry]) else []) → relative ++ [entry] <+: p := by
      intro entry p hp
      rcases List.mem_cons.mp hp with rfl | hp
      · exact List.prefix_refl _
      · by_cases hdir : fs.get (root ++ (relative ++ [entry])) = some .directory
        · rw [if_pos hdir] at hp
          exact (walk_below hp).1
        · rw [if_neg hdir] at hp
          cases hp
    rw [walk, List.nodup_flatMap]
    constructor
    · intro entry _
      rw [List.nodup_cons]
      by_cases hdir : fs.get (root ++ (relative ++ [entry])) = some .directory
      · rw [if_pos hdir]
        refine ⟨?_, ih _⟩
        intro hself
        exact lt_irrefl _ (walk_below hself).2
      · rw [if_neg hdir]
        exact ⟨List.not_mem_nil, List.nodup_nil⟩
    · apply (sortedNames_nodup (root ++ relative)).imp
      intro a b hne p hpa hpb
      have ha := hbelow a p hpa
      have hb := hbelow b p hpb
      have hsame : relative ++ [a] = relative ++ [b] :=
        List.prefix_or_prefix_of_prefix ha hb |>.elim
          (fun h => h.eq_of_length (by simp)) (fun h => (h.eq_of_length (by simp)).symm)
      exact hne (List.head_eq_of_cons_eq (List.append_cancel_left hsame))

theorem sortedNames_congr {directory directory' : FilePath}
    (h : ∀ name, fs.get (directory ++ [name]) ≠ none ↔ fs'.get (directory' ++ [name]) ≠ none) :
    sortedNames fs directory = sortedNames fs' directory' := by
  have hperm : (fs.names directory).Perm (fs'.names directory') := by
    rw [List.perm_ext_iff_of_nodup (names_nodup _ _) (names_nodup _ _)]
    intro name
    rw [mem_names, mem_names]
    exact h name
  have hsorted := (List.perm_insertionSort (· ≤ ·) (fs.names directory)).trans
    (hperm.trans (List.perm_insertionSort (· ≤ ·) (fs'.names directory')).symm)
  exact hsorted.eq_of_pairwise' (List.pairwise_insertionSort _ _) (List.pairwise_insertionSort _ _)

theorem walk_congr (h : fs.tree root = fs'.tree root') (fuel : ℕ) (relative : List Name) :
    walk fs root fuel relative = walk fs' root' fuel relative := by
  have hget : ∀ r, fs.get (root ++ r) = fs'.get (root' ++ r) := fun r => congrFun h r
  induction fuel generalizing relative with
  | zero => rfl
  | succ fuel ih =>
    have hnames : sortedNames fs (root ++ relative) = sortedNames fs' (root' ++ relative) := by
      apply sortedNames_congr
      intro name
      rw [List.append_assoc, List.append_assoc, hget]
    rw [walk, walk, hnames]
    congr 1
    funext entry
    rw [hget, ih]

/-! ## Scans that succeed -/

/-- What a scan returns for a tree that it lets pass. -/
def foundIn (fs : Files) (root : FilePath) (top : Str) : Found :=
  collect fs root top ⟨[], [top]⟩ (listing fs root)

/-- A tree that a scan lets pass: regular, shallow and small. -/
structure Regular (fs : Files) (root : FilePath) : Prop where
  directory : fs.get root = some .directory
  permitted : ∀ relative ∈ listing fs root, Permitted fs root relative
  small : (listing fs root).length + 1 ≤ maxNodes

theorem scan_iff : scanTree fs root top = some found ↔
    Regular fs root ∧ found = foundIn fs root top := by
  have hvisit : fs.get root = some .directory →
      visit fs top (maxDepth + 1) root [] ⟨[], [top]⟩ =
        (listing fs root).foldlM (record fs root top) ⟨[], [top]⟩ := by
    intro hdir
    have hstart := visit_eq top (maxDepth + 1) [] ⟨[], [top]⟩
      (by rwa [List.append_nil]) (Nat.zero_le _) rfl
    rwa [List.append_nil] at hstart
  constructor
  · intro h
    by_cases hdir : fs.get root = some .directory
    · rw [scanTree, hvisit hdir] at h
      cases hfold : (listing fs root).foldlM (record fs root top) ⟨[], [top]⟩ with
      | none =>
        rw [hfold] at h
        cases h
      | some result =>
        rw [hfold] at h
        obtain ⟨hpermitted, rfl⟩ := foldlM_record _ hfold
        have hsize := size_collect top ⟨[], [top]⟩ _ hpermitted
        by_cases hfull : maxNodes < (collect fs root top ⟨[], [top]⟩ (listing fs root)).files.length
            + (collect fs root top ⟨[], [top]⟩ (listing fs root)).directories.length
        · simp only [if_pos hfull] at h
          cases h
        · simp only [if_neg hfull] at h
          refine ⟨⟨hdir, hpermitted, ?_⟩, (Option.some.inj h).symm⟩
          simp only [List.length_nil, List.length_singleton] at hsize
          omega
    · rw [scanTree, visit, if_neg hdir] at h
      cases h
  · rintro ⟨hregular, rfl⟩
    have hsize := size_collect top ⟨[], [top]⟩ _ hregular.permitted
    have hsmall := hregular.small
    simp only [List.length_nil, List.length_singleton] at hsize
    rw [scanTree, hvisit hregular.directory, foldlM_permitted _ _ hregular.permitted (by
      simp only [List.length_nil, List.length_singleton]
      omega)]
    simp only [foundIn]
    rw [if_neg (by omega)]

theorem Regular.mem_listing (h : Regular fs root) {relative : List Name} :
    relative ∈ listing fs root ↔ relative ≠ [] ∧ fs.get (root ++ relative) ≠ none := by
  rw [listing, mem_walk]
  constructor
  · rintro ⟨name, rest, rfl, -, hpresent⟩
    exact ⟨by simp, hpresent⟩
  · rintro ⟨hne, hpresent⟩
    obtain ⟨name, rest, rfl⟩ := List.exists_cons_of_ne_nil hne
    refine ⟨name, rest, rfl, ?_, hpresent⟩
    -- a node that lies too deep has one just too deep above it, which the scan refuses
    by_contra hdeep
    have habove : fs.get (root ++ name :: rest.take maxDepth) ≠ none := by
      have hsplit : root ++ name :: rest =
          (root ++ name :: rest.take maxDepth) ++ rest.drop maxDepth := by simp
      rw [hsplit] at hpresent
      exact present_above _ hpresent
    have hlength : (rest.take maxDepth).length = maxDepth := by
      rw [List.length_take]
      omega
    have hlisted : name :: rest.take maxDepth ∈ listing fs root :=
      mem_walk.mpr ⟨name, rest.take maxDepth, rfl, by omega, habove⟩
    have hpermitted := (h.permitted _ hlisted).2
    rw [List.length_cons] at hpermitted
    omega

theorem listing_congr (h : fs.tree root = fs'.tree root') :
    listing fs root = listing fs' root' := walk_congr h _ _

theorem isFile_congr (h : fs.tree root = fs'.tree root') :
    isFile fs root = isFile fs' root' := by
  funext relative
  have hget : fs.get (root ++ relative) = fs'.get (root' ++ relative) := congrFun h relative
  rw [isFile, isFile, fileAt, fileAt, hget]

theorem isDir_congr (h : fs.tree root = fs'.tree root') :
    isDir fs root = isDir fs' root' := by
  funext relative
  have hget : fs.get (root ++ relative) = fs'.get (root' ++ relative) := congrFun h relative
  rw [isDir, isDir, hget]

theorem Regular.congr (hregular : Regular fs root) (h : fs.tree root = fs'.tree root') :
    Regular fs' root' := by
  have hroot : fs.get (root ++ []) = fs'.get (root' ++ []) := congrFun h []
  rw [List.append_nil, List.append_nil] at hroot
  constructor
  · rw [← hroot]
    exact hregular.directory
  · intro relative hmem
    rw [← listing_congr h] at hmem
    have hpermitted := hregular.permitted relative hmem
    rwa [Permitted, isFile_congr h, isDir_congr h] at hpermitted
  · rw [← listing_congr h]
    exact hregular.small

theorem regular_of_limits (hdir : fs.get root = some .directory)
    (hkinds : ∀ relative reached, fs.get (root ++ relative) ≠ some (.other reached))
    (hdepth : ∀ relative, fs.get (root ++ relative) ≠ none → relative.length ≤ maxDepth)
    (hsmall : (listing fs root).length + 1 ≤ maxNodes) : Regular fs root := by
  refine ⟨hdir, ?_, hsmall⟩
  intro relative hmem
  obtain ⟨name, rest, rfl, -, hpresent⟩ := mem_walk.mp hmem
  refine ⟨?_, hdepth _ hpresent⟩
  rw [List.nil_append] at hpresent ⊢
  cases hget : fs.get (root ++ name :: rest) with
  | none => exact absurd hget hpresent
  | some node =>
    cases node with
    | file content => exact Or.inl (by simp [isFile, fileAt, hget])
    | directory => exact Or.inr (by simp [isDir, hget])
    | other reached => exact absurd hget (hkinds _ reached)

end SnapshotScans
