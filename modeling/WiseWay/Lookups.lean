import WiseWay.PlanSpecification
import WiseWay.Services

/-! # Look-ups of paths

A name passes two grammars before the operating system sees it: the one of
`Context.location` and the one of `SafeFilesystem._parts`. Whether the system then answers
is its own affair. -/
namespace Lookups

open Records Services Rules

/-- What the operating system answers to `SafeFilesystem.exists` and `stat` for a checked
path; it may refuse to look, as it does for names that are too long. -/
structure FileSystem where
  exists_ : Text → Except Exn Bool
  stat : Text → Except Exn (Option Fingerprint)

/-- A system that answers every question from a tree. -/
def ofTree (tree : FileTree) : FileSystem where
  exists_ path := .ok (tree path).isSome
  stat path := .ok (fileAt tree path)

namespace FileSystem

variable (fs : FileSystem)

def occupied (path : Text) : Except Exn Bool := do
  let _ ← parts path
  fs.exists_ path

def identity (path : Text) : Except Exn (Option Fingerprint) := do
  let _ ← parts path
  fs.stat path

/-- The planner looks what is there only where there is something. -/
def Answers (path : Text) : Prop :=
  ∃ occupied, fs.exists_ path = .ok occupied ∧
    (occupied = true → ∃ observed, fs.stat path = .ok observed)

end FileSystem

section Context

variable (layout : Layout) (fs : FileSystem)

def existsAt (loc : Location) : Except Exn Bool := do
  fs.occupied (← physical layout loc)

def sourceInfo (loc : Location) : Except Exn (Option FileMetadata) := do
  let observed ← fs.identity (← physical layout loc)
  return observed.map fun m => ⟨leaf loc.relativePath, loc, m.size, m.mtimeNs⟩

def adapters : Adapters where
  exists_ := existsAt layout fs
  location := location layout
  sourceInfo := sourceInfo layout fs

def plan (casefold : Text → Text) (items : List PublicItem) (rules : List Rule)
    (companyId : Text) : Except Exn (List PlanRow) := do
  let company ← requireCompany layout companyId
  planRows casefold (adapters layout fs) items rules ⟨manualRoot, company.folder⟩

end Context

/-! The grammar of the file system. -/

/-- A path that `_parts` accepts. -/
structure Clean (path : Text) : Prop where
  backslash : '\\' ∉ path
  nul : '\x00' ∉ path
  components : ∀ part ∈ path.splitOn '/', badComponent part = false

theorem badComponent_eq_false {part : Text} :
    badComponent part = false ↔ part ≠ [] ∧ part ≠ ['.'] ∧ part ≠ ['.', '.'] := by
  simp [badComponent]

theorem Clean.ne_nil {path : Text} (h : Clean path) : path ≠ [] := by
  rintro rfl
  have := h.components [] (by simp)
  simp [badComponent] at this

theorem Clean.head {path : Text} (h : Clean path) : path.head? ≠ some '/' := by
  intro hhead
  obtain ⟨rest, rfl⟩ := List.head?_eq_some_iff.mp hhead
  have := h.components [] (by simp [List.splitOn_cons_eq_if_modifyHead])
  simp [badComponent] at this

theorem Clean.last {path : Text} (h : Clean path) : path.getLast? ≠ some '/' := by
  intro hlast
  obtain ⟨front, rfl⟩ := List.getLast?_eq_some_iff.mp hlast
  have := h.components [] (by rw [List.splitOn_append_cons_self]; simp)
  simp [badComponent] at this

theorem parts_eq_ok {path : Text} {l : List Text} :
    parts path = .ok l ↔ Clean path ∧ l = path.splitOn '/' := by
  constructor
  · intro h
    unfold parts at h
    split at h
    · cases h
    rename_i hchars
    split at h
    · cases h
    split at h
    · cases h
    rename_i hcomponents
    cases h
    rw [not_or] at hchars
    refine ⟨⟨hchars.1, hchars.2, fun part hpart => ?_⟩, rfl⟩
    by_contra hbad
    exact hcomponents (List.any_eq_true.mpr ⟨part, hpart, by simpa using hbad⟩)
  · rintro ⟨h, rfl⟩
    have hcomponents : ¬(path.splitOn '/').any badComponent = true := by
      intro hany
      obtain ⟨part, hpart, hbad⟩ := List.any_eq_true.mp hany
      rw [h.components part hpart] at hbad
      cases hbad
    unfold parts
    rw [if_neg (not_or.mpr ⟨h.backslash, h.nul⟩),
      if_neg (not_or.mpr ⟨h.ne_nil, not_or.mpr ⟨h.head, h.last⟩⟩), if_neg hcomponents]

theorem clean_append {front rest : Text} :
    Clean (front ++ '/' :: rest) ↔ Clean front ∧ Clean rest := by
  constructor
  · rintro ⟨hslash, hnul, hparts⟩
    rw [List.splitOn_append_cons_self] at hparts
    simp only [List.mem_append, List.mem_cons, not_or] at hslash hnul
    exact ⟨⟨hslash.1, hnul.1, fun part hpart => hparts part (List.mem_append_left _ hpart)⟩,
      ⟨hslash.2.2, hnul.2.2, fun part hpart => hparts part (List.mem_append_right _ hpart)⟩⟩
  · rintro ⟨hfront, hrest⟩
    refine ⟨?_, ?_, fun part hpart => ?_⟩
    · simp only [List.mem_append, List.mem_cons, not_or]
      exact ⟨hfront.backslash, by decide, hrest.backslash⟩
    · simp only [List.mem_append, List.mem_cons, not_or]
      exact ⟨hfront.nul, by decide, hrest.nul⟩
    · rw [List.splitOn_append_cons_self] at hpart
      rcases List.mem_append.mp hpart with hpart | hpart
      · exact hfront.components part hpart
      · exact hrest.components part hpart

theorem clean_component {name : Text} (hslash : '/' ∉ name) :
    Clean name ↔ '\\' ∉ name ∧ '\x00' ∉ name ∧ badComponent name = false := by
  have hsplit : name.splitOn '/' = [name] := List.splitOn_eq_singleton hslash
  constructor
  · intro h
    exact ⟨h.backslash, h.nul, h.components name (by rw [hsplit]; exact List.mem_cons_self ..)⟩
  · rintro ⟨hback, hnul, hbad⟩
    refine ⟨hback, hnul, fun part hpart => ?_⟩
    rw [hsplit, List.mem_singleton] at hpart
    rw [hpart]
    exact hbad

theorem join_clean {directory : Text} (h : Clean directory) (name : Text) :
    join directory name = directory ++ '/' :: name := by
  unfold join
  rw [if_neg h.ne_nil]
  congr 1
  refine List.rdropWhile_eq_self_iff.mpr fun hne hslash => ?_
  refine h.last ?_
  rw [List.getLast?_eq_some_getLast hne]
  simpa using hslash

/-! The grammar of locations. -/

/-- A path that `location` accepts below a known root. -/
structure Placed (layout : Layout) (rootId relative : Text) : Prop where
  root : ∃ root, layout.root rootId = some root
  backslash : '\\' ∉ relative
  components : ∀ part ∈ relative.splitOn '/', badComponent part = false

variable {layout : Layout} {fs : FileSystem}

theorem location_eq_ok {rootId relative : Text} {loc : Location} :
    location layout rootId relative = .ok loc ↔
      ∃ root, layout.root rootId = some root ∧ '\\' ∉ relative ∧
        (∀ part ∈ relative.splitOn '/', badComponent part = false) ∧
        loc = ⟨rootId, relative, root.displayPrefix.rdropWhile (· = '/') ++ '/' :: relative⟩ := by
  unfold location
  cases hroot : layout.root rootId with
  | none => simp
  | some root =>
    dsimp only
    constructor
    · intro h
      split at h
      · cases h
      rename_i hgood
      cases h
      simp only [not_or] at hgood
      refine ⟨root, rfl, hgood.2.1, fun part hpart => ?_, rfl⟩
      by_contra hbad
      exact hgood.2.2.2 (List.any_eq_true.mpr ⟨part, hpart, by simpa using hbad⟩)
    · rintro ⟨root', hroot', hback, hparts, rfl⟩
      cases hroot'
      rw [if_neg]
      rintro (rfl | hback' | hhead | hany)
      · have := hparts [] (by simp)
        simp [badComponent] at this
      · exact hback hback'
      · obtain ⟨rest, rfl⟩ := List.head?_eq_some_iff.mp hhead
        have := hparts [] (by simp [List.splitOn_cons_eq_if_modifyHead])
        simp [badComponent] at this
      · obtain ⟨part, hpart, hbad⟩ := List.any_eq_true.mp hany
        rw [hparts part hpart] at hbad
        cases hbad

theorem placed_iff {rootId relative : Text} :
    Placed layout rootId relative ↔ ∃ loc, location layout rootId relative = .ok loc := by
  constructor
  · rintro ⟨⟨root, hroot⟩, hback, hparts⟩
    exact ⟨_, location_eq_ok.mpr ⟨root, hroot, hback, hparts, rfl⟩⟩
  · rintro ⟨loc, h⟩
    obtain ⟨root, hroot, hback, hparts, _⟩ := location_eq_ok.mp h
    exact ⟨⟨root, hroot⟩, hback, hparts⟩

theorem Clean.placed {rootId relative : Text} {root : Root} (h : Clean relative)
    (hroot : layout.root rootId = some root) : Placed layout rootId relative :=
  ⟨⟨root, hroot⟩, h.backslash, h.components⟩

/-- The path below the sandbox of a path below a root. -/
def below (root : Root) (relative : Text) : Text :=
  if root.base = [] then relative else root.base ++ '/' :: relative

theorem physical_eq_ok {loc : Location} {path : Text} :
    physical layout loc = .ok path ↔ Placed layout loc.rootId loc.relativePath ∧
      ∃ root, layout.root loc.rootId = some root ∧ path = below root loc.relativePath := by
  constructor
  · intro h
    obtain ⟨checked, hchecked, h⟩ := bind_eq_ok.mp h
    obtain ⟨root, hroot, hback, hparts, rfl⟩ := location_eq_ok.mp hchecked
    dsimp only at h
    rw [hroot] at h
    cases h
    exact ⟨⟨⟨root, hroot⟩, hback, hparts⟩, root, hroot, rfl⟩
  · rintro ⟨hplaced, root, hroot, rfl⟩
    obtain ⟨checked, hchecked⟩ := placed_iff.mp hplaced
    obtain ⟨_, _, _, _, rfl⟩ := location_eq_ok.mp hchecked
    refine bind_eq_ok.mpr ⟨_, hchecked, ?_⟩
    dsimp only
    rw [hroot]
    rfl

/-- Roots whose directories the file system accepts. -/
def Rooted (layout : Layout) : Prop :=
  ∀ (rootId : Text) root, layout.root rootId = some root → root.base = [] ∨ Clean root.base

theorem below_clean {rootId relative : Text} {root : Root} (hrooted : Rooted layout)
    (hroot : layout.root rootId = some root) (h : Clean relative) :
    Clean (below root relative) := by
  unfold below
  split
  · exact h
  · rename_i hbase
    exact clean_append.mpr ⟨(hrooted rootId root hroot).resolve_left hbase, h⟩

theorem clean_of_below {relative : Text} {root : Root} (h : Clean (below root relative)) :
    Clean relative := by
  unfold below at h
  split at h
  · exact h
  · exact (clean_append.mp h).2

/-! Where both grammars accept a path, only the operating system is left to answer. -/

theorem physical_clean {rootId relative : Text} {root : Root} {loc : Location}
    (hroot : layout.root rootId = some root)
    (hloc : location layout rootId relative = .ok loc) :
    physical layout loc = .ok (below root relative) := by
  obtain ⟨_, _, hback, hparts, rfl⟩ := location_eq_ok.mp hloc
  exact physical_eq_ok.mpr ⟨⟨⟨root, hroot⟩, hback, hparts⟩, root, hroot, rfl⟩

theorem occupied_clean {path : Text} (h : Clean path) : fs.occupied path = fs.exists_ path := by
  unfold FileSystem.occupied
  rw [parts_eq_ok.mpr ⟨h, rfl⟩]
  rfl

theorem identity_clean {path : Text} (h : Clean path) : fs.identity path = fs.stat path := by
  unfold FileSystem.identity
  rw [parts_eq_ok.mpr ⟨h, rfl⟩]
  rfl

theorem existsAt_clean {rootId relative : Text} {root : Root} {loc : Location}
    (hrooted : Rooted layout) (hroot : layout.root rootId = some root) (hclean : Clean relative)
    (hloc : location layout rootId relative = .ok loc) :
    existsAt layout fs loc = fs.exists_ (below root relative) := by
  unfold existsAt
  rw [physical_clean hroot hloc]
  exact occupied_clean (below_clean hrooted hroot hclean)

theorem sourceInfo_clean {rootId relative : Text} {root : Root} {loc : Location}
    (hrooted : Rooted layout) (hroot : layout.root rootId = some root) (hclean : Clean relative)
    (hloc : location layout rootId relative = .ok loc) :
    (∃ info, sourceInfo layout fs loc = .ok info) ↔
      ∃ observed, fs.stat (below root relative) = .ok observed := by
  unfold sourceInfo
  rw [physical_clean hroot hloc]
  have hidentity : fs.identity (below root relative) = fs.stat (below root relative) :=
    identity_clean (below_clean hrooted hroot hclean)
  constructor
  · rintro ⟨info, h⟩
    obtain ⟨path, hpath, h⟩ := bind_eq_ok.mp h
    cases hpath
    obtain ⟨observed, hobserved, _⟩ := bind_eq_ok.mp h
    exact ⟨observed, hidentity ▸ hobserved⟩
  · rintro ⟨observed, h⟩
    exact ⟨_, bind_eq_ok.mpr ⟨_, rfl, bind_eq_ok.mpr ⟨observed, hidentity.trans h, rfl⟩⟩⟩

theorem keepsParts (layout : Layout) (fs : FileSystem) :
    PlanSpecification.KeepsParts (adapters layout fs) := by
  intro rootId path place hplace
  obtain ⟨_, _, _, _, rfl⟩ := location_eq_ok.mp hplace
  rfl

end Lookups
