import Mathlib.Data.List.Infix
import Mathlib.Data.List.Basic
import Mathlib.Tactic.Common
import WiseWay.OrderedDicts

/-! # File systems and the programs that run on them

A file system maps paths to nodes; whatever has a node stands in a directory. A program
returns a value or fails, and either way leaves a file system behind. -/
namespace FileStores

open OrderedDicts

/-- What stands at a path. A link or a special file is neither a file nor a directory, and may
or may not lead to something. -/
inductive Node (β : Type)
  | file (content : β)
  | directory
  | other (reached : Bool)
  deriving DecidableEq

variable {ν β : Type} [DecidableEq ν]

structure FileSystem (ν β : Type) [DecidableEq ν] where
  nodes : OrderedDict (List ν) (Node β)
  root : nodes.get [] = some .directory
  parent : ∀ path name, nodes.get (path ++ [name]) ≠ none → nodes.get path = some .directory

def FileSystem.get (fs : FileSystem ν β) (path : List ν) : Option (Node β) := fs.nodes.get path

/-- The part of a file system at and below a path. -/
def FileSystem.tree (fs : FileSystem ν β) (path : List ν) : List ν → Option (Node β) :=
  fun relative => fs.get (path ++ relative)

def childName (path other : List ν) : Option ν :=
  match other.getLast? with
  | none => none
  | some name => if other = path ++ [name] then some name else none

def FileSystem.names (fs : FileSystem ν β) (path : List ν) : List ν :=
  fs.nodes.keys.filterMap (childName path)

theorem childName_eq_some {path other : List ν} {name : ν} :
    childName path other = some name ↔ other = path ++ [name] := by
  constructor
  · intro h
    unfold childName at h
    cases hlast : other.getLast? with
    | none =>
      rw [hlast] at h
      cases h
    | some last =>
      simp only [hlast] at h
      by_cases heq : other = path ++ [last]
      · rw [if_pos heq] at h
        rw [← Option.some.inj h]
        exact heq
      · rw [if_neg heq] at h
        cases h
  · rintro rfl
    simp [childName]

variable {fs fs' : FileSystem ν β} {path target q : List ν} {name : ν} {node : Node β}

theorem mem_names : name ∈ fs.names path ↔ fs.get (path ++ [name]) ≠ none := by
  rw [FileSystem.names, List.mem_filterMap, FileSystem.get, ← Option.isSome_iff_ne_none,
    get_isSome]
  constructor
  · rintro ⟨other, hmem, hname⟩
    rwa [← childName_eq_some.mp hname]
  · intro h
    exact ⟨_, h, childName_eq_some.mpr rfl⟩

theorem names_nodup (fs : FileSystem ν β) (path : List ν) : (fs.names path).Nodup := by
  apply List.Nodup.filterMap _ fs.nodes.distinct
  intro a a' name ha ha'
  rw [childName_eq_some.mp ha, childName_eq_some.mp ha']

theorem directory_above (relative : List ν) (h : fs.get (path ++ relative) ≠ none)
    (hne : relative ≠ []) : fs.get path = some .directory := by
  induction relative using List.reverseRecOn with
  | nil => exact absurd rfl hne
  | append_singleton relative name ih =>
    rw [← List.append_assoc] at h
    have hparent : fs.get (path ++ relative) = some .directory := fs.parent _ _ h
    by_cases hrelative : relative = []
    · rwa [hrelative, List.append_nil] at hparent
    · exact ih (by rw [hparent]; exact Option.some_ne_none _) hrelative

theorem present_above (relative : List ν) (h : fs.get (path ++ relative) ≠ none) :
    fs.get path ≠ none := by
  by_cases hne : relative = []
  · rwa [hne, List.append_nil] at h
  · rw [directory_above relative h hne]
    exact Option.some_ne_none _

/-- Without a node that has nothing below it. -/
def FileSystem.erase (fs : FileSystem ν β) (path : List ν) (hne : path ≠ [])
    (hempty : ∀ name, fs.get (path ++ [name]) = none) : FileSystem ν β where
  nodes := fs.nodes.pop path
  root := by
    rw [get_pop, if_neg hne.symm]
    exact fs.root
  parent := by
    intro above name hchild
    rw [get_pop] at hchild ⊢
    by_cases hgone : above ++ [name] = path
    · rw [if_pos hgone] at hchild
      exact absurd rfl hchild
    · rw [if_neg hgone] at hchild
      have hself : above ≠ path := by
        intro heq
        have hnone : fs.nodes.get (path ++ [name]) = none := hempty name
        rw [heq, hnone] at hchild
        exact hchild rfl
      rw [if_neg hself]
      exact fs.parent above name hchild

theorem empty_of_not_directory (h : fs.get path ≠ some .directory) (name : ν) :
    fs.get (path ++ [name]) = none := by
  by_contra hchild
  exact h (fs.parent path name hchild)

theorem empty_of_names (h : fs.names path = []) (name : ν) : fs.get (path ++ [name]) = none := by
  by_contra hchild
  have hmem := mem_names.mpr hchild
  rw [h] at hmem
  cases hmem

theorem get_erase (hne : path ≠ []) (hempty : ∀ name, fs.get (path ++ [name]) = none) :
    (fs.erase path hne hempty).get q = if q = path then none else fs.get q := get_pop

def FileSystem.height (fs : FileSystem ν β) : ℕ :=
  (fs.nodes.keys.map List.length).foldr max 0

theorem length_le_height (h : fs.get path ≠ none) : path.length ≤ fs.height := by
  have hmem : path ∈ fs.nodes.keys := by
    rw [FileSystem.get, ← Option.isSome_iff_ne_none] at h
    exact get_isSome.mp h
  unfold FileSystem.height
  generalize fs.nodes.keys = keys at hmem
  induction keys with
  | nil => cases hmem
  | cons key keys ih =>
    rw [List.map_cons, List.foldr_cons]
    rcases List.mem_cons.mp hmem with rfl | hmem
    · exact le_max_left _ _
    · exact le_trans (ih hmem) (le_max_right _ _)

/-- A file system without what was at and below a path, and nothing else changed. -/
def Removed (path : List ν) (fs fs' : FileSystem ν β) : Prop :=
  ∀ q, fs'.get q = if path <+: q then none else fs.get q

theorem removed_absent (h : fs.get path = none) : Removed path fs fs := by
  intro q
  by_cases hbelow : path <+: q
  · rw [if_pos hbelow]
    obtain ⟨relative, rfl⟩ := hbelow
    by_contra hsome
    exact present_above relative hsome h
  · rw [if_neg hbelow]

omit [DecidableEq ν] in
theorem child_below {name other : ν} : path ++ [name] <+: path ++ [other] ↔ name = other := by
  rw [List.prefix_append_right_inj, List.cons_prefix_cons]
  exact and_iff_left (List.nil_prefix)

/-! ## Operations -/

variable [DecidableEq β]

def FileSystem.add (fs : FileSystem ν β) (path : List ν) (node : Node β) :
    Option (FileSystem ν β) :=
  if h : path ≠ [] ∧ fs.get path = none ∧ fs.get path.dropLast = some .directory then
    some
      { nodes := fs.nodes.set path node
        root := by
          rw [get_set, if_neg h.1.symm]
          exact fs.root
        parent := by
          intro above name hchild
          rw [get_set] at hchild ⊢
          by_cases hnew : above ++ [name] = path
          · have habove : above = path.dropLast := by rw [← hnew, List.dropLast_concat]
            have hself : above ≠ path := by
              intro heq
              have hlength := congrArg List.length hnew
              rw [heq, List.length_append, List.length_singleton] at hlength
              omega
            rw [if_neg hself, habove]
            exact h.2.2
          · rw [if_neg hnew] at hchild
            have hparent := fs.parent above name hchild
            have hself : above ≠ path := by
              intro heq
              have hnone : fs.nodes.get path = none := h.2.1
              rw [heq, hnone] at hparent
              cases hparent
            rwa [if_neg hself] }
  else none

def FileSystem.unlink (fs : FileSystem ν β) (path : List ν) : Option (FileSystem ν β) :=
  if h : path ≠ [] ∧ fs.get path ≠ none ∧ fs.get path ≠ some .directory then
    some (fs.erase path h.1 (empty_of_not_directory h.2.2))
  else none

def FileSystem.rmdir (fs : FileSystem ν β) (path : List ν) : Option (FileSystem ν β) :=
  if h : path ≠ [] ∧ fs.get path = some .directory ∧ fs.names path = [] then
    some (fs.erase path h.1 (empty_of_names h.2.2))
  else none

theorem add_succeeds (node : Node β) (hne : path ≠ []) (hfree : fs.get path = none)
    (hparent : fs.get path.dropLast = some .directory) :
    ∃ fs', fs.add path node = some fs' := by
  rw [FileSystem.add, dif_pos ⟨hne, hfree, hparent⟩]
  exact ⟨_, rfl⟩

theorem get_add (h : fs.add path node = some fs') :
    fs'.get q = if q = path then some node else fs.get q := by
  by_cases hok : path ≠ [] ∧ fs.get path = none ∧ fs.get path.dropLast = some .directory
  · rw [FileSystem.add, dif_pos hok] at h
    rw [← Option.some.inj h]
    exact get_set
  · rw [FileSystem.add, dif_neg hok] at h
    cases h

theorem nodes_add (h : fs.add path node = some fs') : fs'.nodes = fs.nodes.set path node := by
  by_cases hok : path ≠ [] ∧ fs.get path = none ∧ fs.get path.dropLast = some .directory
  · rw [FileSystem.add, dif_pos hok] at h
    rw [← Option.some.inj h]
  · rw [FileSystem.add, dif_neg hok] at h
    cases h

theorem get_unlink (h : fs.unlink path = some fs') :
    fs'.get q = if q = path then none else fs.get q := by
  by_cases hok : path ≠ [] ∧ fs.get path ≠ none ∧ fs.get path ≠ some .directory
  · rw [FileSystem.unlink, dif_pos hok] at h
    rw [← Option.some.inj h]
    exact get_erase _ _
  · rw [FileSystem.unlink, dif_neg hok] at h
    cases h

/-! ## Programs -/


def Run (σ α : Type) := σ → Option α × σ

instance {σ : Type} : Monad (Run σ) where
  pure a := fun s => (some a, s)
  bind run next := fun s =>
    match run s with
    | (some a, s') => next a s'
    | (none, s') => (none, s')

instance {σ : Type} : LawfulMonad (Run σ) := LawfulMonad.mk' (Run σ)
  (by
    intro α run
    funext s
    show (match run s with | (some a, s') => (some a, s') | (none, s') => (none, s')) = run s
    rcases run s with ⟨_ | a, s'⟩ <;> rfl)
  (by
    intro α β a next
    rfl)
  (by
    intro α β γ run next more
    funext s
    show (match (match run s with | (some a, s') => next a s' | (none, s') => (none, s')) with
      | (some b, s') => more b s' | (none, s') => (none, s')) = _
    rcases hrun : run s with ⟨_ | a, s'⟩
    · show _ = (match run s with | (some a, s') => (next a >>= more) s' | (none, s') => (none, s'))
      rw [hrun]
    · show _ = (match run s with | (some a, s') => (next a >>= more) s' | (none, s') => (none, s'))
      rw [hrun]
      rfl)

section run

variable {σ α γ : Type}

theorem run_bind (run : Run σ α) (next : α → Run σ γ) (s : σ) :
    (run >>= next) s =
      match run s with
      | (some a, s') => next a s'
      | (none, s') => (none, s') := rfl

theorem bind_some {run : Run σ α} {next : α → Run σ γ} {s s' : σ} {a : α}
    (h : run s = (some a, s')) : (run >>= next) s = next a s' := by
  rw [run_bind, h]

theorem bind_none {run : Run σ α} {next : α → Run σ γ} {s s' : σ} (h : run s = (none, s')) :
    (run >>= next) s = (none, s') := by
  rw [run_bind, h]

theorem bind_eq_some {run : Run σ α} {next : α → Run σ γ} {s s' : σ} {c : γ}
    (h : (run >>= next) s = (some c, s')) :
    ∃ a between, run s = (some a, between) ∧ next a between = (some c, s') := by
  rw [run_bind] at h
  rcases hrun : run s with ⟨_ | a, between⟩
  · rw [hrun] at h
    cases h
  · rw [hrun] at h
    exact ⟨a, between, rfl, h⟩

def reads (look : σ → Option α) : Run σ α := fun s => (look s, s)

def changes (change : σ → Option σ) : Run σ Unit := fun s =>
  match change s with
  | some s' => (some (), s')
  | none => (none, s)

theorem changes_some {change : σ → Option σ} {s s' : σ} (h : change s = some s') :
    changes change s = (some (), s') := by
  rw [changes, h]

end run

def mkdir (path : List ν) : Run (FileSystem ν β) Unit := changes fun fs => fs.add path .directory

def createFile (path : List ν) (content : β) : Run (FileSystem ν β) Unit :=
  changes fun fs => fs.add path (.file content)

def isDirectory (node : Node β) : Bool := node = .directory

def removeNode (removeBelow : List ν → Run (FileSystem ν β) Unit) (path : List ν) :
    Run (FileSystem ν β) Unit := do
  let node ← reads fun fs => fs.get path
  if isDirectory node then removeBelow path
  else changes fun fs => fs.unlink path

/-- Removes what stands at and below a path, without following links. -/
def removeTree : ℕ → List ν → Run (FileSystem ν β) Unit
  | 0, _ => reads fun _ => none
  | fuel + 1, path => do
    let info ← reads fun fs => some (fs.get path)
    match info with
    | none => pure ()
    | some node =>
      if isDirectory node then do
        let entries ← reads fun fs => some (fs.names path)
        entries.forM fun name => removeNode (removeTree fuel) (path ++ [name])
        changes fun fs => fs.rmdir path
      else changes fun fs => fs.unlink path

/-! ## Removal -/

theorem removed_unlink (h : fs.get path ≠ some .directory) (hnode : fs.get path ≠ none)
    (hne : path ≠ []) :
    ∃ fs', changes (fun fs => fs.unlink path) fs = (some (), fs') ∧ Removed path fs fs' := by
  have hsome : fs.unlink path = some (fs.erase path hne (empty_of_not_directory h)) := by
    rw [FileSystem.unlink, dif_pos ⟨hne, hnode, h⟩]
  refine ⟨_, changes_some hsome, ?_⟩
  intro q
  rw [get_unlink hsome]
  by_cases hq : q = path
  · rw [if_pos hq, if_pos (hq ▸ List.prefix_refl q)]
  · rw [if_neg hq]
    by_cases hbelow : path <+: q
    · rw [if_pos hbelow]
      obtain ⟨relative, rfl⟩ := hbelow
      by_contra hsome
      have hrelative : relative ≠ [] := by
        intro heq
        exact hq (by rw [heq, List.append_nil])
      exact h (directory_above relative hsome hrelative)
    · rw [if_neg hbelow]

theorem children_removed {removeBelow : List ν → Run (FileSystem ν β) Unit} {bound : ℕ}
    (hremove : ∀ (fs : FileSystem ν β) (path : List ν), path ≠ [] →
      (∀ relative, fs.get (path ++ relative) ≠ none → relative.length < bound) →
      fs.get path = some .directory →
      ∃ fs', removeBelow path fs = (some (), fs') ∧ Removed path fs fs')
    (names : List ν) (hnodup : names.Nodup)
    (hpresent : ∀ name ∈ names, fs.get (path ++ [name]) ≠ none)
    (hbound : ∀ relative, fs.get (path ++ relative) ≠ none → relative.length < bound + 1) :
    ∃ fs', names.forM (fun name => removeNode removeBelow (path ++ [name])) fs = (some (), fs') ∧
      ∀ q, fs'.get q = if ∃ name ∈ names, path ++ [name] <+: q then none else fs.get q := by
  induction names generalizing fs with
  | nil =>
    refine ⟨fs, rfl, ?_⟩
    intro q
    rw [if_neg (by simp)]
  | cons name names ih =>
    have hnode := hpresent name List.mem_cons_self
    obtain ⟨node, hget⟩ := Option.ne_none_iff_exists'.mp hnode
    have hfirst : ∃ between, removeNode removeBelow (path ++ [name]) fs = (some (), between) ∧
        Removed (path ++ [name]) fs between := by
      rw [removeNode, bind_some (show reads _ fs = (some node, fs) by rw [reads, hget])]
      by_cases hdir : node = .directory
      · rw [if_pos (by rw [hdir]; rfl)]
        apply hremove fs _ (by simp) _ (by rw [hget, hdir])
        intro relative hrelative
        have hlong := hbound (name :: relative) (by simpa using hrelative)
        rw [List.length_cons] at hlong
        omega
      · rw [if_neg (by simpa [isDirectory] using hdir)]
        exact removed_unlink (by rw [hget]; simpa using hdir) hnode (by simp)
    obtain ⟨between, hrun, hbetween⟩ := hfirst
    have hshrunk : ∀ q, between.get q ≠ none → fs.get q ≠ none := by
      intro q hq
      rw [hbetween q] at hq
      by_cases hbelow : path ++ [name] <+: q
      · rw [if_pos hbelow] at hq
        exact absurd rfl hq
      · rwa [if_neg hbelow] at hq
    have hothers : ∀ other ∈ names, between.get (path ++ [other]) ≠ none := by
      intro other hother
      have hne : name ≠ other := by
        rintro rfl
        exact (List.nodup_cons.mp hnodup).1 hother
      rw [hbetween, if_neg (by rw [child_below]; exact hne)]
      exact hpresent other (List.mem_cons_of_mem _ hother)
    obtain ⟨fs', hrest, hget'⟩ := ih (List.nodup_cons.mp hnodup).2 hothers
      fun relative h => hbound relative (hshrunk _ h)
    refine ⟨fs', ?_, ?_⟩
    · exact (bind_some hrun).trans hrest
    · intro q
      rw [hget' q, hbetween q]
      by_cases hin : ∃ other ∈ names, path ++ [other] <+: q
      · rw [if_pos hin, if_pos]
        obtain ⟨other, hother, hbelow⟩ := hin
        exact ⟨other, List.mem_cons_of_mem _ hother, hbelow⟩
      · rw [if_neg hin]
        by_cases hbelow : path ++ [name] <+: q
        · rw [if_pos hbelow, if_pos ⟨name, List.mem_cons_self, hbelow⟩]
        · rw [if_neg hbelow, if_neg]
          rintro ⟨other, hother, hq⟩
          rcases List.mem_cons.mp hother with rfl | hother
          · exact hbelow hq
          · exact hin ⟨other, hother, hq⟩

/-- Removing a tree takes away everything at and below its path. -/
theorem removeTree_spec {fuel : ℕ} (hfuel : 0 < fuel) (hne : path ≠ [])
    (hbound : ∀ relative, fs.get (path ++ relative) ≠ none → relative.length < fuel) :
    ∃ fs', removeTree fuel path fs = (some (), fs') ∧ Removed path fs fs' := by
  induction fuel generalizing fs path with
  | zero => exact absurd hfuel (lt_irrefl 0)
  | succ fuel ih =>
    rw [removeTree, bind_some (show reads _ fs = (some (fs.get path), fs) from rfl)]
    cases hget : fs.get path with
    | none => exact ⟨fs, rfl, removed_absent hget⟩
    | some node =>
      by_cases hdir : node = .directory
      · subst hdir
        have hchildren : ∃ between, (fs.names path).forM
            (fun name => removeNode (removeTree fuel) (path ++ [name])) fs = (some (), between) ∧
            ∀ q, between.get q =
              if ∃ name ∈ fs.names path, path ++ [name] <+: q then none else fs.get q := by
          apply children_removed _ (fs.names path) (names_nodup fs path)
            (fun name hname => mem_names.mp hname) hbound
          intro fs path hne hbound hpresent
          have hself := hbound [] (by rw [List.append_nil, hpresent]; exact Option.some_ne_none _)
          exact ih (by simpa using hself) hne hbound
        obtain ⟨between, hloop, hbetween⟩ := hchildren
        have hself : between.get path = some .directory := by
          rw [hbetween, if_neg, hget]
          rintro ⟨name, -, hbelow⟩
          have hlength := hbelow.length_le
          rw [List.length_append, List.length_singleton] at hlength
          omega
        have hempty : between.names path = [] := by
          rw [List.eq_nil_iff_forall_not_mem]
          intro name hname
          apply mem_names.mp hname
          rw [hbetween]
          by_cases hin : name ∈ fs.names path
          · rw [if_pos ⟨name, hin, List.prefix_refl _⟩]
          · rw [mem_names, not_not] at hin
            rw [hin, ite_self]
        have hrmdir : between.rmdir path =
            some (between.erase path hne (empty_of_names hempty)) := by
          rw [FileSystem.rmdir, dif_pos ⟨hne, hself, hempty⟩]
        refine ⟨between.erase path hne (empty_of_names hempty), ?_, ?_⟩
        · show (if isDirectory .directory then _ else _ : Run (FileSystem ν β) Unit) fs = _
          rw [if_pos (show isDirectory (.directory : Node β) = true from rfl),
            bind_some (show reads _ fs = (some (fs.names path), fs) from rfl),
            bind_some hloop]
          exact changes_some hrmdir
        · intro q
          rw [get_erase, hbetween]
          by_cases hq : q = path
          · rw [if_pos hq, if_pos (hq ▸ List.prefix_refl q)]
          · rw [if_neg hq]
            by_cases hbelow : path <+: q
            · rw [if_pos hbelow]
              obtain ⟨relative, rfl⟩ := hbelow
              cases relative with
              | nil => exact absurd (List.append_nil path) hq
              | cons name rest =>
                by_cases hin : name ∈ fs.names path
                · rw [if_pos ⟨name, hin, ⟨rest, by simp⟩⟩]
                · rw [mem_names, not_not] at hin
                  have hgone : fs.get (path ++ name :: rest) = none := by
                    by_contra hsome
                    rw [show path ++ name :: rest = (path ++ [name]) ++ rest by simp] at hsome
                    exact present_above rest hsome hin
                  rw [hgone, ite_self]
            · rw [if_neg hbelow, if_neg]
              rintro ⟨name, -, hname⟩
              exact hbelow ((List.prefix_append path [name]).trans hname)
      · show ∃ fs', (if isDirectory node then _ else _ : Run (FileSystem ν β) Unit) fs = _ ∧ _
        rw [if_neg (by simpa [isDirectory] using hdir)]
        exact removed_unlink (by rw [hget]; simpa using hdir) (by rw [hget]; simp) hne

/-! ## Programs confined to a tree -/

section confined

variable {α γ : Type}

/-- Nothing has changed but at or below a path. -/
def Under (path : List ν) (fs fs' : FileSystem ν β) : Prop :=
  ∀ q, ¬ path <+: q → fs'.get q = fs.get q

/-- Whether it succeeds or fails, a program changes nothing but at or below a path. -/
def Confined (path : List ν) (run : Run (FileSystem ν β) α) : Prop :=
  ∀ fs, Under path fs (run fs).2

omit [DecidableEq β] in
theorem confined_pure (path : List ν) (a : α) :
    Confined path (pure a : Run (FileSystem ν β) α) := fun _ _ _ => rfl

omit [DecidableEq β] in
theorem confined_reads (path : List ν) (look : FileSystem ν β → Option α) :
    Confined path (reads look) := fun _ _ _ => rfl

omit [DecidableEq β] in
theorem Confined.bind {run : Run (FileSystem ν β) α} {next : α → Run (FileSystem ν β) γ}
    (h : Confined path run) (hnext : ∀ a, Confined path (next a)) :
    Confined path (run >>= next) := by
  intro fs q hq
  have hrun := h fs q hq
  rw [run_bind]
  rcases hstep : run fs with ⟨_ | a, between⟩
  · rw [hstep] at hrun
    exact hrun
  · rw [hstep] at hrun
    exact (hnext a between q hq).trans hrun

theorem confined_add (h : target <+: path) (node : Node β) :
    Confined target (changes fun fs : FileSystem ν β => fs.add path node) := by
  intro fs q hq
  cases hadd : fs.add path node with
  | none =>
    rw [changes, hadd]
  | some fs' =>
    rw [changes_some hadd, get_add hadd, if_neg]
    rintro rfl
    exact hq h

omit [DecidableEq β] in
theorem confined_forM {f : α → Run (FileSystem ν β) Unit} (h : ∀ a, Confined path (f a)) :
    ∀ l : List α, Confined path (l.forM f)
  | [] => confined_pure path ()
  | a :: l => (h a).bind fun _ => confined_forM h l

omit [DecidableEq β] in
theorem confined_mapM {f : α → Run (FileSystem ν β) γ} (h : ∀ a, Confined path (f a))
    (l : List α) : Confined path (l.mapM f) := by
  induction l with
  | nil => exact confined_pure path []
  | cons a l ih =>
    rw [List.mapM_cons]
    exact (h a).bind fun c => ih.bind fun cs => confined_pure path _

/-- A program at whose failure the tree it works on is removed. -/
def guarded (path : List ν) (body : Run (FileSystem ν β) α) : Run (FileSystem ν β) α := fun fs =>
  match body fs with
  | (some a, fs') => (some a, fs')
  | (none, fs') => (none, (removeTree (fs'.height + 1) path fs').2)

/-- When a confined program fails on a tree made for it, all is as before the tree. -/
theorem guarded_failure {body : Run (FileSystem ν β) α} {before fs' : FileSystem ν β}
    (hbody : Confined path body) (hadd : before.add path .directory = some fs)
    (h : guarded path body fs = (none, fs')) (q : List ν) : fs'.get q = before.get q := by
  have hfree : path ≠ [] ∧ before.get path = none := by
    by_cases hok : path ≠ [] ∧ before.get path = none ∧
        before.get path.dropLast = some .directory
    · exact ⟨hok.1, hok.2.1⟩
    · rw [FileSystem.add, dif_neg hok] at hadd
      cases hadd
  rcases hrun : body fs with ⟨_ | a, after⟩
  · have hconfined := hbody fs
    rw [hrun] at hconfined
    have hclear : ∃ cleared, removeTree (after.height + 1) path after = (some (), cleared) ∧
        Removed path after cleared := by
      apply removeTree_spec (Nat.succ_pos after.height) hfree.1
      intro relative hsome
      have hlength := length_le_height hsome
      rw [List.length_append] at hlength
      omega
    obtain ⟨cleared, hremove, hcleared⟩ := hclear
    rw [guarded, hrun] at h
    have hfs : cleared = fs' := by
      have hsecond := congrArg Prod.snd h
      rwa [show ((none, (removeTree (after.height + 1) path after).2) : Option α × _).2 =
        cleared by rw [hremove]] at hsecond
    rw [← hfs, hcleared q]
    by_cases hbelow : path <+: q
    · rw [if_pos hbelow]
      obtain ⟨relative, rfl⟩ := hbelow
      by_contra hsome
      exact present_above relative (Ne.symm hsome) hfree.2
    · rw [if_neg hbelow, hconfined q hbelow, get_add hadd, if_neg]
      rintro rfl
      exact hbelow (List.prefix_refl _)
  · rw [guarded, hrun] at h
    cases h

end confined

/-! ## File systems written out -/

/-- What nodes that are written out have to meet to be a file system. -/
structure Rooted (nodes : OrderedDict (List ν) (Node β)) : Prop where
  root : nodes.get [] = some .directory
  parent : ∀ e ∈ nodes.entries, e.1 ≠ [] → nodes.get e.1.dropLast = some .directory

instance (nodes : OrderedDict (List ν) (Node β)) : Decidable (Rooted nodes) :=
  decidable_of_iff (nodes.get [] = some .directory ∧
      ∀ e ∈ nodes.entries, e.1 ≠ [] → nodes.get e.1.dropLast = some .directory)
    ⟨fun h => ⟨h.1, h.2⟩, fun h => ⟨h.1, h.2⟩⟩

omit [DecidableEq β] in
theorem Rooted.above {nodes : OrderedDict (List ν) (Node β)} (h : Rooted nodes) (path : List ν)
    (name : ν) (hpresent : nodes.get (path ++ [name]) ≠ none) :
    nodes.get path = some .directory := by
  obtain ⟨node, hnode⟩ := Option.ne_none_iff_exists'.mp hpresent
  have hparent := h.parent _ (get_eq_some.mp hnode) (by simp)
  rwa [List.dropLast_concat] at hparent

omit [DecidableEq β] in
theorem eq_of_entries (h : fs.nodes.entries = fs'.nodes.entries) : fs = fs' := by
  obtain ⟨⟨entries, _⟩, _, _⟩ := fs
  obtain ⟨⟨entries', _⟩, _, _⟩ := fs'
  cases h
  rfl

def ofNodes (nodes : OrderedDict (List ν) (Node β)) (h : Rooted nodes) : FileSystem ν β :=
  ⟨nodes, h.root, h.above⟩

/-! ## Making many nodes -/

theorem mkdir_spec (fs : FileSystem ν β) (path : List ν) (hne : path ≠ [])
    (hfree : fs.get path = none) (hparent : fs.get path.dropLast = some .directory) :
    ∃ fs', mkdir path fs = (some (), fs') ∧
      ∀ q, fs'.get q = if q = path then some .directory else fs.get q := by
  obtain ⟨fs', hadd⟩ := add_succeeds .directory hne hfree hparent
  exact ⟨fs', changes_some hadd, fun q => get_add hadd⟩

theorem createFile_spec (fs : FileSystem ν β) (path : List ν) (hne : path ≠ [])
    (hfree : fs.get path = none) (hparent : fs.get path.dropLast = some .directory) (content : β) :
    ∃ fs', createFile path content fs = (some (), fs') ∧
      ∀ q, fs'.get q = if q = path then some (.file content) else fs.get q := by
  obtain ⟨fs', hadd⟩ := add_succeeds (.file content) hne hfree hparent
  exact ⟨fs', changes_some hadd, fun q => get_add hadd⟩

/-- Directories can be made one after the other when each stands in one that is there or was
made before it. -/
theorem mkdirs_spec (fs : FileSystem ν β) (paths : List (List ν)) (hnodup : paths.Nodup)
    (hfree : ∀ path ∈ paths, path ≠ [] ∧ fs.get path = none)
    (hparent : ∀ before path after, paths = before ++ path :: after →
      fs.get path.dropLast = some .directory ∨ path.dropLast ∈ before) :
    ∃ fs', paths.forM mkdir fs = (some (), fs') ∧
      ∀ q, fs'.get q = if q ∈ paths then some .directory else fs.get q := by
  induction paths generalizing fs with
  | nil => exact ⟨fs, rfl, fun q => (if_neg List.not_mem_nil).symm⟩
  | cons path paths ih =>
    have hfirst := hfree path List.mem_cons_self
    have habove : fs.get path.dropLast = some .directory := by
      rcases hparent [] path paths rfl with h | h
      · exact h
      · cases h
    obtain ⟨between, hmkdir, hbetween⟩ := mkdir_spec fs path hfirst.1 hfirst.2 habove
    have hrest : ∀ p ∈ paths, p ≠ path := by
      rintro p hp rfl
      exact (List.nodup_cons.mp hnodup).1 hp
    obtain ⟨fs', hloop, hget⟩ := ih between (List.nodup_cons.mp hnodup).2
      (by
        intro p hp
        rw [hbetween, if_neg (hrest p hp)]
        exact hfree p (List.mem_cons_of_mem _ hp))
      (by
        intro before p after hsplit
        rw [hbetween]
        by_cases hself : p.dropLast = path
        · exact Or.inl (if_pos hself)
        · rw [if_neg hself]
          rcases hparent (path :: before) p after (by rw [hsplit]; rfl) with h | h
          · exact Or.inl h
          · rcases List.mem_cons.mp h with h | h
            · exact absurd h hself
            · exact Or.inr h)
    refine ⟨fs', (bind_some hmkdir).trans hloop, ?_⟩
    intro q
    rw [hget, hbetween]
    by_cases hq : q ∈ paths
    · rw [if_pos hq, if_pos (List.mem_cons_of_mem _ hq)]
    · rw [if_neg hq]
      by_cases hself : q = path
      · rw [if_pos hself, if_pos (by rw [hself]; exact List.mem_cons_self)]
      · rw [if_neg hself, if_neg]
        rw [List.mem_cons, not_or]
        exact ⟨hself, hq⟩

end FileStores
