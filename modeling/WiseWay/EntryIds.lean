import WiseWay.Changes

/-! # Identifiers of index entries

`_entry_ids` of `indexer.py`: one identifier for every directory entry of a scan. An identifier
is kept at its path, follows an unambiguous rename, or is new. -/
namespace EntryIds

open Records Intake

/-- An entry of the `_entry_ids` map of an index, stored under its path. -/
structure Identity where
  itemId : Text
  inode : ℕ × ℕ
  deriving DecidableEq, Repr

abbrev Row := Text × Fingerprint

section Assignment

variable (rootId : Text) (found : List Row) (old : Table Identity)

/-- `uid("file")` for a path, with the digits that are drawn for it. -/
def uid (hex : Text → Text) (path : Text) : Text := "file-".toList ++ hex path

def baseId (key : ℕ × ℕ) : Text := "file-".toList ++ rootId ++ dashed key.1 ++ dashed key.2

def oldIds : List Text := (list old).map (·.itemId)

/-- The entries of an inode whose path has vanished. -/
def oldByInode (key : ℕ × ℕ) : List Identity :=
  (old.toList.filter fun entry =>
    entry.1 ∉ found.map Prod.fst ∧ entry.2.inode = key).map Prod.snd

def inodeCount (key : ℕ × ℕ) : ℕ := found.countP fun row => inode row.2 = key

def newId (hex : Text → Text) (assigned : List Text) (path : Text) (key : ℕ × ℕ) : Text :=
  if baseId rootId key ∈ assigned ∨ baseId rootId key ∈ oldIds old then uid hex path
  else baseId rootId key

def entryId (hex : Text → Text) (assigned : List Text) (path : Text) (key : ℕ × ℕ) : Text :=
  match (old[path]?).filter fun exact => exact.inode = key ∧ exact.itemId ∉ assigned with
  | some exact => exact.itemId
  | none =>
    match (oldByInode found old key).filter (·.itemId ∉ assigned) with
    | [candidate] =>
      if inodeCount found key = 1 then candidate.itemId
      else newId rootId old hex assigned path key
    | _ => newId rootId old hex assigned path key

def assignRest (hex : Text → Text) : List Text → List Row → List (Text × Text)
  | _, [] => []
  | assigned, row :: rest =>
    let itemId := entryId rootId found old hex assigned row.1 (inode row.2)
    (row.1, itemId) :: assignRest hex (itemId :: assigned) rest

/-- `_entry_ids`, as the pairs of the map it returns. -/
def entryIds (hex : Text → Text) (staged : List Text) : List (Text × Text) :=
  let result := (found.map Prod.fst).zip staged
  result ++ assignRest rootId found old hex (result.map Prod.snd) (found.drop result.length)

end Assignment

variable {rootId : Text} {found : List Row} {old : Table Identity}
variable {hex : Text → Text} {assigned staged : List Text}

/-! What one assignment does. -/

inductive Origin (rootId : Text) (found : List Row) (old : Table Identity) (hex : Text → Text)
    (assigned : List Text) (path : Text) (key : ℕ × ℕ) : Text → Prop where
  | exact {e : Identity} : old[path]? = some e → e.inode = key → e.itemId ∉ assigned →
      Origin rootId found old hex assigned path key e.itemId
  | renamed {q : Text} {e : Identity} : q ∉ found.map Prod.fst → old[q]? = some e →
      e.inode = key → e.itemId ∉ assigned → inodeCount found key = 1 →
      Origin rootId found old hex assigned path key e.itemId
  | base : baseId rootId key ∉ assigned → baseId rootId key ∉ oldIds old →
      Origin rootId found old hex assigned path key (baseId rootId key)
  | drawn : Origin rootId found old hex assigned path key (uid hex path)

theorem mem_oldIds {id : Text} :
    id ∈ oldIds old ↔ ∃ (q : Text) (e : Identity), old[q]? = some e ∧ e.itemId = id := by
  simp only [oldIds, List.mem_map, mem_list]
  constructor
  · rintro ⟨e, ⟨q, hq⟩, rfl⟩
    exact ⟨q, e, hq, rfl⟩
  · rintro ⟨q, e, hq, rfl⟩
    exact ⟨e, ⟨q, hq⟩, rfl⟩

theorem mem_oldByInode {key : ℕ × ℕ} {e : Identity} :
    e ∈ oldByInode found old key ↔
      ∃ q, old[q]? = some e ∧ q ∉ found.map Prod.fst ∧ e.inode = key := by
  simp only [oldByInode, List.mem_map, List.mem_filter, decide_eq_true_eq]
  constructor
  · rintro ⟨⟨q, e'⟩, ⟨hq, hgone, hkey⟩, rfl⟩
    exact ⟨q, Std.ExtTreeMap.mem_toList_iff_getElem?_eq_some.mp hq, hgone, hkey⟩
  · rintro ⟨q, hq, hgone, hkey⟩
    exact ⟨(q, e), ⟨Std.ExtTreeMap.mem_toList_iff_getElem?_eq_some.mpr hq, hgone, hkey⟩, rfl⟩

theorem newId_origin (path : Text) (key : ℕ × ℕ) : Origin rootId found old hex assigned path key
    (newId rootId old hex assigned path key) := by
  unfold newId
  split
  · exact .drawn
  · rename_i hfree
    rw [not_or] at hfree
    exact .base hfree.1 hfree.2

theorem entryId_origin (path : Text) (key : ℕ × ℕ) : Origin rootId found old hex assigned path key
    (entryId rootId found old hex assigned path key) := by
  unfold entryId
  split
  · rename_i exact hexact
    obtain ⟨hold, hkeep⟩ := Option.filter_eq_some_iff.mp hexact
    rw [decide_eq_true_eq] at hkeep
    exact .exact hold hkeep.1 hkeep.2
  · split
    · rename_i candidate hcandidate
      split
      · rename_i hcount
        have hmem : candidate ∈ (oldByInode found old key).filter (·.itemId ∉ assigned) := by
          rw [hcandidate]
          exact List.mem_singleton_self candidate
        rw [List.mem_filter, decide_eq_true_eq] at hmem
        obtain ⟨q, hq, hgone, hkey⟩ := mem_oldByInode.mp hmem.1
        exact .renamed hgone hq hkey hmem.2 hcount
      · exact newId_origin path key
    · exact newId_origin path key

/-! The loop. -/

/-- No two entries of the map share an identifier. -/
def Distinct (old : Table Identity) : Prop :=
  ∀ (p q : Text) (e f : Identity), old[p]? = some e → old[q]? = some f → e.itemId = f.itemId → p = q

/-- What `uuid4().hex` provides: digits, never drawn twice and never in use. -/
structure Fresh (found : List Row) (old : Table Identity) (staged : List Text)
    (hex : Text → Text) : Prop where
  injective : ∀ p ∈ found.map Prod.fst, ∀ q ∈ found.map Prod.fst, hex p = hex q → p = q
  plain : ∀ path ∈ found.map Prod.fst, '-' ∉ hex path
  old : ∀ path ∈ found.map Prod.fst, uid hex path ∉ oldIds old
  staged : ∀ path ∈ found.map Prod.fst, uid hex path ∉ staged

/-- The identifiers in use are staged or come from the rows that are done. -/
def Sound (rootId : Text) (found : List Row) (old : Table Identity) (hex : Text → Text)
    (staged : List Text) (done : List Row) (assigned : List Text) : Prop :=
  ∀ id ∈ assigned, id ∈ staged ∨ ∃ row ∈ done, row ∈ found ∧ ∃ before,
    Origin rootId found old hex before row.1 (inode row.2) id

theorem uid_ne_base {path : Text} (hplain : '-' ∉ hex path) (key : ℕ × ℕ) :
    uid hex path ≠ baseId rootId key := by
  intro h
  have htail : hex path = rootId ++ dashed key.1 ++ dashed key.2 := by
    unfold uid baseId at h
    rw [List.append_assoc, List.append_assoc] at h
    rw [List.append_cancel_left h, List.append_assoc]
  apply hplain
  rw [htail]
  exact List.mem_append_right _ (List.mem_cons_self ..)

theorem Origin.inode_eq (hold : Distinct old) (hfresh : Fresh found old staged hex)
    {path id q : Text} {key : ℕ × ℕ} {e : Identity}
    (h : Origin rootId found old hex assigned path key id)
    (hpath : path ∈ found.map Prod.fst) (hq : old[q]? = some e) (hid : e.itemId = id) :
    e.inode = key ∧ (q = path ∨ q ∉ found.map Prod.fst) := by
  cases h with
  | exact hexact hkey _ =>
    obtain rfl := hold _ _ _ _ hq hexact hid
    rw [hexact] at hq
    cases hq
    exact ⟨hkey, .inl rfl⟩
  | renamed hgone hrenamed hkey _ _ =>
    obtain rfl := hold _ _ _ _ hq hrenamed hid
    rw [hrenamed] at hq
    cases hq
    exact ⟨hkey, .inr hgone⟩
  | base _ hfree => exact absurd (mem_oldIds.mpr ⟨q, e, hq, hid⟩) hfree
  | drawn => exact absurd (mem_oldIds.mpr ⟨q, e, hq, hid⟩) (hfresh.old path hpath)

theorem Sound.step {done : List Row} (h : Sound rootId found old hex staged done assigned)
    {row : Row} (hrow : row ∈ found) : Sound rootId found old hex staged (done ++ [row])
      (entryId rootId found old hex assigned row.1 (inode row.2) :: assigned) := by
  intro id hid
  rcases List.mem_cons.mp hid with rfl | hid
  · exact .inr ⟨row, List.mem_append_right _ (List.mem_singleton_self row), hrow, assigned,
      entryId_origin row.1 (inode row.2)⟩
  · rcases h id hid with hstaged | ⟨other, hother, hin, before, horigin⟩
    · exact .inl hstaged
    · exact .inr ⟨other, List.mem_append_left _ hother, hin, before, horigin⟩

theorem Sound.exact_free (hold : Distinct old) (hfresh : Fresh found old staged hex)
    {done : List Row} (h : Sound rootId found old hex staged done assigned)
    {path : Text} (hpath : path ∈ found.map Prod.fst) (hnew : path ∉ done.map Prod.fst)
    {e : Identity} (he : old[path]? = some e) (hstaged : e.itemId ∉ staged) :
    e.itemId ∉ assigned := by
  intro hassigned
  rcases h _ hassigned with hin | ⟨row, hrow, hin, before, horigin⟩
  · exact hstaged hin
  · rcases (horigin.inode_eq hold hfresh (List.mem_map_of_mem hin) he rfl).2 with rfl | hgone
    · exact hnew (List.mem_map_of_mem hrow)
    · exact hgone hpath

theorem Sound.entryId_free (hfresh : Fresh found old staged hex) {done : List Row}
    (h : Sound rootId found old hex staged done assigned) {path : Text}
    (hpath : path ∈ found.map Prod.fst) (hnew : path ∉ done.map Prod.fst) (key : ℕ × ℕ) :
    entryId rootId found old hex assigned path key ∉ assigned := by
  have horigin : Origin rootId found old hex assigned path key
    (entryId rootId found old hex assigned path key) := entryId_origin path key
  generalize hid : entryId rootId found old hex assigned path key = id at horigin
  cases horigin with
  | exact _ _ hfree => exact hfree
  | renamed _ _ _ hfree _ => exact hfree
  | base hfree _ => exact hfree
  | drawn =>
    intro hassigned
    rcases h _ hassigned with hin | ⟨row, hrow, hin, before, hother⟩
    · exact hfresh.staged path hpath hin
    · generalize hdrawn : uid hex path = id at hother
      cases hother with
      | exact hq _ _ => exact hfresh.old path hpath (hdrawn ▸ mem_oldIds.mpr ⟨_, _, hq, rfl⟩)
      | renamed _ hq _ _ _ => exact hfresh.old path hpath (hdrawn ▸ mem_oldIds.mpr ⟨_, _, hq, rfl⟩)
      | base _ _ => exact uid_ne_base (hfresh.plain path hpath) _ hdrawn
      | drawn =>
        obtain rfl := hfresh.injective path hpath _ (List.mem_map_of_mem hin)
          (List.append_cancel_left hdrawn)
        exact hnew (List.mem_map_of_mem hrow)

theorem assignRest_paths (assigned : List Text) (rest : List Row) :
    (assignRest rootId found old hex assigned rest).map Prod.fst = rest.map Prod.fst := by
  induction rest generalizing assigned with
  | nil => rfl
  | cons row rest ih =>
    rw [assignRest, List.map_cons, List.map_cons, ih]

theorem assignRest_origin (assigned : List Text) (rest : List Row) :
    ∀ pair ∈ rest.zip ((assignRest rootId found old hex assigned rest).map Prod.snd), ∃ before,
      Origin rootId found old hex before pair.1.1 (inode pair.1.2) pair.2 := by
  induction rest generalizing assigned with
  | nil => simp [assignRest]
  | cons row rest ih =>
    intro pair hpair
    rw [assignRest, List.map_cons, List.zip_cons_cons] at hpair
    rcases List.mem_cons.mp hpair with rfl | hpair
    · exact ⟨assigned, entryId_origin row.1 (inode row.2)⟩
    · exact ih _ pair hpair

theorem assignRest_nodup (hfresh : Fresh found old staged hex)
    {done rest : List Row} (h : Sound rootId found old hex staged done assigned)
    (hpaths : ((done ++ rest).map Prod.fst).Nodup) (hfound : ∀ row ∈ rest, row ∈ found) :
    ((assignRest rootId found old hex assigned rest).map Prod.snd).Nodup ∧
      ∀ id ∈ (assignRest rootId found old hex assigned rest).map Prod.snd, id ∉ assigned := by
  induction rest generalizing assigned done with
  | nil => simp [assignRest]
  | cons row rest ih =>
    have hnew : row.1 ∉ done.map Prod.fst := by
      rw [List.map_append, List.nodup_append'] at hpaths
      intro hdone
      exact hpaths.2.2 hdone (by simp)
    have hrow := hfound row (List.mem_cons_self ..)
    obtain ⟨hnodup, hfree⟩ := ih (h.step hrow) (by simpa using hpaths)
      fun other hother => hfound other (List.mem_cons_of_mem _ hother)
    rw [assignRest, List.map_cons]
    constructor
    · apply List.nodup_cons.mpr
      exact ⟨fun hmem => hfree _ hmem (List.mem_cons_self ..), hnodup⟩
    · intro id hid
      rcases List.mem_cons.mp hid with rfl | hid
      · exact h.entryId_free hfresh (List.mem_map_of_mem hrow) hnew _
      · exact fun hassigned => hfree id hid (List.mem_cons_of_mem _ hassigned)

theorem assignRest_keeps (hold : Distinct old) (hfresh : Fresh found old staged hex)
    {done rest : List Row} (h : Sound rootId found old hex staged done assigned)
    (hpaths : ((done ++ rest).map Prod.fst).Nodup) (hfound : ∀ row ∈ rest, row ∈ found) {row : Row}
    (hrow : row ∈ rest) {e : Identity} (he : old[row.1]? = some e) (hkey : e.inode = inode row.2)
    (hstaged : e.itemId ∉ staged) :
    (row.1, e.itemId) ∈ assignRest rootId found old hex assigned rest := by
  induction rest generalizing assigned done with
  | nil => cases hrow
  | cons first rest ih =>
    rcases List.mem_cons.mp hrow with rfl | hrow
    · have hnew : row.1 ∉ done.map Prod.fst := by
        rw [List.map_append, List.nodup_append'] at hpaths
        intro hdone
        exact hpaths.2.2 hdone (by simp)
      have hfree := h.exact_free hold hfresh
        (List.mem_map_of_mem (hfound row (List.mem_cons_self ..))) hnew he hstaged
      have hkept : entryId rootId found old hex assigned row.1 (inode row.2) = e.itemId := by
        unfold entryId
        rw [he, Option.filter_some, if_pos (by simp [hkey, hfree])]
      rw [assignRest, hkept]
      exact List.mem_cons_self ..
    · rw [assignRest]
      apply List.mem_cons_of_mem
      exact ih (h.step (hfound first (List.mem_cons_self ..))) (by simpa using hpaths)
        (fun other hother => hfound other (List.mem_cons_of_mem _ hother)) hrow

/-! Interrupted runs. -/

/-- What an interrupted run leaves behind: a stretch of its listing with the identifiers it has
given out. It may itself have resumed an earlier one. -/
inductive Staged (rootId : Text) (old : Table Identity) : List Row → List Text → Prop where
  | none : Staged rootId old [] []
  | interrupted {found : List Row} {hex : Text → Text} {staged : List Text} (n : ℕ) :
      (found.map Prod.fst).Nodup → Fresh found old staged hex →
      Staged rootId old (found.take staged.length) staged →
      Staged rootId old (found.take n)
        (((entryIds rootId found old hex staged).map Prod.snd).take n)

/-- Distinct identifiers for rows, none of them an old one of another inode. -/
structure Fitting (old : Table Identity) (rows : List Row) (ids : List Text) : Prop where
  length : ids.length = rows.length
  nodup : ids.Nodup
  inode : ∀ pair ∈ rows.zip ids, ∀ (q : Text) (e : Identity), old[q]? = some e →
    e.itemId = pair.2 → e.inode = Intake.inode pair.1.2

theorem Fitting.take {rows : List Row} {ids : List Text} (h : Fitting old rows ids) (n : ℕ) :
    Fitting old (rows.take n) (ids.take n) where
  length := by rw [List.length_take, List.length_take, h.length]
  nodup := h.nodup.sublist (List.take_sublist n ids)
  inode := by
    intro pair hpair
    rw [List.zip, ← List.take_zipWith] at hpair
    exact h.inode pair (List.mem_of_mem_take hpair)

section Resumed

variable (hlength : staged.length ≤ found.length)
include hlength

theorem entryIds_eq : entryIds rootId found old hex staged = (found.map Prod.fst).zip staged ++
    assignRest rootId found old hex staged (found.drop staged.length) := by
  have hmap : staged.length ≤ (found.map Prod.fst).length := by
    rw [List.length_map]
    exact hlength
  simp only [entryIds]
  rw [List.map_snd_zip hmap, List.length_zip, Nat.min_eq_right hmap]

theorem entryIds_ids : (entryIds rootId found old hex staged).map Prod.snd = staged ++
    (assignRest rootId found old hex staged (found.drop staged.length)).map Prod.snd := by
  rw [entryIds_eq hlength, List.map_append, List.map_snd_zip (by rwa [List.length_map])]

theorem entryIds_paths : (entryIds rootId found old hex staged).map Prod.fst =
    found.map Prod.fst := by
  have hmap : staged.length ≤ (found.map Prod.fst).length := by
    rw [List.length_map]
    exact hlength
  have hzip : (found.map Prod.fst).zip staged =
      ((found.take staged.length).map Prod.fst).zip staged := by
    rw [List.zip_eq_zip_take_min, Nat.min_eq_right hmap, List.take_length, List.map_take]
  rw [entryIds_eq hlength, List.map_append, assignRest_paths, hzip,
    List.map_fst_zip (by simp [hlength]), ← List.map_append, List.take_append_drop]

theorem entryIds_zip : found.zip ((entryIds rootId found old hex staged).map Prod.snd) =
    (found.take staged.length).zip staged ++ (found.drop staged.length).zip
      ((assignRest rootId found old hex staged (found.drop staged.length)).map Prod.snd) := by
  rw [entryIds_ids hlength, ← List.zip_append (List.length_take_of_le hlength),
    List.take_append_drop]

end Resumed

/-- A run gives fitting identifiers if the ones it resumes with are fitting. -/
theorem entryIds_fitting (hold : Distinct old) (hfresh : Fresh found old staged hex)
    (hpaths : (found.map Prod.fst).Nodup) (h : Fitting old (found.take staged.length) staged) :
    Fitting old found ((entryIds rootId found old hex staged).map Prod.snd) := by
  have hlength : staged.length ≤ found.length := by
    have := h.length
    rw [List.length_take] at this
    omega
  have hsound : Sound rootId found old hex staged [] staged := fun id hid => .inl hid
  have hrest : (([] ++ found.drop staged.length).map Prod.fst).Nodup := by
    rw [List.nil_append, List.map_drop]
    exact hpaths.sublist (List.drop_sublist _ _)
  obtain ⟨hnodup, hfree⟩ := assignRest_nodup hfresh hsound hrest
    fun row hrow => List.mem_of_mem_drop hrow
  constructor
  · have hpairs : (entryIds rootId found old hex staged).map Prod.fst = found.map Prod.fst :=
      entryIds_paths hlength
    have hsame := congrArg List.length hpairs
    rw [List.length_map, List.length_map] at hsame
    rw [List.length_map, hsame]
  · rw [entryIds_ids hlength]
    exact h.nodup.append hnodup fun id hstaged hloop => hfree id hloop hstaged
  · intro pair hpair q e hq hid
    rw [entryIds_zip hlength] at hpair
    rcases List.mem_append.mp hpair with hpair | hpair
    · exact h.inode pair hpair q e hq hid
    · obtain ⟨before, horigin⟩ := assignRest_origin _ _ pair hpair
      have hin := List.mem_of_mem_drop (List.of_mem_zip hpair).1
      exact (horigin.inode_eq hold hfresh (List.mem_map_of_mem hin) hq hid).1

theorem Staged.fitting (hold : Distinct old) {rows : List Row} {ids : List Text}
    (h : Staged rootId old rows ids) : Fitting old rows ids := by
  induction h with
  | none => exact ⟨rfl, List.nodup_nil, fun pair hpair => absurd hpair List.not_mem_nil⟩
  | interrupted n hpaths hfresh _ ih => exact (entryIds_fitting hold hfresh hpaths ih).take n

theorem mem_zip_of_path {rows : List Row} {pairs : List (Text × Text)}
    (hfst : pairs.map Prod.fst = rows.map Prod.fst) (hpaths : (rows.map Prod.fst).Nodup) {row : Row}
    (hrow : row ∈ rows) {id : Text} (hpair : (row.1, id) ∈ pairs) :
    (row, id) ∈ rows.zip (pairs.map Prod.snd) := by
  induction rows generalizing pairs with
  | nil => cases hrow
  | cons first rows ih =>
    cases pairs with
    | nil => cases hpair
    | cons pair pairs =>
      rw [List.map_cons, List.map_cons, List.cons.injEq] at hfst
      rw [List.map_cons, List.nodup_cons] at hpaths
      rw [List.map_cons, List.zip_cons_cons]
      rcases List.mem_cons.mp hrow with rfl | hrow
      · rcases List.mem_cons.mp hpair with rfl | hpair
        · exact List.mem_cons_self ..
        · have hin : row.1 ∈ rows.map Prod.fst := by
            rw [← hfst.2]
            exact List.mem_map_of_mem hpair
          exact absurd hin hpaths.1
      · rcases List.mem_cons.mp hpair with rfl | hpair
        · have hin : first.1 ∈ rows.map Prod.fst := by
            rw [← hfst.1]
            exact List.mem_map_of_mem hrow
          exact absurd hin hpaths.1
        · exact List.mem_cons_of_mem _ (ih hfst.2 hpaths.2 hrow hpair)

/-- Distinct identifiers for all paths; the staged ones and the old ones of unchanged paths are
kept, unless a staged row has taken them; no old one goes to another inode. -/
theorem entry_ids_stable (hold : Distinct old) (hfresh : Fresh found old staged hex)
    (hpaths : (found.map Prod.fst).Nodup)
    (hstaged : Staged rootId old (found.take staged.length) staged) :
    (entryIds rootId found old hex staged).map Prod.fst = found.map Prod.fst ∧
      ((entryIds rootId found old hex staged).map Prod.snd).Nodup ∧
      ((entryIds rootId found old hex staged).map Prod.snd).take staged.length = staged ∧
      (∀ row ∈ found.drop staged.length, ∀ e : Identity, old[row.1]? = some e →
        e.inode = inode row.2 → e.itemId ∉ staged →
        (row.1, e.itemId) ∈ entryIds rootId found old hex staged) ∧
      ∀ row ∈ found, ∀ id, (row.1, id) ∈ entryIds rootId found old hex staged →
        ∀ (q : Text) (e : Identity), old[q]? = some e → e.itemId = id → e.inode = inode row.2 := by
  have hfitting := hstaged.fitting hold
  have hall : Fitting old found ((entryIds rootId found old hex staged).map Prod.snd) :=
    entryIds_fitting hold hfresh hpaths hfitting
  have hlength : staged.length ≤ found.length := by
    have := hfitting.length
    rw [List.length_take] at this
    omega
  refine ⟨entryIds_paths hlength, hall.nodup, ?_, ?_, ?_⟩
  · rw [entryIds_ids hlength, List.take_left]
  · intro row hrow e he hkey hfree
    have hsound : Sound rootId found old hex staged [] staged := fun id hid => .inl hid
    have hrest : (([] ++ found.drop staged.length).map Prod.fst).Nodup := by
      rw [List.nil_append, List.map_drop]
      exact hpaths.sublist (List.drop_sublist _ _)
    rw [entryIds_eq hlength]
    exact List.mem_append_right _ (assignRest_keeps hold hfresh hsound hrest
      (fun other hother => List.mem_of_mem_drop hother) hrow he hkey hfree)
  · intro row hrow id hpair q e hq hid
    exact hall.inode (row, id)
      (mem_zip_of_path (entryIds_paths hlength) hpaths hrow hpair) q e hq hid

def moved : Table Identity := (∅ : Table Identity).insert ['a'] ⟨['x'], (1, 1)⟩

def listing : List Row := [(['b'], ⟨1, 1, 0, 0⟩), (['c'], ⟨1, 2, 0, 0⟩)]

/-- A run that stops after the renamed file, and the next one. -/
theorem entry_ids_stable_moved :
    (entryIds ['r'] listing moved id [['x']]).map Prod.snd = [['x'], "file-r-1-2".toList] ∧
      ((entryIds ['r'] listing moved id [['x']]).map Prod.snd).Nodup := by
  have hold : Distinct moved := by
    intro p q e f hp hq _
    simp only [moved, get_put] at hp hq
    split at hp
    · split at hq
      · rename_i h h'
        exact h.symm.trans h'
      · simp at hq
    · simp at hp
  have hfresh : Fresh listing moved [] id :=
    ⟨by decide +kernel, by decide +kernel, by decide +kernel, by decide +kernel⟩
  have hstaged : Staged ['r'] moved (listing.take 1)
      (((entryIds ['r'] listing moved id []).map Prod.snd).take 1) :=
    .interrupted 1 (by decide) hfresh .none
  rw [show ((entryIds ['r'] listing moved id []).map Prod.snd).take 1 = [['x']] by
    decide +kernel] at hstaged
  have hnext : Fresh listing moved [['x']] id :=
    ⟨by decide +kernel, by decide +kernel, by decide +kernel, by decide +kernel⟩
  exact ⟨by decide +kernel, (entry_ids_stable hold hnext (by decide) hstaged).2.1⟩

/-! The policy alone. -/

/-- The old identifier that an entry keeps in a run that resumes nothing: that of its path, or
that of the one path its inode has left. -/
def kept (old : Table Identity) (found : List Row) (path : Text) (key : ℕ × ℕ) : Option Text :=
  match (old[path]?).filter fun exact => exact.inode = key with
  | some exact => some exact.itemId
  | none =>
    match oldByInode found old key with
    | [candidate] => if inodeCount found key = 1 then some candidate.itemId else none
    | _ => none

theorem inodeCount_one {key : ℕ × ℕ} (hcount : inodeCount found key = 1) {row other : Row}
    (hrow : row ∈ found) (hother : other ∈ found) (hkey : inode row.2 = key)
    (hsame : inode other.2 = key) : row = other := by
  rw [inodeCount, List.countP_eq_length_filter] at hcount
  obtain ⟨only, honly⟩ := List.length_eq_one_iff.mp hcount
  have hmem : ∀ r ∈ found, inode r.2 = key → r = only := by
    intro r hr hinode
    have : r ∈ found.filter fun row => inode row.2 = key :=
      List.mem_filter.mpr ⟨hr, decide_eq_true hinode⟩
    rw [honly] at this
    exact List.mem_singleton.mp this
  rw [hmem row hrow hkey, hmem other hother hsame]

theorem newId_not_old (hfresh : Fresh found old staged hex) {path : Text}
    (hpath : path ∈ found.map Prod.fst) (key : ℕ × ℕ) :
    newId rootId old hex assigned path key ∉ oldIds old := by
  unfold newId
  split
  · exact hfresh.old path hpath
  · rename_i hfree
    exact fun hold => hfree (.inr hold)

/-- The identifiers in use never keep an entry from the one that the policy gives it. -/
theorem entryId_kept (hold : Distinct old) (hfresh : Fresh found old [] hex) {done : List Row}
    (h : Sound rootId found old hex [] done assigned) {row : Row} (hrow : row ∈ found)
    (hnew : row.1 ∉ done.map Prod.fst) :
    entryId rootId found old hex assigned row.1 (inode row.2) =
      (kept old found row.1 (inode row.2)).getD
        (newId rootId old hex assigned row.1 (inode row.2)) := by
  have hexact : (old[row.1]?).filter (fun exact => exact.inode = inode row.2 ∧
      exact.itemId ∉ assigned) = (old[row.1]?).filter fun exact => exact.inode = inode row.2 := by
    cases he : old[row.1]? with
    | none => rfl
    | some e =>
      have hfree := h.exact_free hold hfresh (List.mem_map_of_mem hrow) hnew he List.not_mem_nil
      rw [Option.filter_some, Option.filter_some]
      simp [hfree]
  have hvanished : inodeCount found (inode row.2) = 1 →
      (oldByInode found old (inode row.2)).filter (·.itemId ∉ assigned) =
        oldByInode found old (inode row.2) := by
    intro hcount
    apply List.filter_eq_self.mpr
    intro e he
    obtain ⟨q, hq, _, hkey⟩ := mem_oldByInode.mp he
    apply decide_eq_true
    intro hassigned
    rcases h _ hassigned with hin | ⟨other, hother, hin, before, horigin⟩
    · cases hin
    · have hsame := (horigin.inode_eq hold hfresh (List.mem_map_of_mem hin) hq rfl).1
      obtain rfl := inodeCount_one hcount hrow hin rfl (hsame.symm.trans hkey)
      exact hnew (List.mem_map_of_mem hother)
  unfold entryId kept
  rw [hexact]
  split
  · rfl
  · by_cases hcount : inodeCount found (inode row.2) = 1
    · rw [hvanished hcount]
      rcases oldByInode found old (inode row.2) with _ | ⟨candidate, _ | ⟨other, rest⟩⟩
      · rfl
      · simp [hcount]
      · rfl
    · split
      · rw [if_neg hcount]
        split
        · rw [if_neg hcount]
          rfl
        · rfl
      · split
        · rw [if_neg hcount]
          rfl
        · rfl

theorem assignRest_turn {done rest : List Row}
    (h : Sound rootId found old hex staged done assigned)
    (hpaths : ((done ++ rest).map Prod.fst).Nodup) (hfound : ∀ row ∈ rest, row ∈ found) :
    ∀ pair ∈ rest.zip ((assignRest rootId found old hex assigned rest).map Prod.snd),
      ∃ before assigned, Sound rootId found old hex staged before assigned ∧
        pair.1.1 ∉ before.map Prod.fst ∧
        pair.2 = entryId rootId found old hex assigned pair.1.1 (inode pair.1.2) := by
  induction rest generalizing assigned done with
  | nil => simp [assignRest]
  | cons row rest ih =>
    have hrow := hfound row (List.mem_cons_self ..)
    intro pair hpair
    rw [assignRest, List.map_cons, List.zip_cons_cons] at hpair
    rcases List.mem_cons.mp hpair with rfl | hpair
    · refine ⟨done, assigned, h, ?_, rfl⟩
      rw [List.map_append, List.nodup_append'] at hpaths
      intro hdone
      exact hpaths.2.2 hdone (by simp)
    · exact ih (h.step hrow) (by simpa using hpaths)
        (fun other hother => hfound other (List.mem_cons_of_mem _ hother)) pair hpair

/-- A run that resumes nothing keeps the old identifiers the policy names, and no others. -/
theorem entryIds_kept (hold : Distinct old) (hfresh : Fresh found old [] hex)
    (hpaths : (found.map Prod.fst).Nodup) {row : Row} (hrow : row ∈ found) {id : Text}
    (hid : id ∈ oldIds old) :
    (row.1, id) ∈ entryIds rootId found old hex [] ↔
      kept old found row.1 (inode row.2) = some id := by
  have hsound : Sound rootId found old hex [] [] [] := fun id hid => .inl hid
  have hfst : (entryIds rootId found old hex []).map Prod.fst = found.map Prod.fst :=
    entryIds_paths (Nat.zero_le _)
  have hgiven : ∀ given, (row.1, given) ∈ entryIds rootId found old hex [] → ∃ assigned,
      given = (kept old found row.1 (inode row.2)).getD
        (newId rootId old hex assigned row.1 (inode row.2)) := by
    intro given hgiven
    have hpair := mem_zip_of_path hfst hpaths hrow hgiven
    rw [entryIds_zip (Nat.zero_le _), List.length_nil, List.take_zero, List.zip_nil_left,
      List.nil_append, List.drop_zero] at hpair
    obtain ⟨before, assigned, hbefore, hnew, hentry⟩ :=
      assignRest_turn hsound hpaths (fun _ h => h) _ hpair
    exact ⟨assigned, hentry.trans (entryId_kept hold hfresh hbefore hrow hnew)⟩
  constructor
  · intro hpair
    obtain ⟨assigned, hgive⟩ := hgiven id hpair
    cases hkept : kept old found row.1 (inode row.2) with
    | some x => rw [hgive, hkept, Option.getD_some]
    | none =>
      rw [hkept, Option.getD_none] at hgive
      rw [hgive] at hid
      exact absurd hid (newId_not_old hfresh (List.mem_map_of_mem hrow) _)
  · intro hkept
    have hin : row.1 ∈ (entryIds rootId found old hex []).map Prod.fst :=
      hfst ▸ List.mem_map_of_mem hrow
    obtain ⟨⟨path, given⟩, hpair, hpath⟩ := List.mem_map.mp hin
    obtain rfl : path = row.1 := hpath
    obtain ⟨assigned, hgive⟩ := hgiven given hpair
    rw [hkept, Option.getD_some] at hgive
    rwa [← hgive]

/-- The `_entry_ids` map of a new index. -/
def published (found : List Row) (pairs : List (Text × Text)) : Table Identity :=
  found.foldl (fun entries row =>
    entries.insert row.1 ⟨(pairs.lookup row.1).getD [], inode row.2⟩) ∅

theorem published_some {pairs : List (Text × Text)} {q : Text} {e : Identity}
    (h : (published found pairs)[q]? = some e) :
    ∃ row ∈ found, row.1 = q ∧ e = ⟨(pairs.lookup q).getD [], inode row.2⟩ := by
  induction found using List.reverseRecOn with
  | nil => simp [published] at h
  | append_singleton rows row ih =>
    rw [published, List.foldl_append, List.foldl_cons, List.foldl_nil, get_put] at h
    split at h
    · rename_i hq
      cases h
      exact ⟨row, by simp, hq, by rw [hq]⟩
    · obtain ⟨other, hother, hrest⟩ := ih h
      exact ⟨other, List.mem_append_left _ hother, hrest⟩

theorem published_distinct {pairs : List (Text × Text)}
    (hfst : pairs.map Prod.fst = found.map Prod.fst) (hnodup : (pairs.map Prod.snd).Nodup) :
    Distinct (published found pairs) := by
  have hmem : ∀ (q : Text) (e : Identity), (published found pairs)[q]? = some e →
      (q, e.itemId) ∈ pairs := by
    intro q e hq
    obtain ⟨row, hrow, rfl, rfl⟩ := published_some hq
    have hin : row.1 ∈ pairs.map Prod.fst := hfst ▸ List.mem_map_of_mem hrow
    obtain ⟨pair, hpair, hpath⟩ := List.mem_map.mp hin
    obtain ⟨id, hid⟩ : ∃ id, pairs.lookup row.1 = some id := by
      cases hlookup : pairs.lookup row.1 with
      | some id => exact ⟨id, rfl⟩
      | none =>
        have hne := List.lookup_eq_none_iff.mp hlookup pair hpair
        simp [hpath] at hne
    rw [hid]
    obtain ⟨before, after, hsplit, _⟩ := List.lookup_eq_some_iff.mp hid
    rw [hsplit]
    simp
  intro p q e f hp hq hid
  have hep := hmem p e hp
  have hfq := hmem q f hq
  rw [hid] at hep
  exact congrArg Prod.fst (List.inj_on_of_nodup_map hnodup hep hfq rfl)

end EntryIds
