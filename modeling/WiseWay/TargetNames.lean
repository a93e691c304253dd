import WiseWay.PlanTotality

/-! # Names that rules give

A stem is checked when a rule is saved, the name is put together when a file is planned, and
the file system looks it up one component at a time. -/
namespace TargetNames

open Records Services Requests DictionaryService ExactlyOnce Rules PlanSpecification
open Lookups FileNames ScannedNames PlanTotality
open Fallible (bind_eq_ok)

variable {layout : Layout} {refuses : Text → Bool}

def bytes (text : Text) : ℕ := (text.map Char.utf8Size).sum

@[simp] theorem bytes_append (a b : Text) : bytes (a ++ b) = bytes a + bytes b := by
  simp [bytes]

/-! A file system that refuses some components. -/

/-- The directory entries of a tree are names that the system looks up. -/
def Holds (refuses : Text → Bool) (tree : FileTree) : Prop :=
  ∀ path, tree path ≠ none → ∀ part ∈ path.splitOn '/', refuses part = false

/-- Only refused components keep the system from answering. -/
def Answering (refuses : Text → Bool) (fs : FileSystem) : Prop :=
  ∀ path, (∀ part ∈ path.splitOn '/', refuses part = false) →
    (∃ occupied, fs.exists_ path = .ok occupied) ∧ ∃ observed, fs.stat path = .ok observed

/-- Every operation of `SafeFilesystem` splits its path and passes the parts on one by one. -/
def pass (refuses : Text → Bool) (path : Text) : Except Exn (List Text) := do
  let l ← parts path
  if l.any refuses then .error .failure
  return l

/-- What `rename_no_replace` does with the names of its two paths. -/
def renameNames (refuses : Text → Bool) (source target : Text) : Except Exn Unit := do
  let _ ← pass refuses source
  let _ ← pass refuses target

/-- A path of which the system refuses nothing. -/
structure Open (refuses : Text → Bool) (path : Text) : Prop extends Clean path where
  looked : ∀ part ∈ path.splitOn '/', refuses part = false

theorem pass_eq_ok {path : Text} : (∃ l, pass refuses path = .ok l) ↔ Open refuses path := by
  constructor
  · rintro ⟨l, h⟩
    obtain ⟨l, hl, h⟩ := bind_eq_ok.mp h
    obtain ⟨hclean, rfl⟩ := parts_eq_ok.mp hl
    refine ⟨hclean, fun part hpart => ?_⟩
    by_contra hrefused
    rw [if_pos (List.any_eq_true.mpr ⟨part, hpart, by simpa using hrefused⟩)] at h
    cases h
  · intro h
    refine ⟨path.splitOn '/', bind_eq_ok.mpr ⟨_, parts_eq_ok.mpr ⟨h.toClean, rfl⟩, ?_⟩⟩
    rw [if_neg]
    · rfl
    · intro hany
      obtain ⟨part, hpart, hrefused⟩ := List.any_eq_true.mp hany
      rw [h.looked part hpart] at hrefused
      cases hrefused

theorem open_append {front rest : Text} :
    Open refuses (front ++ '/' :: rest) ↔ Open refuses front ∧ Open refuses rest := by
  constructor
  · intro h
    obtain ⟨hfront, hrest⟩ := clean_append.mp h.toClean
    have hlooked := h.looked
    rw [List.splitOn_append_cons_self] at hlooked
    exact ⟨⟨hfront, fun part hpart => hlooked part (List.mem_append_left _ hpart)⟩,
      ⟨hrest, fun part hpart => hlooked part (List.mem_append_right _ hpart)⟩⟩
  · rintro ⟨hfront, hrest⟩
    refine ⟨clean_append.mpr ⟨hfront.toClean, hrest.toClean⟩, fun part hpart => ?_⟩
    rw [List.splitOn_append_cons_self] at hpart
    rcases List.mem_append.mp hpart with hpart | hpart
    · exact hfront.looked part hpart
    · exact hrest.looked part hpart

theorem open_component {name : Text} (hslash : '/' ∉ name) (hclean : Clean name)
    (hlooked : refuses name = false) : Open refuses name := by
  refine ⟨hclean, fun part hpart => ?_⟩
  rw [List.splitOn_eq_singleton hslash, List.mem_singleton] at hpart
  rw [hpart]
  exact hlooked

theorem below_append (root : Root) (front rest : Text) :
    below root (front ++ '/' :: rest) = below root front ++ '/' :: rest := by
  unfold below
  split
  · rfl
  · rw [List.append_assoc]
    rfl

/-! Accepted rules. -/

/-- `Accepted` in a tree whose entries the system can look up. -/
def AcceptedIn (refuses : Text → Bool) (layout : Layout) (rule : RuleBody) : Prop :=
  ∃ tree companyId rules, Holds refuses tree ∧
    validateRules layout tree companyId rules = .ok () ∧ rule ∈ rules

theorem AcceptedIn.accepted {rule : RuleBody} (h : AcceptedIn refuses layout rule) :
    Accepted layout rule := by
  obtain ⟨tree, companyId, rules, _, hrules, hrule⟩ := h
  exact ⟨tree, companyId, rules, hrules, hrule⟩

theorem AcceptedIn.directory {rule : RuleBody} (h : AcceptedIn refuses layout rule) :
    ∃ root, layout.root rule.target.rootId = some root ∧
      Open refuses (below root rule.target.relativeDirectory) := by
  obtain ⟨tree, companyId, rules, hholds, hrules, hrule⟩ := h
  obtain ⟨known, hknown, hrules⟩ := bind_eq_ok.mp hrules
  obtain ⟨last, hlast, _⟩ := bind_eq_ok.mp hrules
  obtain ⟨company, _, hknown⟩ := bind_eq_ok.mp hknown
  obtain ⟨loc, hloc, hcheck⟩ := bind_eq_ok.mp (filterM_ok hknown _ (validated hlast rule hrule).1)
  obtain ⟨path, hpath, hcheck⟩ := bind_eq_ok.mp hcheck
  obtain ⟨l, hparts, hcheck⟩ := bind_eq_ok.mp hcheck
  obtain ⟨root, hroot, _, _, rfl⟩ := location_eq_ok.mp hloc
  obtain ⟨_, root', hroot', rfl⟩ := physical_eq_ok.mp hpath
  obtain rfl : root = root' := Option.some.inj (hroot.symm.trans hroot')
  have hdirectory := of_decide_eq_true (Except.ok.inj hcheck)
  refine ⟨root, hroot, (parts_eq_ok.mp hparts).1, hholds _ ?_⟩
  rw [hdirectory]
  simp

/-! The name of a file. -/

/-- A file name that the scan lists and the planner accepts. -/
structure FileName (filename : Text) : Prop where
  slash : '/' ∉ filename
  backslash : '\\' ∉ filename
  nul : '\x00' ∉ filename
  bytes : bytes filename ≤ 255

/-- The stem of the rule and the suffix of the file fit into one component. -/
def Fits (rule : RuleBody) (filename : Text) : Prop :=
  bytes rule.targetStem + bytes (extension filename) ≤ 255

instance (rule : RuleBody) (filename : Text) : Decidable (Fits rule filename) :=
  inferInstanceAs (Decidable (_ ≤ _))

/-- The name that a rule gives a file is the stem and the suffix, and nothing that is done with
its place fails because of the name. -/
structure Usable (layout : Layout) (refuses : Text → Bool) (rule : RuleBody) (filename : Text) :
    Prop where
  name : ∃ suffix, Suffix filename suffix ∧
    targetTuple rule.target rule.targetStem filename =
      (rule.target.rootId, rule.target.relativeDirectory ++ '/' :: (rule.targetStem ++ suffix))
  component : '/' ∉ targetName rule.targetStem filename ∧
    badComponent (targetName rule.targetStem filename) = false
  bytes : bytes (targetName rule.targetStem filename) ≤ 255
  place : ∃ loc path, location layout (targetTuple rule.target rule.targetStem filename).1
    (targetTuple rule.target rule.targetStem filename).2 = .ok loc ∧
    physical layout loc = .ok path ∧ (∃ l, pass refuses path = .ok l) ∧
    ∀ source l, pass refuses source = .ok l → renameNames refuses source path = .ok ()

theorem target_open {rule : RuleBody} {filename : Text}
    (hlimit : ∀ name, refuses name = true → 255 < bytes name)
    (h : AcceptedIn refuses layout rule) (hname : FileName filename) (hfits : Fits rule filename) :
    ∃ root, layout.root rule.target.rootId = some root ∧
      Clean (targetTuple rule.target rule.targetStem filename).2 ∧
      Open refuses (below root (targetTuple rule.target rule.targetStem filename).2) := by
  obtain ⟨root, hroot, _, hpath, hclean⟩ :=
    target_clean h.accepted hname.slash hname.backslash hname.nul
  obtain ⟨root', hroot', hdirectory⟩ := h.directory
  obtain rfl : root = root' := Option.some.inj (hroot.symm.trans hroot')
  refine ⟨root, hroot, hclean, ?_⟩
  obtain ⟨hslash, htarget⟩ := targetName_clean (accepted_spec h.accepted).1 hname.slash
    hname.backslash hname.nul
  rw [hpath, below_append]
  refine open_append.mpr ⟨hdirectory, open_component hslash htarget ?_⟩
  by_contra hrefused
  have := hlimit _ (by simpa using hrefused)
  unfold targetName at this
  rw [bytes_append] at this
  unfold Fits at hfits
  omega

theorem usable_iff {rule : RuleBody} {filename : Text}
    (hlimit : ∀ name, refuses name = true → 255 < bytes name)
    (h : AcceptedIn refuses layout rule) (hname : FileName filename) :
    Usable layout refuses rule filename ↔ Fits rule filename := by
  constructor
  · intro husable
    have := husable.bytes
    unfold targetName at this
    rw [bytes_append] at this
    exact this
  · intro hfits
    obtain ⟨hslash, htarget⟩ := targetName_clean (accepted_spec h.accepted).1 hname.slash
      hname.backslash hname.nul
    obtain ⟨_, _, _, hpath, _⟩ := target_clean h.accepted hname.slash hname.backslash hname.nul
    obtain ⟨root, hroot, hclean, hopen⟩ := target_open hlimit h hname hfits
    obtain ⟨loc, hloc⟩ := placed_iff.mp (hclean.placed hroot)
    obtain ⟨l, hl⟩ := pass_eq_ok.mpr hopen
    refine ⟨⟨_, extension_suffix filename, Prod.ext rfl hpath⟩,
      ⟨hslash, ((clean_component hslash).mp htarget).2.2⟩, ?_, loc, _, hloc,
      physical_clean hroot hloc, ⟨l, hl⟩, fun source l' hsource => ?_⟩
    · unfold targetName
      rw [bytes_append]
      exact hfits
    · exact bind_eq_ok.mpr ⟨l', hsource, bind_eq_ok.mpr ⟨l, hl, rfl⟩⟩

/-! Drafts and versions. -/

/-- The rules of every draft and every version were accepted. -/
structure AllAccepted (refuses : Text → Bool) (layout : Layout) (s : Store) : Prop where
  drafted : Every (fun d => ∀ rule ∈ d.draft.rules, AcceptedIn refuses layout rule) s.dictionary
  published : Every (fun ver => ∀ rule ∈ ver.rules, AcceptedIn refuses layout rule)
    s.dictionaryVersion

/-- A rule of some draft or of some version. -/
def Kept (s : Store) (rule : RuleBody) : Prop :=
  (∃ (k : Text) (d : Dictionary), s.dictionary[k]? = some d ∧ rule ∈ d.draft.rules) ∨
    ∃ (k : Text) (ver : DictionaryVersion), s.dictionaryVersion[k]? = some ver ∧ rule ∈ ver.rules

theorem AllAccepted.kept {s : Store} (h : AllAccepted refuses layout s) {rule : RuleBody}
    (hrule : Kept s rule) : AcceptedIn refuses layout rule := by
  rcases hrule with ⟨k, d, hd, hrule⟩ | ⟨k, ver, hver, hrule⟩
  · exact h.drafted k d hd rule hrule
  · exact h.published k ver hver rule hrule

theorem AllAccepted.same {s t : Store} (h : AllAccepted refuses layout s)
    (hdictionary : t.dictionary = s.dictionary)
    (hversion : t.dictionaryVersion = s.dictionaryVersion) : AllAccepted refuses layout t :=
  ⟨hdictionary ▸ h.drafted, hversion ▸ h.published⟩

theorem created_accepted {casefold : Text → Text} {dictionaryId actor requestId : Text}
    {now : Time} {companyId name description : Text} {s t : Store}
    (h : AllAccepted refuses layout s)
    (ht : create layout casefold dictionaryId actor requestId now companyId name description s =
      .ok t) : AllAccepted refuses layout t := by
  obtain ⟨company, _, ht⟩ := bind_eq_ok.mp ht
  obtain ⟨⟨⟩, _, ht⟩ := bind_eq_ok.mp ht
  obtain ⟨dictionaries, hnew, ht⟩ := bind_eq_ok.mp ht
  cases ht
  obtain ⟨_, rfl⟩ := insertNew_eq_ok.mp hnew
  exact ⟨h.drafted.put (by simp), h.published⟩

theorem replaced_accepted {casefold : Text → Text} {tree : FileTree} {actor requestId : Text}
    {now : Time} {dictionaryId : Text} {body : DraftBody} {s t : Store}
    (hholds : Holds refuses tree) (h : AllAccepted refuses layout s)
    (ht : replaceDraft layout casefold tree actor requestId now dictionaryId body s = .ok t) :
    AllAccepted refuses layout t := by
  obtain ⟨d, hd, ht⟩ := bind_eq_ok.mp ht
  obtain ⟨⟨⟩, _, ht⟩ := bind_eq_ok.mp ht
  obtain ⟨⟨⟩, _, ht⟩ := bind_eq_ok.mp ht
  obtain ⟨⟨⟩, hvalid, ht⟩ := bind_eq_ok.mp ht
  cases ht
  exact ⟨h.drafted.put fun rule hrule => ⟨tree, _, _, hholds, hvalid, hrule⟩, h.published⟩

theorem restored_accepted {casefold : Text → Text} {actor requestId : Text} {now : Time}
    {dictionaryId : Text} {expected : ℕ} {versionId : Text} {s t : Store}
    (h : AllAccepted refuses layout s)
    (ht : restoreDraft casefold actor requestId now dictionaryId expected versionId s = .ok t) :
    AllAccepted refuses layout t := by
  obtain ⟨d, hd, ht⟩ := bind_eq_ok.mp ht
  obtain ⟨⟨⟩, _, ht⟩ := bind_eq_ok.mp ht
  obtain ⟨version, hversion, ht⟩ := bind_eq_ok.mp ht
  by_cases hother : version.dictionaryId ≠ d.dictionaryId
  · simp [hother, bind, Except.bind] at ht
  simp only [hother, if_false] at ht
  obtain ⟨⟨⟩, _, ht⟩ := bind_eq_ok.mp ht
  cases ht
  exact ⟨h.drafted.put (h.published _ _ (require_eq_ok.mp hversion)), h.published⟩

theorem published_accepted {versionId actor : Text} {now : Time} {body : PublishBody}
    {simulations : Table Simulation} {s t : Store} {dictionaryId : Text} {d : Dictionary}
    {simulation : Simulation} (h : AllAccepted refuses layout s)
    (hp : PublishedBy versionId actor now body simulations s t dictionaryId d simulation) :
    AllAccepted refuses layout t := by
  have hrules := h.drafted _ d hp.dictionary
  constructor
  · rw [hp.active]
    exact h.drafted.put hrules
  · rw [hp.version]
    exact h.published.put hrules

/-! Runs of the dictionary service. -/

/-- The rules are accepted, and the file system can look up what is there. -/
structure Checked (refuses : Text → Bool) (layout : Layout) (site : Site) : Prop where
  tree : Holds refuses site.tree
  rules : AllAccepted refuses layout site.store

/-- Files are only put where the system can look them up. -/
def Housed (refuses : Text → Bool) (move : Move) : Prop :=
  ∀ store pages tree, move = .elsewhere store pages tree → Holds refuses tree

variable {v : Server}

theorem dispatch_checked {x : Draw} {actor : Text} {request : Request} {site next : Site}
    {response : Response} (h : Checked refuses v.layout site)
    (hd : dispatch v x actor request site = .ok (response, next)) :
    Checked refuses v.layout next := by
  cases request with
  | createSortingBatch body =>
    obtain ⟨t, ht, hd⟩ := bind_eq_ok.mp hd
    obtain ⟨view, _, hd⟩ := bind_eq_ok.mp hd
    obtain ⟨⟨cursor, pages⟩, _, hd⟩ := bind_eq_ok.mp hd
    cases hd
    obtain ⟨_, _, _, _, _, _, _, _, _, hdictionary, hversion⟩ := Changes.accept_spec ht
    exact ⟨h.tree, h.rules.same hdictionary hversion⟩
  | publishDictionary dictionaryId body =>
    obtain ⟨⟨published, t⟩, ht, hd⟩ := bind_eq_ok.mp hd
    cases hd
    obtain ⟨d, simulation, hp⟩ := publish_spec ht
    exact ⟨h.tree, published_accepted h.rules hp⟩

theorem committed_checked {site : Site} {r : Except Exn Store} (h : Checked refuses layout site)
    (hr : ∀ t, r = .ok t → AllAccepted refuses layout t) :
    Checked refuses layout (committed site r) := by
  unfold committed
  split
  · exact ⟨h.tree, hr _ rfl⟩
  · exact h

theorem apply_checked {site : Site} (h : Checked refuses v.layout site) {move : Move}
    (hmove : Housed refuses move) : Checked refuses v.layout (apply v site move) := by
  cases move with
  | request x actor key request =>
    simp only [apply]
    rcases execute_cases v x actor key request site with ⟨e, he⟩ | ⟨_, _, _, _, he⟩ |
      ⟨response, next, _, hd, _, he⟩
    · rw [he]
      exact h
    · rw [he]
      exact h
    · rw [he]
      have hnext := dispatch_checked h hd
      exact ⟨hnext.tree, hnext.rules⟩
  | create dictionaryId actor requestId now companyId name description =>
    exact committed_checked h fun t ht => created_accepted h.rules ht
  | replaceDraft actor requestId now dictionaryId body =>
    exact committed_checked h fun t ht => replaced_accepted h.tree h.rules ht
  | restoreDraft actor requestId now dictionaryId expected versionId =>
    exact committed_checked h fun t ht => restored_accepted h.rules ht
  | simulate simulationId actor requestId now dictionaryId expected =>
    simp only [apply]
    split
    · rename_i next hnext
      obtain ⟨⟨created, simulations, t⟩, ht, hnext⟩ := bind_eq_ok.mp hnext
      obtain ⟨⟨cursor, pages⟩, _, hnext⟩ := bind_eq_ok.mp hnext
      cases hnext
      obtain ⟨_, _, _, _, _, hdictionary, hversion⟩ := simulate_spec ht
      exact ⟨h.tree, h.rules.same hdictionary hversion⟩
    · exact h
  | select selectionId actor now request =>
    simp only [apply]
    split
    · exact h
    · refine committed_checked h fun t ht => ?_
      obtain ⟨created, rfl, rfl⟩ := Changes.selection_frame ht
      exact h.rules.same rfl rfl
  | preview previewId actor selectionId now =>
    refine committed_checked h fun t ht => ?_
    obtain ⟨created, rfl⟩ := Changes.preview_frame ht
    exact h.rules.same rfl rfl
  | elsewhere store pages tree => exact ⟨hmove _ _ _ rfl, h.rules.same rfl rfl⟩

theorem run_checked {site : Site} (h : Checked refuses v.layout site) : ∀ (moves : List Move),
    (∀ move ∈ moves, Housed refuses move) → Checked refuses v.layout (run v moves site) := by
  intro moves
  induction moves generalizing site with
  | nil => exact fun _ => h
  | cons move moves ih =>
    intro hmoves
    exact ih (apply_checked h (hmoves move (List.mem_cons_self ..)))
      fun next hnext => hmoves next (List.mem_cons_of_mem _ hnext)

theorem start_checked {site : Site} (h : PublicationGate.Start site)
    (htree : Holds refuses site.tree) : Checked refuses layout site := by
  refine ⟨htree, ?_, ?_⟩
  · intro k d hd
    simp [h.dictionary] at hd
  · intro k ver hver
    simp [h.version] at hver

/-! Plans with stored rules. -/

theorem flattened_kept {s : Store} {companyId : Text} {candidate : Option Dictionary}
    {rules : List Rule}
    (hcandidate : ∀ d, candidate = some d → ∃ k : Text, s.dictionary[k]? = some d)
    (h : flattenedRules s companyId candidate = .ok rules) :
    ∀ rule ∈ rules, Kept s rule.toRuleBody := by
  obtain ⟨parts, hparts, h⟩ := bind_eq_ok.mp h
  cases h
  intro rule hrule
  obtain ⟨part, hpart, hrule⟩ := List.mem_flatten.mp hrule
  obtain ⟨d, hd, hpart⟩ := Fallible.mem_of_mapM hparts part hpart
  obtain ⟨k, hk⟩ := mem_list.mp hd
  split at hpart
  · cases hpart
    cases hrule
  split at hpart
  · rename_i hsame
    cases hpart
    cases hc : candidate with
    | none => simp [hc] at hsame
    | some found =>
      rw [hc] at hrule
      obtain ⟨body, hbody, rfl⟩ := List.mem_map.mp hrule
      obtain ⟨j, hj⟩ := hcandidate found hc
      exact .inl ⟨j, found, hj, hbody⟩
  split at hpart
  · cases hpart
    cases hrule
  · obtain ⟨version, hversion, hpart⟩ := bind_eq_ok.mp hpart
    cases hpart
    obtain ⟨body, hbody, rfl⟩ := List.mem_map.mp hrule
    exact .inr ⟨_, version, require_eq_ok.mp hversion, hbody⟩

/-- The folders of a company and of the roots, as the bootstrap names them. -/
structure Furnished (refuses : Text → Bool) (layout : Layout) (companyId : Text) : Prop where
  bases : ∀ (rootId : Text) root, layout.root rootId = some root →
    root.base = [] ∨ Open refuses root.base
  company : ∃ company, layout.company companyId = some company ∧ Open refuses company.folder
  manual : ∃ root, layout.root manualRoot = some root

theorem Furnished.rooted {companyId : Text} (h : Furnished refuses layout companyId) :
    Rooted layout :=
  fun rootId root hroot => (h.bases rootId root hroot).imp_right fun hbase => hbase.toClean

theorem below_open {companyId rootId relative : Text} {root : Root}
    (h : Furnished refuses layout companyId) (hroot : layout.root rootId = some root)
    (hopen : Open refuses relative) : Open refuses (below root relative) := by
  unfold below
  split
  · exact hopen
  · rename_i hbase
    exact open_append.mpr ⟨(h.bases rootId root hroot).resolve_left hbase, hopen⟩

/-- A file as the scan names it. -/
def Listed (item : PublicItem) : Prop :=
  FileName item.filename ∧ badComponent item.filename = false

theorem open_answerable {fs : FileSystem} {place : Text × Text} {root : Root} {companyId : Text}
    (hfs : Answering refuses fs) (h : Furnished refuses layout companyId)
    (hroot : layout.root place.1 = some root) (hclean : Clean place.2)
    (hopen : Open refuses (below root place.2)) :
    ∃ loc, location layout place.1 place.2 = .ok loc ∧
      Answerable (Lookups.adapters layout fs) loc := by
  obtain ⟨loc, hloc⟩ := placed_iff.mp (hclean.placed hroot)
  obtain ⟨⟨occupied, hoccupied⟩, observed, hobserved⟩ := hfs _ hopen.looked
  refine ⟨loc, hloc, (answerable_iff h.rooted hroot hclean hloc).mpr ?_⟩
  exact ⟨occupied, hoccupied, fun _ => ⟨observed, hobserved⟩⟩

/-- No plan fails because of the names of accepted rules that fit. -/
theorem plan_fits {casefold : Text → Text} {fs : FileSystem} {companyId : Text}
    {rules : List Rule} {items : List PublicItem}
    (hlimit : ∀ name, refuses name = true → 255 < bytes name) (hfs : Answering refuses fs)
    (h : Furnished refuses layout companyId)
    (hrules : ∀ rule ∈ rules, AcceptedIn refuses layout rule.toRuleBody)
    (hids : (items.map (·.itemId)).Nodup) (hitems : ∀ item ∈ items, Listed item)
    (hfits : ∀ rule ∈ rules, ∀ item ∈ items, Fits rule.toRuleBody item.filename) :
    ∃ rows, Lookups.plan layout fs casefold items rules companyId = .ok rows := by
  obtain ⟨company, hcompany, hfolder⟩ := h.company
  have htarget : ∀ item ∈ items, ∀ target, Assigned casefold rules item target →
      ∃ loc, location layout target.1 target.2 = .ok loc ∧
        Answerable (Lookups.adapters layout fs) loc := by
    intro item hitem target hassigned
    obtain ⟨rule, hrule, rfl⟩ := assigned_rule hassigned
    obtain ⟨root, hroot, hclean, hopen⟩ :=
      target_open hlimit (hrules rule hrule) (hitems item hitem).1 (hfits rule hrule item hitem)
    exact open_answerable hfs h hroot hclean hopen
  simp only [plan_ok_iff hcompany]
  refine (planRows_plannable (keepsParts layout fs) hids).mpr fun item hitem => ?_
  refine ⟨fun target hassigned => ?_, fun place hplace => ?_⟩
  · obtain ⟨loc, hloc, _⟩ := htarget item hitem target hassigned
    exact ⟨loc, hloc⟩
  · cases hplace with
    | target hassigned _ => exact htarget item hitem _ hassigned
    | manual _ _ =>
      obtain ⟨root, hroot⟩ := h.manual
      obtain ⟨hname, hbad⟩ := hitems item hitem
      have hfile : Open refuses item.filename := by
        refine open_component hname.slash ((clean_component hname.slash).mpr
          ⟨hname.backslash, hname.nul, hbad⟩) ?_
        by_contra hrefused
        have hlong := hlimit item.filename (by simpa using hrefused)
        have := hname.bytes
        omega
      have hopen : Open refuses (company.folder ++ '/' :: item.filename) :=
        open_append.mpr ⟨hfolder, hfile⟩
      have hjoin := join_clean hfolder.toClean item.filename
      rw [hjoin]
      exact open_answerable hfs h (show layout.root (manualRoot, _).1 = _ from hroot) hopen.toClean
        (below_open h hroot hopen)

/-- Plans with the rules in force, or with a draft in place of what is in force, are made. -/
def PlansMade (v : Server) (refuses : Text → Bool) (s : Store) : Prop :=
  ∀ fs companyId candidate rules items, Answering refuses fs →
    Furnished refuses v.layout companyId →
    (∀ d, candidate = some d → ∃ k : Text, s.dictionary[k]? = some d) →
    flattenedRules s companyId candidate = .ok rules →
    (items.map (·.itemId)).Nodup → (∀ item ∈ items, Listed item) →
    (∀ rule ∈ rules, ∀ item ∈ items, Fits rule.toRuleBody item.filename) →
      ∃ rows, Lookups.plan v.layout fs v.casefold items rules companyId = .ok rows

/-- A rule that was accepted gives a file a usable name exactly when stem and suffix fit into
one component; drafts and versions hold accepted rules only, so plans are made where they fit. -/
theorem target_names {site : Site} (hstart : PublicationGate.Start site)
    (hlimit : ∀ name, refuses name = true → 255 < bytes name) (htree : Holds refuses site.tree)
    {moves : List Move} (hmoves : ∀ move ∈ moves, Housed refuses move) :
    (∀ rule, AcceptedIn refuses v.layout rule → ∀ filename, FileName filename →
      (Usable v.layout refuses rule filename ↔ Fits rule filename)) ∧
    (∀ rule, Kept (run v moves site).store rule → AcceptedIn refuses v.layout rule) ∧
    PlansMade v refuses (run v moves site).store := by
  have hchecked : Checked refuses v.layout (run v moves site) :=
    run_checked (start_checked hstart htree) moves hmoves
  have hrules := hchecked.rules
  refine ⟨fun rule hrule filename hname => usable_iff hlimit hrule hname,
    fun rule hrule => hrules.kept hrule, ?_⟩
  intro fs companyId candidate rules items hfs hfurnished hcandidate hflat hids hitems hfits
  refine plan_fits hlimit hfs hfurnished (fun rule hrule => ?_) hids hitems hfits
  exact hrules.kept (flattened_kept hcandidate hflat rule hrule)

/-! A file system with a limit of 255 bytes. -/

def tooLong (name : Text) : Bool := 255 < bytes name

/-- A tree that answers for the names it does not refuse. -/
def limited (refuses : Text → Bool) (tree : FileTree) : FileSystem where
  exists_ path :=
    if (path.splitOn '/').any refuses then .error .failure else .ok (tree path).isSome
  stat path :=
    if (path.splitOn '/').any refuses then .error .failure else .ok (fileAt tree path)

/-- A stem of 127 Cyrillic letters, which is accepted. -/
def longRule : RuleBody := { SortingSystem.smallRule with targetStem := List.replicate 127 'я' }

def savedMoves (rule : RuleBody) : List Move :=
  [.create ['d'] ['u'] ['q'] 0 "co".toList ['n'] [],
    .replaceDraft ['u'] ['q'] 1 ['d'] ⟨1, ['n'], [], [rule]⟩]

/-- The draft is saved, and then no plan of the company can be made. -/
theorem long_stem_unplanned : ∃ d rules,
    (run smallServer (savedMoves longRule) PublicationGate.bareSite).store.dictionary[['d']]? =
      some d ∧ d.draft.rules = [longRule] ∧
    flattenedRules (run smallServer (savedMoves longRule) PublicationGate.bareSite).store
      "co".toList (some d) = .ok rules ∧
    bytes (targetName longRule.targetStem readyItem.filename) = 256 ∧
    Lookups.plan smallServer.layout (limited tooLong PublicationGate.bareSite.tree)
      smallServer.casefold [readyItem.toPublicItem] rules "co".toList = .error .failure := by
  have hrun : ((run smallServer (savedMoves longRule)
      PublicationGate.bareSite).store.dictionary[['d']]?).any (fun d =>
        decide (d.draft.rules = [longRule]) &&
        ((flattenedRules (run smallServer (savedMoves longRule) PublicationGate.bareSite).store
          "co".toList (some d)).toOption.any fun rules => decide (
            Lookups.plan smallServer.layout (limited tooLong PublicationGate.bareSite.tree)
              smallServer.casefold [readyItem.toPublicItem] rules "co".toList =
                .error .failure))) = true := by
    decide +kernel
  obtain ⟨d, hd, hrun⟩ := (Option.any_eq_true _ _).mp hrun
  obtain ⟨hdraft, hrun⟩ := Bool.and_eq_true_iff.mp hrun
  obtain ⟨rules, hrules, hplan⟩ := (Option.any_eq_true _ _).mp hrun
  refine ⟨d, rules, hd, of_decide_eq_true hdraft, ?_, by decide +kernel, of_decide_eq_true hplan⟩
  revert hrules
  cases flattenedRules (run smallServer (savedMoves longRule) PublicationGate.bareSite).store
    "co".toList (some d) with
  | error e => simp [Except.toOption]
  | ok l => simp [Except.toOption]

theorem bareSite_holds : Holds tooLong PublicationGate.bareSite.tree := by
  have hpaths :
      ∀ path ∈ ["in/a.t", "in", "ar", "ar/x", "mr", "mr/C", "qr", "qr/C"].map String.toList,
      ∀ part ∈ path.splitOn '/', tooLong part = false := by
    decide +kernel
  intro path hpath
  refine hpaths path ?_
  by_contra hother
  refine hpath ?_
  rw [List.map_cons, List.mem_cons, not_or] at hother
  obtain ⟨hfile, hdirectory⟩ := hother
  unfold PublicationGate.bareSite SortingSystem.smallTree
  dsimp only
  rw [List.find?_cons_of_neg fun h => hfile (of_decide_eq_true h).symm, List.find?_nil]
  exact if_neg hdirectory

/-- The rule with the short stem is saved, and its names are usable. -/
theorem target_names_short :
    Usable smallServer.layout tooLong SortingSystem.smallRule ['a', '.', 't'] := by
  have hkept : Kept (run smallServer (savedMoves SortingSystem.smallRule)
      PublicationGate.bareSite).store SortingSystem.smallRule := by
    have hrun : ((run smallServer (savedMoves SortingSystem.smallRule)
        PublicationGate.bareSite).store.dictionary[['d']]?).any (fun d =>
          decide (SortingSystem.smallRule ∈ d.draft.rules)) = true := by decide +kernel
    obtain ⟨d, hd, hrule⟩ := (Option.any_eq_true _ _).mp hrun
    exact .inl ⟨['d'], d, hd, of_decide_eq_true hrule⟩
  have hmoves : ∀ move ∈ savedMoves SortingSystem.smallRule, Housed tooLong move := by
    intro move hmove store pages tree heq
    rw [heq] at hmove
    simp [savedMoves] at hmove
  obtain ⟨husable, haccepted, _⟩ := target_names (v := smallServer) PublicationGate.bareSite_start
    (fun name hname => of_decide_eq_true hname) bareSite_holds hmoves
  refine (husable _ (haccepted _ hkept) _ ⟨by decide, by decide, by decide, by decide⟩).mpr ?_
  decide

end TargetNames
