import WiseWay.PublicationGate
import WiseWay.ScannedNames

/-! # Planning what the scan found

The planner answers for a list of files if it can build and look up the place of each. The
scanner accepts every name that a directory can hold, the planner does not. -/
namespace PlanTotality

open Records Services AtomicProgram Calls SortingSystem Rules Fallible PlanSpecification
open Lookups FileNames ScannedNames

variable {casefold : Text → Text} {adapters : Adapters} {rules : List Rule}
variable {manualTarget : TargetDirectory} {items : List PublicItem} {item : PublicItem}

/-! When there is a plan. -/

def Answerable (adapters : Adapters) (place : Location) : Prop :=
  ∃ occupied, adapters.exists_ place = .ok occupied ∧
    (occupied = true → ∃ info, adapters.sourceInfo place = .ok info)

/-- The places that the planner looks up for an item: the target that no other item shares, or
else its name in the manual folder. -/
inductive Probed (casefold : Text → Text) (rules : List Rule) (manualTarget : TargetDirectory)
    (items : List PublicItem) (item : PublicItem) : Text × Text → Prop where
  | target {target} : Assigned casefold rules item target →
      rivals casefold rules items item target = [] →
      Probed casefold rules manualTarget items item target
  | manual : Candidate item → (∀ target, ¬Assigned casefold rules item target) →
      Probed casefold rules manualTarget items item
        (manualTarget.rootId, join manualTarget.relativeDirectory item.filename)

/-- The places of an item can be built, and those that are looked up answer. -/
structure Plannable (casefold : Text → Text) (adapters : Adapters) (rules : List Rule)
    (manualTarget : TargetDirectory) (items : List PublicItem) (item : PublicItem) : Prop where
  built : ∀ target, Assigned casefold rules item target →
    ∃ place, adapters.location target.1 target.2 = .ok place
  looked : ∀ target, Probed casefold rules manualTarget items item target →
    ∃ place, adapters.location target.1 target.2 = .ok place ∧ Answerable adapters place

theorem verdict_plannable {row : PlanRow}
    (h : Verdict casefold adapters rules manualTarget items item row) :
    Plannable casefold adapters rules manualTarget items item := by
  have hmanual : ∀ {place}, Candidate item → (∀ target, ¬Assigned casefold rules item target) →
      adapters.location manualTarget.rootId
        (join manualTarget.relativeDirectory item.filename) = .ok place →
      Answerable adapters place → Plannable casefold adapters rules manualTarget items item := by
    intro place hcandidate hnone hplace hanswer
    refine ⟨fun target htarget => absurd htarget (hnone target), fun target htarget => ?_⟩
    cases htarget with
    | target htarget _ => exact absurd htarget (hnone _)
    | manual _ _ => exact ⟨place, hplace, hanswer⟩
  have hassigned : ∀ {target place}, Assigned casefold rules item target →
      adapters.location target.1 target.2 = .ok place →
      (rivals casefold rules items item target = [] → Answerable adapters place) →
      Plannable casefold adapters rules manualTarget items item := by
    intro target place htarget hplace hanswer
    refine ⟨fun other hother => ?_, fun other hother => ?_⟩
    · rw [← htarget.unique hother]
      exact ⟨place, hplace⟩
    · cases hother with
      | target hother halone =>
        obtain rfl := htarget.unique hother
        exact ⟨place, hplace, hanswer halone⟩
      | manual _ hnone => exact absurd htarget (hnone _)
  cases h with
  | idle hidle =>
    refine ⟨fun target htarget => absurd htarget.candidate hidle, fun target htarget => ?_⟩
    cases htarget with
    | target htarget _ => exact absurd htarget.candidate hidle
    | manual hcandidate _ => exact absurd hcandidate hidle
  | manual hcandidate hnone hplace hfree =>
    exact hmanual hcandidate hnone hplace ⟨false, hfree, by simp⟩
  | manualOccupied hcandidate hnone hplace hoccupied hexisting =>
    exact hmanual hcandidate hnone hplace ⟨true, hoccupied, fun _ => ⟨_, hexisting⟩⟩
  | shared htarget _ hplace hothers =>
    exact hassigned htarget hplace fun halone => absurd halone hothers
  | occupied htarget _ hplace _ hoccupied hexisting =>
    exact hassigned htarget hplace fun _ => ⟨true, hoccupied, fun _ => ⟨_, hexisting⟩⟩
  | free htarget _ hplace _ hfree =>
    exact hassigned htarget hplace fun _ => ⟨false, hfree, by simp⟩

theorem planOne_plannable (h : ∀ target, Assigned casefold rules item target →
    ∃ place, adapters.location target.1 target.2 = .ok place) :
    ∃ row, planOne casefold adapters rules item = .ok row := by
  unfold planOne
  dsimp only
  split
  · exact ⟨_, rfl⟩
  rename_i hready
  split
  · exact ⟨_, rfl⟩
  split
  · rename_i rootId path chosen hdedup _
    have hcandidate : Candidate item := by
      obtain ⟨hstatus, hselectable⟩ := not_or.mp hready
      constructor
      · by_contra hneither
        exact hstatus (not_or.mp hneither)
      · exact Bool.eq_true_of_not_eq_false hselectable
    obtain ⟨place, hplace⟩ := h _ ((given_dedup hcandidate).mp hdedup)
    exact ⟨_, bind_eq_ok.mpr ⟨place, hplace, rfl⟩⟩
  · exact ⟨_, rfl⟩

theorem met_answers {place : Location} (h : Answerable adapters place) (row : WorkRow)
    (reason : Reason) (kind : CollisionKind) : ∃ next, (do
      if ← adapters.exists_ place then block adapters row reason kind place []
      else return row : Except Exn WorkRow) = .ok next := by
  obtain ⟨occupied, hoccupied, hinfo⟩ := h
  cases occupied with
  | false => exact ⟨row, bind_eq_ok.mpr ⟨false, hoccupied, rfl⟩⟩
  | true =>
    obtain ⟨info, hinfo⟩ := hinfo rfl
    have hblock : ∃ next, block adapters row reason kind place [] = .ok next := by
      unfold block
      split
      · exact ⟨_, rfl⟩
      · exact ⟨_, bind_eq_ok.mpr ⟨info, hinfo, rfl⟩⟩
    obtain ⟨next, hnext⟩ := hblock
    exact ⟨next, bind_eq_ok.mpr ⟨true, hoccupied, hnext⟩⟩

theorem first_probed {row : PlanRow} (h : First casefold adapters rules item row)
    (items : List PublicItem) (manualTarget : TargetDirectory)
    (hstate : row.predictedState = .willManualReview) :
    Probed casefold rules manualTarget items item
      (manualTarget.rootId, join manualTarget.relativeDirectory item.filename) := by
  cases h with
  | idle _ => cases hstate
  | manual hcandidate hnone => exact .manual hcandidate hnone
  | assigned _ _ _ => cases hstate

theorem first_target {row next : WorkRow} (hparts : KeepsParts adapters)
    (h : First casefold adapters rules item row.1) (hnext : Reviewed adapters manualTarget row next)
    (hstate : next.1.predictedState = .willMove) (place : Location)
    (hplace : next.1.target = some place) :
    adapters.location (targetKey place).1 (targetKey place).2 = .ok place := by
  obtain ⟨row, metadata⟩ := row
  rcases hnext with ⟨_, rfl⟩ | ⟨hmanual, _, occupied, _, _, hnext⟩
  · cases h with
    | idle _ => cases hstate
    | manual _ _ => cases hstate
    | assigned _ _ hlocation =>
      cases hplace
      rw [hparts _ _ _ hlocation]
      exact hlocation
  · by_cases hoccupied : occupied = true
    · rw [if_pos hoccupied] at hnext
      obtain ⟨_, _, rfl⟩ := block_ok hnext
      cases hstate
    · rw [if_neg hoccupied] at hnext
      cases hnext
      rw [hmanual] at hstate
      cases hstate

/-- There is a plan exactly when the planner has an answer for every place it asks about. -/
theorem planRows_plannable (hparts : KeepsParts adapters)
    (hids : (items.map (·.itemId)).Nodup) :
    (∃ rows, planRows casefold adapters items rules manualTarget = .ok rows) ↔
      ∀ item ∈ items, Plannable casefold adapters rules manualTarget items item := by
  constructor
  · rintro ⟨rows, hrows⟩ item hitem
    have hverdicts := planRows_verdicts hparts hids hrows
    obtain ⟨row, _, hrow⟩ := PublicationGate.forall₂_mem hverdicts.flip hitem
    exact verdict_plannable hrow
  intro h
  obtain ⟨firsts, hfirsts⟩ : ∃ firsts : List WorkRow, items.mapM (fun item => do
      let row ← planOne casefold adapters rules item
      return (row, sourceMetadata item) : PublicItem → Except Exn WorkRow) = .ok firsts := by
    refine mapM_succeeds.mpr fun item hitem => ?_
    obtain ⟨row, hrow⟩ := planOne_plannable (h item hitem).built
    exact ⟨_, bind_eq_ok.mpr ⟨row, hrow, rfl⟩⟩
  have hfirst : List.Forall₂ (fun item (row : WorkRow) => First casefold adapters rules item row.1 ∧
      row.1.filename = item.filename) items firsts := by
    refine (mapM_ok hfirsts).imp fun item row hrow => ?_
    obtain ⟨first, hfirst, hrow⟩ := bind_eq_ok.mp hrow
    cases hrow
    have hfirst := planOne_first hfirst
    exact ⟨hfirst, by cases hfirst <;> rfl⟩
  obtain ⟨middles, hmiddles⟩ : ∃ middles,
      applyManualReviewCollisions adapters manualTarget firsts = .ok middles := by
    refine mapM_succeeds.mpr fun row hrow => ?_
    split
    · exact ⟨_, rfl⟩
    rename_i hstate
    obtain ⟨item, hitem, hfirst, hname⟩ := PublicationGate.forall₂_mem hfirst hrow
    obtain ⟨place, hplace, hanswer⟩ :=
      (h item hitem).looked _ (first_probed hfirst items manualTarget (not_not.mp hstate))
    obtain ⟨next, hnext⟩ := met_answers hanswer row .manualReviewNameOccupied .manualReviewName
    exact ⟨next, bind_eq_ok.mpr ⟨place, hname ▸ hplace, hnext⟩⟩
  have hmiddle := forall₂_comp hfirst (manualReview_reviewed hmiddles)
  have hread : List.Forall₂ (fun item middle => Read casefold rules item middle ∧
      (middle.1.predictedState = .willMove → ∀ place, middle.1.target = some place →
        adapters.location (targetKey place).1 (targetKey place).2 = .ok place)) items middles := by
    refine hmiddle.imp fun item middle hrow => ?_
    obtain ⟨row, ⟨hfirst, _⟩, hreviewed⟩ := hrow
    exact ⟨hfirst.read hparts hreviewed, first_target hparts hfirst hreviewed⟩
  have hreads : List.Forall₂ (Read casefold rules) items middles :=
    hread.imp fun _ _ hrow => hrow.1
  obtain ⟨lasts, hlasts⟩ : ∃ lasts, applyTargetCollisions adapters middles = .ok lasts := by
    refine mapM_succeeds.mpr fun entry hentry => ?_
    obtain ⟨⟨item, i⟩, hitem, ⟨hrow, htarget⟩, hindex⟩ :=
      PublicationGate.forall₂_mem (forall₂_zipIdx hread 0) hentry
    obtain ⟨row, j⟩ := entry
    obtain rfl : i = j := hindex
    dsimp only
    split
    · rename_i place hstate hplace
      have hassigned : Assigned casefold rules item (targetKey place) :=
        (hrow.planned _).mp ⟨hstate, by rw [hplace]; rfl⟩
      rw [sharers_eq_rivals hids hreads hitem]
      split
      · exact ⟨_, rfl⟩
      · rename_i halone
        have hmem : item ∈ items := List.mem_of_getElem? (List.mem_zipIdx_iff_getElem?.mp hitem)
        obtain ⟨place', hplace', hanswer⟩ :=
          (h item hmem).looked _ (.target hassigned (not_not.mp halone))
        rw [htarget hstate place hplace] at hplace'
        cases hplace'
        exact met_answers hanswer row .targetOccupied .existingTarget
    · exact ⟨_, rfl⟩
  exact ⟨lasts.map Prod.fst, bind_eq_ok.mpr ⟨firsts, hfirsts, bind_eq_ok.mpr ⟨middles, hmiddles,
    bind_eq_ok.mpr ⟨lasts, hlasts, rfl⟩⟩⟩⟩

/-- A row repeats what the plan was asked about. -/
structure RowOf (item : PublicItem) (row : PlanRow) : Prop where
  itemId : row.itemId = item.itemId
  itemRevision : row.itemRevision = item.itemRevision
  source : row.source = item.source
  filename : row.filename = item.filename

theorem verdict_row {row : PlanRow}
    (h : Verdict casefold adapters rules manualTarget items item row) : RowOf item row := by
  cases h with
  | idle _ => exact ⟨rfl, rfl, rfl, rfl⟩
  | manual _ _ _ _ => exact ⟨rfl, rfl, rfl, rfl⟩
  | manualOccupied _ _ _ _ _ => exact ⟨rfl, rfl, rfl, rfl⟩
  | shared _ _ _ _ => exact ⟨rfl, rfl, rfl, rfl⟩
  | occupied _ _ _ _ _ _ => exact ⟨rfl, rfl, rfl, rfl⟩
  | free _ _ _ _ _ => exact ⟨rfl, rfl, rfl, rfl⟩

/-! The names of a run. -/

/-- What the bootstrap stores of a company: its folder and the roots are names that the file
system accepts. -/
structure Deployed (layout : Layout) (companyId : Text) : Prop where
  rooted : Rooted layout
  company : ∃ company, layout.company companyId = some company ∧ Clean company.folder
  manual : ∃ root, layout.root manualRoot = some root

/-- An item of the queue, or one that was selected from it. -/
def Stored (s : Store) (q : QueueItem) : Prop :=
  (∃ k : Text, s.queue[k]? = some q) ∨
    ∃ (id : Text) (found : Selection), s.selection[id]? = some found ∧ q ∈ found.items

theorem stored_named {layout : Layout} {s : Store} {q : QueueItem} (h : AllNamed layout s)
    (hq : Stored s q) : Named layout q := by
  rcases hq with ⟨k, hk⟩ | ⟨id, found, hfound, hq⟩
  · exact h.queue k q hk
  · exact h.selected id found hfound q hq

variable {layout : Layout} {fs : FileSystem}

theorem named_filename {q : QueueItem} (h : Named layout q) (hback : '\\' ∉ q.source.relativePath) :
    '/' ∉ q.filename ∧ '\\' ∉ q.filename ∧ '\x00' ∉ q.filename ∧
      badComponent q.filename = false := by
  rw [h.filename]
  obtain ⟨hbad, hnul⟩ := h.met.walked.leaf
  exact ⟨slash_not_mem_leaf _, fun hmem => hback ((leaf_suffix _).subset hmem), hnul, hbad⟩

theorem assigned_rule {target : Text × Text} (h : Assigned casefold rules item target) :
    ∃ rule ∈ rules, targetTuple rule.target rule.targetStem item.filename = target := by
  obtain ⟨_, hne, hall⟩ := assigned_iff.mp h
  obtain ⟨rule, hrule⟩ := List.exists_mem_of_ne_nil _ hne
  exact ⟨rule, (mem_winning.mp hrule).mem, hall rule hrule⟩

theorem assigned_clean {q : QueueItem} {target : Text × Text}
    (hrules : ∀ rule ∈ rules, Accepted layout rule.toRuleBody) (hq : Named layout q)
    (hback : '\\' ∉ q.source.relativePath) (h : Assigned casefold rules q.toPublicItem target) :
    ∃ root, layout.root target.1 = some root ∧ Clean target.2 := by
  obtain ⟨rule, hrule, rfl⟩ := assigned_rule h
  obtain ⟨hslash, hback, hnul, _⟩ := named_filename hq hback
  obtain ⟨root, hroot, _, _, hclean⟩ := target_clean (hrules rule hrule) hslash hback hnul
  exact ⟨root, hroot, hclean⟩

theorem probed_clean {q : QueueItem} {company : Company} {items : List PublicItem}
    {place : Text × Text} (hmanual : ∃ root, layout.root manualRoot = some root)
    (hfolder : Clean company.folder)
    (hrules : ∀ rule ∈ rules, Accepted layout rule.toRuleBody) (hq : Named layout q)
    (hback : '\\' ∉ q.source.relativePath)
    (h : Probed casefold rules ⟨manualRoot, company.folder⟩ items q.toPublicItem place) :
    ∃ root, layout.root place.1 = some root ∧ Clean place.2 := by
  cases h with
  | target htarget _ => exact assigned_clean hrules hq hback htarget
  | manual _ _ =>
    obtain ⟨root, hroot⟩ := hmanual
    obtain ⟨hslash, hback, hnul, hbad⟩ := named_filename hq hback
    refine ⟨root, hroot, ?_⟩
    rw [join_clean hfolder]
    exact clean_append.mpr ⟨hfolder, (clean_component hslash).mpr ⟨hback, hnul, hbad⟩⟩

theorem answerable_iff {place : Text × Text} {root : Root} {loc : Location}
    (hrooted : Rooted layout) (hroot : layout.root place.1 = some root) (hclean : Clean place.2)
    (hloc : location layout place.1 place.2 = .ok loc) :
    Answerable (Lookups.adapters layout fs) loc ↔ fs.Answers (below root place.2) := by
  unfold Answerable FileSystem.Answers
  rw [show (Lookups.adapters layout fs).exists_ loc = fs.exists_ (below root place.2) from
    existsAt_clean hrooted hroot hclean hloc]
  refine exists_congr fun occupied => and_congr_right fun _ => imp_congr_right fun _ => ?_
  exact sourceInfo_clean hrooted hroot hclean hloc

/-! Totality. -/

/-- Every item has its row, and the source of each can be resolved. -/
structure Total (v : Service) (fs : FileSystem) (companyId : Text) (items : List QueueItem)
    (rules : List Rule) : Prop where
  planned : ∃ rows, Lookups.plan v.layout fs v.casefold (items.map (·.toPublicItem)) rules
    companyId = .ok rows ∧ List.Forall₂ (fun q row => RowOf q.toPublicItem row) items rows
  resolved : ∀ q ∈ items, ∃ observed,
    (do fs.identity (← physical v.layout q.source)) = Except.ok observed

/-- No path has a backslash, and the operating system answers for the sources and for the
places that the planner looks up. -/
structure Answered (v : Service) (fs : FileSystem) (companyId : Text) (items : List QueueItem)
    (rules : List Rule) : Prop where
  backslash : ∀ q ∈ items, '\\' ∉ q.source.relativePath
  sources : ∀ q ∈ items, ∀ root, v.layout.root q.source.rootId = some root →
    ∃ observed, fs.stat (below root q.source.relativePath) = .ok observed
  places : ∀ company, v.layout.company companyId = some company → ∀ q ∈ items, ∀ place,
    Probed v.casefold rules ⟨manualRoot, company.folder⟩ (items.map (·.toPublicItem))
      q.toPublicItem place →
    ∀ root, v.layout.root place.1 = some root → fs.Answers (below root place.2)

variable {v : Service}

theorem resolved_iff {q : QueueItem} {root : Root} (hrooted : Rooted layout)
    (hq : Named layout q) (hroot : layout.root q.source.rootId = some root) :
    (∃ observed, (do fs.identity (← physical layout q.source)) = Except.ok observed) ↔
      '\\' ∉ q.source.relativePath ∧
        ∃ observed, fs.stat (below root q.source.relativePath) = .ok observed := by
  have hidentity : '\\' ∉ q.source.relativePath →
      fs.identity (below root q.source.relativePath) = fs.stat (below root q.source.relativePath) :=
    fun hback => identity_clean
      (below_clean hrooted hroot (clean_iff_walked.mpr ⟨hq.met.walked, hback⟩))
  constructor
  · rintro ⟨observed, h⟩
    obtain ⟨path, hpath, h⟩ := bind_eq_ok.mp h
    obtain ⟨hplaced, root', hroot', rfl⟩ := physical_eq_ok.mp hpath
    obtain rfl := Option.some.inj (hroot.symm.trans hroot')
    exact ⟨hplaced.backslash, observed, (hidentity hplaced.backslash) ▸ h⟩
  · rintro ⟨hback, observed, h⟩
    have hpath : physical layout q.source = .ok (below root q.source.relativePath) :=
      physical_eq_ok.mpr ⟨⟨⟨root, hroot⟩, hback, hq.met.walked.components⟩, root, hroot, rfl⟩
    exact ⟨observed, bind_eq_ok.mpr ⟨_, hpath, (hidentity hback).trans h⟩⟩

theorem plan_ok_iff {companyId : Text} {company : Company} {items : List PublicItem}
    {rules : List Rule} (hcompany : layout.company companyId = some company)
    {rows : List PlanRow} : Lookups.plan layout fs casefold items rules companyId = .ok rows ↔
      planRows casefold (Lookups.adapters layout fs) items rules ⟨manualRoot, company.folder⟩ =
        .ok rows := by
  unfold Lookups.plan requireCompany
  rw [hcompany]
  rfl

/-- Planning answers for every item that the scans of a run left exactly when no path has a
backslash and the operating system answers. -/
theorem planning_total {m : Machine World Cmd Op Val Exn Reply} (h : Walks v m)
    {companyId : Text} (hdeployed : Deployed v.layout companyId) (fs : FileSystem)
    {items : List QueueItem} (hitems : ∀ q ∈ items, Stored m.state.store q)
    (hids : (items.map (·.itemId)).Nodup) {rules : List Rule}
    (hrules : ∀ rule ∈ rules, Accepted v.layout rule.toRuleBody) :
    Total v fs companyId items rules ↔ Answered v fs companyId items rules := by
  obtain ⟨company, hcompany, hfolder⟩ := hdeployed.company
  have hrooted := hdeployed.rooted
  have hnamed : ∀ q ∈ items, Named v.layout q :=
    fun q hq => stored_named (walks_named h) (hitems q hq)
  have hids' : ((items.map (·.toPublicItem)).map (·.itemId)).Nodup := by
    rw [List.map_map]
    exact hids
  have hparts := keepsParts v.layout fs
  have hplannable : (∃ rows, Lookups.plan v.layout fs v.casefold (items.map (·.toPublicItem)) rules
      companyId = .ok rows) ↔ ∀ q ∈ items, Plannable v.casefold (Lookups.adapters v.layout fs) rules
        ⟨manualRoot, company.folder⟩ (items.map (·.toPublicItem)) q.toPublicItem := by
    simp only [plan_ok_iff hcompany]
    rw [planRows_plannable hparts hids', List.forall_mem_map]
  constructor
  · rintro ⟨⟨rows, hrows, _⟩, hresolved⟩
    have hsource : ∀ q ∈ items, ∀ root, v.layout.root q.source.rootId = some root →
        '\\' ∉ q.source.relativePath ∧
          ∃ observed, fs.stat (below root q.source.relativePath) = .ok observed :=
      fun q hq root hroot => (resolved_iff hrooted (hnamed q hq) hroot).mp (hresolved q hq)
    have hback : ∀ q ∈ items, '\\' ∉ q.source.relativePath := by
      intro q hq
      obtain ⟨root, hroot⟩ := (hnamed q hq).met.root
      exact (hsource q hq root hroot).1
    refine ⟨hback, fun q hq root hroot => (hsource q hq root hroot).2, ?_⟩
    intro company' hcompany' q hq place hplace root hroot
    obtain rfl := Option.some.inj (hcompany.symm.trans hcompany')
    obtain ⟨loc, hloc, hanswer⟩ := (hplannable.mp ⟨rows, hrows⟩ q hq).looked place hplace
    obtain ⟨_, _, hclean⟩ :=
      probed_clean hdeployed.manual hfolder hrules (hnamed q hq) (hback q hq) hplace
    exact (answerable_iff hrooted hroot hclean hloc).mp hanswer
  · rintro ⟨hback, hsources, hplaces⟩
    have hall : ∀ q ∈ items, Plannable v.casefold (Lookups.adapters v.layout fs) rules
        ⟨manualRoot, company.folder⟩ (items.map (·.toPublicItem)) q.toPublicItem := by
      intro q hq
      refine ⟨fun target htarget => ?_, fun place hplace => ?_⟩
      · obtain ⟨root, hroot, hclean⟩ := assigned_clean hrules (hnamed q hq) (hback q hq) htarget
        exact placed_iff.mp (hclean.placed hroot)
      · obtain ⟨root, hroot, hclean⟩ :=
          probed_clean hdeployed.manual hfolder hrules (hnamed q hq) (hback q hq) hplace
        obtain ⟨loc, hloc⟩ := placed_iff.mp (hclean.placed hroot)
        refine ⟨loc, hloc, (answerable_iff hrooted hroot hclean hloc).mpr ?_⟩
        exact hplaces company hcompany q hq place hplace root hroot
    obtain ⟨rows, hrows⟩ := hplannable.mpr hall
    refine ⟨⟨rows, hrows, ?_⟩, fun q hq => ?_⟩
    · have hverdicts := planRows_verdicts hparts hids' ((plan_ok_iff hcompany).mp hrows)
      exact (List.forall₂_map_left_iff.mp hverdicts).imp fun q row hrow => verdict_row hrow
    · obtain ⟨root, hroot⟩ := (hnamed q hq).met.root
      refine (resolved_iff hrooted (hnamed q hq) hroot).mpr ⟨hback q hq, ?_⟩
      exact hsources q hq root hroot

/-! Concrete scans: two files, one of them with a backslash in its name. -/

def scansWalk : Event Cmd Choice Env → Bool
  | .other (.scan _ _ found) => found.all fun f =>
      decide ('\x00' ∉ f.relative) && (f.relative.splitOn '/').all fun part => !badComponent part
  | _ => true

theorem walks_checked {w : World} (hw : Start w) {es : List (Event Cmd Choice Env)}
    {n : Machine World Cmd Op Val Exn Reply}
    (h : (system v).run (fun _ e => scansWalk e) es ⟨w, none⟩ = some n) : Walks v n := by
  refine Reachable.run (fun m e hc => ?_) (.init hw) h
  cases e with
  | other e =>
    rintro rootId now found rfl f hf
    have hf := List.all_eq_true.mp hc f hf
    obtain ⟨hnul, hparts⟩ := Bool.and_eq_true_iff.mp hf
    refine ⟨of_decide_eq_true hnul, fun part hpart => ?_⟩
    have := List.all_eq_true.mp hparts part hpart
    simpa using this
  | launch c => trivial
  | call x => exact fun _ _ _ _ => trivial
  | settle => trivial
  | crash => trivial

def oddFiles : List Intake.Found :=
  [⟨['a', '\\', 'b', '.', 't'], ⟨1, 7, 3, 0⟩, "queue-1".toList⟩,
    ⟨['c', '.', 't'], ⟨1, 8, 3, 0⟩, "queue-2".toList⟩]

def oddScans : List (Event Cmd Choice Env) :=
  [.other (.scan "in".toList 0 oddFiles), .other (.scan "in".toList 20 oddFiles)]

def oddId : Text := "queue-in-1-7".toList

def plainId : Text := "queue-in-1-8".toList

/-- One name with a backslash, and no plan can be made for either of the two ready files. -/
theorem backslash_unplanned : ∃ m odd plain, Walks small m ∧
    m.state.store.queue[oddId]? = some odd ∧ m.state.store.queue[plainId]? = some plain ∧
    odd.selectable = true ∧ plain.selectable = true ∧
    odd.source.relativePath = ['a', '\\', 'b', '.', 't'] ∧
    Lookups.plan small.layout (ofTree m.state.tree) small.casefold
      [odd.toPublicItem, plain.toPublicItem] [] "co".toList =
        .error (apiError .pathOutsideRoot) := by
  have hrun : ((system small).run (fun _ e => scansWalk e) oddScans
      ⟨smallWorld false [], none⟩).any (fun m =>
        (m.state.store.queue[oddId]?).any fun odd =>
        (m.state.store.queue[plainId]?).any fun plain =>
          odd.selectable && plain.selectable &&
          decide (odd.source.relativePath = ['a', '\\', 'b', '.', 't']) &&
          decide (Lookups.plan small.layout (ofTree m.state.tree) small.casefold
            [odd.toPublicItem, plain.toPublicItem] [] "co".toList =
              .error (apiError .pathOutsideRoot))) = true := by
    decide +kernel
  obtain ⟨m, hm, hrows⟩ := (Option.any_eq_true _ _).mp hrun
  obtain ⟨odd, hodd, hrows⟩ := (Option.any_eq_true _ _).mp hrows
  obtain ⟨plain, hplain, hrows⟩ := (Option.any_eq_true _ _).mp hrows
  simp only [Bool.and_eq_true, decide_eq_true_eq] at hrows
  obtain ⟨⟨⟨hselectable, hselectable'⟩, hpath⟩, hplan⟩ := hrows
  exact ⟨m, odd, plain, walks_checked (smallWorld_start _ _) hm, hodd, hplain, hselectable,
    hselectable', hpath, hplan⟩

theorem small_deployed : Deployed smallLayout "co".toList := by
  refine ⟨fun rootId root hroot => .inr ?_, ⟨smallCompany, rfl, ?_⟩, ?_⟩
  · have hbase : ∀ base ∈ ["in".toList, "ar".toList, "mr".toList, "qr".toList], Clean base := by
      intro base hbase
      have hparts : parts base = .ok (base.splitOn '/') := by
        revert base
        decide
      exact (parts_eq_ok.mp hparts).1
    simp only [smallLayout] at hroot
    split at hroot
    · cases hroot
      exact hbase _ (by decide)
    split at hroot
    · cases hroot
      exact hbase _ (by decide)
    split at hroot
    · cases hroot
      exact hbase _ (by decide)
    split at hroot
    · cases hroot
      exact hbase _ (by decide)
    · cases hroot
  · have hparts : parts smallCompany.folder = .ok [['C']] := by decide
    exact (parts_eq_ok.mp hparts).1
  · exact ⟨smallRoot "Manual" "mr" none, by decide⟩

/-- Two files without a backslash: both rules match the first, and none matches the second. -/
def plainFiles : List Intake.Found :=
  [⟨['c', '.', 't'], ⟨1, 8, 3, 0⟩, "queue-2".toList⟩,
    ⟨['d', '/', 'e', '.', 'u'], ⟨1, 9, 3, 0⟩, "queue-3".toList⟩]

def plainScans : List (Event Cmd Choice Env) :=
  [.other (.scan "in".toList 0 plainFiles), .other (.scan "in".toList 20 plainFiles)]

def otherId : Text := "queue-in-1-9".toList

def twoRules : List Rule :=
  [⟨{ smallRule with mask := ['c', '*'] }, ['d'], some ['v']⟩,
    ⟨{ smallRule with ruleId := ['q'], mask := ['*', '.', 't'], priority := 2 }, ['d'], some ['v']⟩]

theorem twoRules_accepted : ∀ rule ∈ twoRules, Accepted small.layout rule.toRuleBody := by
  have hvalid : DictionaryService.validateRules small.layout (smallTree []) "co".toList
      (twoRules.map (·.toRuleBody)) = .ok () := by decide +kernel
  exact fun rule hrule => ⟨_, _, _, hvalid, List.mem_map_of_mem hrule⟩

/-- Both files are planned, one by its rules and one for the manual folder. -/
theorem planning_total_plain : ∃ m plain other, Walks small m ∧
    m.state.store.queue[plainId]? = some plain ∧ m.state.store.queue[otherId]? = some other ∧
    plain.selectable = true ∧ other.selectable = true ∧
    Total small (ofTree m.state.tree) "co".toList [plain, other] twoRules := by
  have hrun : ((system small).run (fun _ e => scansWalk e) plainScans
      ⟨smallWorld false [], none⟩).any (fun m =>
        (m.state.store.queue[plainId]?).any fun plain =>
        (m.state.store.queue[otherId]?).any fun other =>
          plain.selectable && other.selectable && decide ([plain, other].map (·.itemId) =
            [plainId, otherId] ∧ '\\' ∉ plain.source.relativePath ∧
              '\\' ∉ other.source.relativePath)) = true := by
    decide +kernel
  obtain ⟨m, hm, hrows⟩ := (Option.any_eq_true _ _).mp hrun
  obtain ⟨plain, hplain, hrows⟩ := (Option.any_eq_true _ _).mp hrows
  obtain ⟨other, hother, hrows⟩ := (Option.any_eq_true _ _).mp hrows
  simp only [Bool.and_eq_true, decide_eq_true_eq] at hrows
  obtain ⟨⟨hselectable, hselectable'⟩, hids, hpath, hpath'⟩ := hrows
  have hwalks := walks_checked (smallWorld_start _ _) hm
  refine ⟨m, plain, other, hwalks, hplain, hother, hselectable, hselectable', ?_⟩
  refine (planning_total hwalks small_deployed (ofTree m.state.tree) ?_ ?_
    twoRules_accepted).mpr ⟨?_, ?_, ?_⟩
  · intro q hq
    rcases List.mem_pair.mp hq with rfl | rfl
    · exact .inl ⟨plainId, hplain⟩
    · exact .inl ⟨otherId, hother⟩
  · rw [hids]
    decide
  · intro q hq
    rcases List.mem_pair.mp hq with rfl | rfl
    · exact hpath
    · exact hpath'
  · exact fun q hq root hroot => ⟨_, rfl⟩
  · exact fun company hcompany q hq place hplace root hroot => ⟨_, rfl, fun _ => ⟨_, rfl⟩⟩

end PlanTotality
