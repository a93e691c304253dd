import WiseWay.ExactlyOnce
import WiseWay.PlannedBatch

/-! # The publication gate

A simulation counts the conflicts of a plan that was made for the draft in the tree of that
moment. Neither the version a rule comes from nor the occupancy of a target decides which
rules win, so the counts are those of every later plan under the published version. -/
namespace PublicationGate

open Records Services DictionaryService Requests ExactlyOnce
open Changes (Keyed Keyed.put)
open Fallible (mapM_ok mapM_commutes mapM_related forall₂_zipIdx)

variable {v : Server} {layout : Layout} {casefold : Text → Text}

/-! Versions of rules. -/

def eraseVersion (rule : Rule) : Rule := { rule with versionId := none }

def eraseReference (r : RuleReference) : RuleReference := { r with versionId := none }

def eraseRow (row : PlanRow) : PlanRow :=
  { row with
    matchedRules := row.matchedRules.map eraseReference
    selectedRule := row.selectedRule.map eraseReference }

def eraseWork (row : Rules.WorkRow) : Rules.WorkRow := (eraseRow row.1, row.2)

theorem minimumPriority_erased (rules : List Rule) :
    Rules.minimumPriority (rules.map eraseVersion) = Rules.minimumPriority rules := by
  simp [Rules.minimumPriority, Function.comp_def, eraseVersion]

theorem winners_erased (rules : List Rule) :
    Rules.winners (rules.map eraseVersion) = (Rules.winners rules).map eraseVersion := by
  simp only [Rules.winners, minimumPriority_erased, List.filter_map]
  rfl

theorem leastRule_erased : ∀ rules : List Rule,
    Rules.leastRule (rules.map eraseVersion) = (Rules.leastRule rules).map eraseVersion
  | [] => rfl
  | rule :: rest => by
    simp only [List.map_cons, Rules.leastRule, leastRule_erased rest]
    cases Rules.leastRule rest with
    | none => rfl
    | some best =>
      have hbefore : Rules.ruleBefore (eraseVersion best) (eraseVersion rule) =
          Rules.ruleBefore best rule := rfl
      simp only [Option.map_some, hbefore]
      split <;> rfl

theorem matching_erased (rules : List Rule) (path : Text) :
    ((rules.map eraseVersion).filter fun rule => Rules.matchRule casefold rule path) =
      (rules.filter fun rule => Rules.matchRule casefold rule path).map eraseVersion := by
  rw [List.filter_map]
  rfl

theorem planOne_erased {adapters : Rules.Adapters} (rules : List Rule) (item : PublicItem) :
    Rules.planOne casefold adapters (rules.map eraseVersion) item =
      (Rules.planOne casefold adapters rules item).map eraseRow := by
  unfold Rules.planOne
  dsimp only
  split
  · rfl
  simp only [matching_erased, List.map_eq_nil_iff]
  split
  · rfl
  have htuples : ((Rules.winners (rules.filter fun rule =>
        Rules.matchRule casefold rule item.source.relativePath)).map eraseVersion).map
        (fun rule => Rules.targetTuple rule.target rule.targetStem item.filename) =
      (Rules.winners (rules.filter fun rule =>
        Rules.matchRule casefold rule item.source.relativePath)).map
        (fun rule => Rules.targetTuple rule.target rule.targetStem item.filename) := by
    rw [List.map_map]
    rfl
  rw [winners_erased, htuples, leastRule_erased, List.map_map]
  generalize (Rules.winners (rules.filter fun rule =>
    Rules.matchRule casefold rule item.source.relativePath)) = won
  generalize (won.map fun rule =>
    Rules.targetTuple rule.target rule.targetStem item.filename).dedup = tuples
  have hreferences : won.map (Rules.reference ∘ eraseVersion) =
      (won.map Rules.reference).map eraseReference := by
    rw [List.map_map]
    rfl
  rw [hreferences]
  cases Rules.leastRule won with
  | none => rcases tuples with _ | ⟨tuple, _ | ⟨_, _⟩⟩ <;> rfl
  | some selected =>
    rcases tuples with _ | ⟨tuple, _ | ⟨_, _⟩⟩
    · rfl
    · dsimp only [Option.map_some]
      cases adapters.location tuple.1 tuple.2 <;> rfl
    · rfl

theorem block_erased {adapters : Rules.Adapters} (row : Rules.WorkRow) (reason : Reason)
    (kind : CollisionKind) (target : Location) (others : List Text) :
    Rules.block adapters (eraseWork row) reason kind target others =
      (Rules.block adapters row reason kind target others).map eraseWork := by
  unfold Rules.block
  split
  · rfl
  · cases adapters.sourceInfo target <;> rfl

theorem manualReview_erased {adapters : Rules.Adapters} (manualTarget : TargetDirectory)
    (rows : List Rules.WorkRow) :
    Rules.applyManualReviewCollisions adapters manualTarget (rows.map eraseWork) =
      (Rules.applyManualReviewCollisions adapters manualTarget rows).map (List.map eraseWork) := by
  refine mapM_commutes (fun row => ?_) rows
  by_cases hstate : row.1.predictedState ≠ .willManualReview
  · rw [if_pos (show (eraseWork row).1.predictedState ≠ .willManualReview from hstate),
      if_pos hstate]
    rfl
  · rw [if_neg (show ¬(eraseWork row).1.predictedState ≠ .willManualReview from hstate),
      if_neg hstate]
    simp only [block_erased]
    change (adapters.location manualTarget.rootId
      (Rules.join manualTarget.relativeDirectory row.1.filename) >>= _) = _
    cases adapters.location manualTarget.rootId
        (Rules.join manualTarget.relativeDirectory row.1.filename) with
    | error e => rfl
    | ok target =>
      change (adapters.exists_ target >>= _) = Except.map _ (adapters.exists_ target >>= _)
      cases adapters.exists_ target with
      | error e => rfl
      | ok occupied => cases occupied <;> rfl

theorem sharers_erased (rows : List Rules.WorkRow) (i : ℕ) (key : Text × Text) :
    Rules.sharers (rows.map eraseWork) i key = Rules.sharers rows i key := by
  simp only [Rules.sharers, List.zipIdx_map, List.filter_map, List.map_map]
  rfl

theorem target_erased {adapters : Rules.Adapters} (rows : List Rules.WorkRow) :
    Rules.applyTargetCollisions adapters (rows.map eraseWork) =
      (Rules.applyTargetCollisions adapters rows).map (List.map eraseWork) := by
  unfold Rules.applyTargetCollisions
  rw [List.zipIdx_map]
  refine mapM_commutes (fun entry => ?_) rows.zipIdx
  obtain ⟨row, i⟩ := entry
  simp only [Prod.map, id]
  have hstate : (eraseWork row).1.predictedState = row.1.predictedState := rfl
  have htarget : (eraseWork row).1.target = row.1.target := rfl
  rw [hstate, htarget]
  generalize row.1.predictedState = state, row.1.target = found
  cases found with
  | none => cases state <;> rfl
  | some target =>
    cases state with
    | willMove =>
      simp only [sharers_erased, block_erased]
      by_cases hothers : Rules.sharers rows i (Rules.targetKey target) ≠ []
      · rw [if_pos hothers, if_pos hothers]
      · rw [if_neg hothers, if_neg hothers]
        cases adapters.exists_ target with
        | error e => rfl
        | ok occupied => cases occupied <;> rfl
    | _ => rfl

theorem plan_erased {tree : FileTree} (items : List PublicItem) (rules : List Rule)
    (companyId : Text) :
    plan layout casefold tree items (rules.map eraseVersion) companyId =
      (plan layout casefold tree items rules companyId).map (List.map eraseRow) := by
  unfold plan
  cases requireCompany layout companyId with
  | error e => rfl
  | ok company =>
    change Rules.planRows _ _ _ _ _ = Except.map _ (Rules.planRows _ _ _ _ _)
    unfold Rules.planRows
    have hone : (items.mapM fun item => do
          let row ← Rules.planOne casefold (adapters layout tree) (rules.map eraseVersion) item
          return (row, Rules.sourceMetadata item)) =
        (items.mapM fun item => do
          let row ← Rules.planOne casefold (adapters layout tree) rules item
          return (row, Rules.sourceMetadata item)).map (List.map eraseWork) := by
      rw [← mapM_commutes (g := id) (fun item => ?_) items, List.map_id]
      rw [id, planOne_erased]
      cases Rules.planOne casefold (adapters layout tree) rules item <;> rfl
    rw [hone]
    cases (items.mapM fun item => do
      let row ← Rules.planOne casefold (adapters layout tree) rules item
      return (row, Rules.sourceMetadata item)) with
    | error e => rfl
    | ok rows =>
      change (Rules.applyManualReviewCollisions _ _ (rows.map eraseWork) >>= _) =
        Except.map _ (Rules.applyManualReviewCollisions _ _ rows >>= _)
      rw [manualReview_erased]
      cases Rules.applyManualReviewCollisions (adapters layout tree) ⟨manualRoot, company.folder⟩
        rows with
      | error e => rfl
      | ok reviewed =>
        change (Rules.applyTargetCollisions _ (reviewed.map eraseWork) >>= _) =
          Except.map _ (Rules.applyTargetCollisions _ reviewed >>= _)
        rw [target_erased]
        cases Rules.applyTargetCollisions (adapters layout tree) reviewed with
        | error e => rfl
        | ok compared =>
          change Except.ok _ = Except.ok _
          rw [List.map_map, List.map_map]
          rfl

/-! Trees. -/

structure SameMatch (a b : PlanRow) : Prop where
  idle : b.predictedState = .notReady ↔ a.predictedState = .notReady
  matched : b.matchedRules = a.matchedRules
  selected : b.selectedRule = a.selectedRule

/-- Rows that differ only in what the first pass saw in the tree. -/
structure SameVerdict (a b : PlanRow) : Prop extends SameMatch a b where
  itemId : b.itemId = a.itemId
  moved : b.predictedState = .willMove ↔ a.predictedState = .willMove
  target : b.target = a.target

theorem existsAt_anywhere {tree : FileTree} {target : Location} {b : Bool}
    (h : existsAt layout tree target = .ok b) (other : FileTree) :
    (∃ b', existsAt layout other target = .ok b') ∧
      ∃ info, sourceInfo layout other target = .ok info := by
  obtain ⟨path, hpath, h⟩ := bind_eq_ok.mp h
  obtain ⟨checked, hchecked, _⟩ := bind_eq_ok.mp h
  have hstat : stat other path = .ok (fileAt other path) :=
    bind_eq_ok.mpr ⟨checked, hchecked, rfl⟩
  exact ⟨⟨_, bind_eq_ok.mpr ⟨path, hpath, bind_eq_ok.mpr ⟨checked, hchecked, rfl⟩⟩⟩,
    _, bind_eq_ok.mpr ⟨path, hpath, bind_eq_ok.mpr ⟨_, hstat, rfl⟩⟩⟩

theorem block_keeps {adapters : Rules.Adapters} {row next : Rules.WorkRow} {reason : Reason}
    {kind : CollisionKind} {target : Location} {others : List Text}
    (h : Rules.block adapters row reason kind target others = .ok next) :
    next.1 = { row.1 with
      predictedState := .requiresDecision
      reasonCode := next.1.reasonCode
      collision := next.1.collision } := by
  unfold Rules.block at h
  split at h
  · cases h
    rfl
  · obtain ⟨existing, _, h⟩ := bind_eq_ok.mp h
    cases h
    rfl

theorem block_ok {adapters : Rules.Adapters} {target : Location} {info : Option FileMetadata}
    (h : adapters.sourceInfo target = .ok info) (row : Rules.WorkRow) (reason : Reason)
    (kind : CollisionKind) (others : List Text) :
    ∃ next, Rules.block adapters row reason kind target others = .ok next := by
  unfold Rules.block
  split
  · exact ⟨_, rfl⟩
  · exact ⟨_, bind_eq_ok.mpr ⟨info, h, rfl⟩⟩

/-- The row itself, or the row blocked. -/
def Held (row next : PlanRow) : Prop :=
  next = row ∨ row.predictedState ≠ .notReady ∧ next = { row with
    predictedState := .requiresDecision
    reasonCode := next.reasonCode
    collision := next.collision }

theorem Held.match {row next : PlanRow} (h : Held row next) : SameMatch row next := by
  rcases h with rfl | ⟨hidle, h⟩
  · exact ⟨.rfl, rfl, rfl⟩
  · rw [h]
    exact ⟨by simp [hidle], rfl, rfl⟩

theorem Held.verdict {row next : PlanRow} (h : Held row next)
    (hstays : row.predictedState ≠ .willMove) : SameVerdict row next := by
  refine ⟨h.match, ?_, ?_, ?_⟩
  all_goals
    rcases h with rfl | ⟨_, h⟩
    · rfl
    · rw [h]
      try simp [hstays]

theorem SameMatch.symm {a b : PlanRow} (h : SameMatch a b) : SameMatch b a :=
  ⟨h.idle.symm, h.matched.symm, h.selected.symm⟩

theorem SameMatch.trans {a b c : PlanRow} (h : SameMatch a b) (h' : SameMatch b c) :
    SameMatch a c :=
  ⟨h'.idle.trans h.idle, h'.matched.trans h.matched, h'.selected.trans h.selected⟩

theorem SameVerdict.symm {a b : PlanRow} (h : SameVerdict a b) : SameVerdict b a :=
  ⟨h.toSameMatch.symm, h.itemId.symm, h.moved.symm, h.target.symm⟩

theorem SameVerdict.trans {a b c : PlanRow} (h : SameVerdict a b) (h' : SameVerdict b c) :
    SameVerdict a c :=
  ⟨h.toSameMatch.trans h'.toSameMatch, h'.itemId.trans h.itemId, h'.moved.trans h.moved,
    h'.target.trans h.target⟩

/-- The row is blocked if the place is occupied. -/
def look (adapters : Rules.Adapters) (row : Rules.WorkRow) (reason : Reason)
    (kind : CollisionKind) (target : Location) : Except Exn Rules.WorkRow := do
  if ← adapters.exists_ target then Rules.block adapters row reason kind target []
  else return row

theorem look_held {adapters : Rules.Adapters} {row next : Rules.WorkRow} {reason : Reason}
    {kind : CollisionKind} {target : Location}
    (h : look adapters row reason kind target = .ok next)
    (hidle : row.1.predictedState ≠ .notReady) : Held row.1 next.1 := by
  obtain ⟨b, _, h⟩ := bind_eq_ok.mp h
  cases b with
  | true => exact .inr ⟨hidle, block_keeps h⟩
  | false =>
    cases h
    exact .inl rfl

theorem look_anywhere {tree : FileTree} {row next : Rules.WorkRow} {reason : Reason}
    {kind : CollisionKind} {target : Location}
    (h : look (adapters layout tree) row reason kind target = .ok next) (other : FileTree)
    (row' : Rules.WorkRow) :
    ∃ next', look (adapters layout other) row' reason kind target = .ok next' := by
  obtain ⟨b, hb, _⟩ := bind_eq_ok.mp h
  obtain ⟨⟨b', hb'⟩, info, hinfo⟩ := existsAt_anywhere hb other
  cases b' with
  | true =>
    have hinfo' : (adapters layout other).sourceInfo target = .ok info := hinfo
    obtain ⟨next', hnext'⟩ := block_ok hinfo' row' reason kind []
    exact ⟨next', bind_eq_ok.mpr ⟨true, hb', hnext'⟩⟩
  | false => exact ⟨row', bind_eq_ok.mpr ⟨false, hb', rfl⟩⟩

theorem manualReview_anywhere {tree : FileTree} (other : FileTree) {manualTarget : TargetDirectory}
    {rows next : List Rules.WorkRow}
    (h : Rules.applyManualReviewCollisions (adapters layout tree) manualTarget rows = .ok next) :
    ∃ next', Rules.applyManualReviewCollisions (adapters layout other) manualTarget rows =
      .ok next' ∧ List.Forall₂ (fun a b => SameVerdict a.1 b.1) next next' := by
  refine mapM_related (R := Eq) (fun row _ next heq hrow => ?_) (List.forall₂_refl rows) h
  subst heq
  by_cases hstate : row.1.predictedState ≠ .willManualReview
  · rw [if_pos hstate] at hrow ⊢
    cases hrow
    exact ⟨_, rfl, ⟨.rfl, rfl, rfl⟩, rfl, .rfl, rfl⟩
  · rw [if_neg hstate] at hrow ⊢
    have hmanual : row.1.predictedState = .willManualReview := not_not.mp hstate
    obtain ⟨target, htarget, hrow⟩ := bind_eq_ok.mp hrow
    obtain ⟨next', hnext'⟩ := look_anywhere hrow other row
    refine ⟨next', bind_eq_ok.mpr ⟨target, htarget, hnext'⟩, ?_⟩
    have hheld := look_held hrow (by simp [hmanual])
    have hheld' := look_held hnext' (by simp [hmanual])
    exact (hheld.verdict (by simp [hmanual])).symm.trans (hheld'.verdict (by simp [hmanual]))

theorem sharers_same {rows rows' : List Rules.WorkRow}
    (h : List.Forall₂ (fun a b => SameVerdict a.1 b.1) rows rows') (i : ℕ) (key : Text × Text) :
    Rules.sharers rows' i key = Rules.sharers rows i key := by
  unfold Rules.sharers
  generalize 0 = start
  induction h generalizing start with
  | nil => rfl
  | cons hr _ ih =>
    simp only [List.zipIdx_cons, List.filter_cons, hr.moved, hr.target]
    split
    · simp only [List.map_cons, ih, hr.itemId]
    · exact ih _

/-- What the second pass does with one row whose target is planned by `others` too. -/
def compare (adapters : Rules.Adapters) (row : Rules.WorkRow) (target : Location)
    (others : List Text) : Except Exn Rules.WorkRow :=
  if others ≠ [] then
    Rules.block adapters row .targetOccupied .duplicatePlanTarget target others
  else look adapters row .targetOccupied .existingTarget target

theorem compare_held {adapters : Rules.Adapters} {row next : Rules.WorkRow} {target : Location}
    {others : List Text} (h : compare adapters row target others = .ok next)
    (hidle : row.1.predictedState ≠ .notReady) : Held row.1 next.1 := by
  unfold compare at h
  split at h
  · exact .inr ⟨hidle, block_keeps h⟩
  · exact look_held h hidle

theorem compare_anywhere {tree : FileTree} {row next : Rules.WorkRow} {target : Location}
    {others : List Text} (h : compare (adapters layout tree) row target others = .ok next)
    (other : FileTree) (row' : Rules.WorkRow) :
    ∃ next', compare (adapters layout other) row' target others = .ok next' := by
  unfold compare at h ⊢
  split
  · exact ⟨_, rfl⟩
  · rw [if_neg ‹_›] at h
    exact look_anywhere h other row'

theorem target_anywhere {tree : FileTree} (other : FileTree) {rows rows' next : List Rules.WorkRow}
    (hrows : List.Forall₂ (fun a b => SameVerdict a.1 b.1) rows rows')
    (h : Rules.applyTargetCollisions (adapters layout tree) rows = .ok next) :
    ∃ next', Rules.applyTargetCollisions (adapters layout other) rows' = .ok next' ∧
      List.Forall₂ (fun a b => SameMatch a.1 b.1) next next' := by
  refine mapM_related (fun entry entry' next hsame hrow => ?_) (forall₂_zipIdx hrows 0) h
  obtain ⟨row, i⟩ := entry
  obtain ⟨row', j⟩ := entry'
  obtain ⟨hverdict, rfl : i = j⟩ := hsame
  dsimp only at hrow hverdict ⊢
  split at hrow
  · rename_i target hstate htarget
    have hstate' := hverdict.moved.mpr hstate
    rw [hstate', hverdict.target, htarget]
    dsimp only
    rw [sharers_same hrows]
    obtain ⟨next', hnext'⟩ := compare_anywhere hrow other row'
    have hheld := compare_held hrow (by simp [hstate])
    have hheld' := compare_held hnext' (by simp [hstate'])
    exact ⟨next', hnext', hheld.match.symm.trans (hverdict.toSameMatch.trans hheld'.match)⟩
  · rename_i hother
    cases hrow
    split
    · rename_i target hstate' htarget'
      exact (hother target (hverdict.moved.mp hstate') (hverdict.target ▸ htarget')).elim
    · exact ⟨row', rfl, hverdict.toSameMatch⟩

theorem plan_anywhere {tree : FileTree} {items : List PublicItem} {rules : List Rule}
    {companyId : Text} {rows : List PlanRow}
    (h : plan layout casefold tree items rules companyId = .ok rows) (other : FileTree) :
    ∃ rows', plan layout casefold other items rules companyId = .ok rows' ∧
      List.Forall₂ SameMatch rows rows' := by
  obtain ⟨company, hcompany, h⟩ := bind_eq_ok.mp h
  obtain ⟨planned, hplanned, h⟩ := bind_eq_ok.mp h
  obtain ⟨reviewed, hreviewed, h⟩ := bind_eq_ok.mp h
  obtain ⟨compared, hcompared, h⟩ := bind_eq_ok.mp h
  cases h
  obtain ⟨reviewed', hreviewed', hverdicts⟩ := manualReview_anywhere other hreviewed
  obtain ⟨compared', hcompared', hmatches⟩ := target_anywhere other hverdicts hcompared
  refine ⟨compared'.map Prod.fst, bind_eq_ok.mpr ⟨company, hcompany, bind_eq_ok.mpr
    ⟨planned, hplanned, bind_eq_ok.mpr ⟨reviewed', hreviewed', bind_eq_ok.mpr
      ⟨compared', hcompared', rfl⟩⟩⟩⟩, ?_⟩
  rw [List.forall₂_map_left_iff, List.forall₂_map_right_iff]
  exact hmatches

/-! Files that are ready. -/

theorem manualReview_held {adapters : Rules.Adapters} {manualTarget : TargetDirectory}
    {rows next : List Rules.WorkRow}
    (h : Rules.applyManualReviewCollisions adapters manualTarget rows = .ok next) :
    List.Forall₂ (fun a b => Held a.1 b.1) rows next := by
  refine (mapM_ok h).imp fun row next hrow => ?_
  by_cases hstate : row.1.predictedState ≠ .willManualReview
  · rw [if_pos hstate] at hrow
    cases hrow
    exact .inl rfl
  · rw [if_neg hstate] at hrow
    obtain ⟨target, _, hrow⟩ := bind_eq_ok.mp hrow
    exact look_held hrow (by simp [not_not.mp hstate])

theorem target_held {adapters : Rules.Adapters} {rows next : List Rules.WorkRow}
    (h : Rules.applyTargetCollisions adapters rows = .ok next) :
    List.Forall₂ (fun a b => Held a.1 b.1) rows next := by
  have hentries : List.Forall₂ (fun entry next => Held entry.1.1 next.1) rows.zipIdx next := by
    refine (mapM_ok h).imp fun entry next hrow => ?_
    obtain ⟨row, i⟩ := entry
    dsimp only at hrow
    split at hrow
    · rename_i hstate _
      exact compare_held hrow (by simp [hstate])
    · cases hrow
      exact .inl rfl
  rw [← List.zipIdx_map_fst 0 rows, List.forall₂_map_left_iff]
  exact hentries

theorem planOne_ready {adapters : Rules.Adapters} {rules : List Rule} {item : PublicItem}
    {row : PlanRow} (hready : item.status = .ready) (hselectable : item.selectable = true)
    (h : Rules.planOne casefold adapters rules item = .ok row) :
    row.predictedState ≠ .notReady ∧ (row.matchedRules = [] → row.selectedRule = none) := by
  unfold Rules.planOne at h
  simp only [hready, hselectable, ne_eq, not_true_eq_false, false_and, Bool.true_eq_false,
    or_self, if_false] at h
  split at h
  · cases h
    exact ⟨by rintro ⟨⟩, fun _ => rfl⟩
  split at h
  · rename_i hselected
    obtain ⟨target, _, h⟩ := bind_eq_ok.mp h
    cases h
    refine ⟨by rintro ⟨⟩, fun hnone => ?_⟩
    rw [List.map_eq_nil_iff.mp hnone] at hselected
    cases hselected
  · cases h
    exact ⟨by rintro ⟨⟩, fun _ => rfl⟩

theorem forall₂_mem {α β : Type} {R : α → β → Prop} {b : β} : ∀ {l : List α} {m : List β},
    List.Forall₂ R l m → b ∈ m → ∃ a ∈ l, R a b
  | _, _, .cons hr hrs, hb => by
    rcases List.mem_cons.mp hb with rfl | hb
    · exact ⟨_, List.mem_cons_self .., hr⟩
    · obtain ⟨a, ha, hr⟩ := forall₂_mem hrs hb
      exact ⟨a, List.mem_cons_of_mem _ ha, hr⟩

theorem plan_ready {tree : FileTree} {items : List PublicItem} {rules : List Rule}
    {companyId : Text} {rows : List PlanRow}
    (hitems : ∀ item ∈ items, item.status = .ready ∧ item.selectable = true)
    (h : plan layout casefold tree items rules companyId = .ok rows) :
    ∀ row ∈ rows, row.predictedState ≠ .notReady ∧
      (row.matchedRules = [] → row.selectedRule = none) := by
  obtain ⟨company, _, h⟩ := bind_eq_ok.mp h
  obtain ⟨planned, hplanned, h⟩ := bind_eq_ok.mp h
  obtain ⟨reviewed, hreviewed, h⟩ := bind_eq_ok.mp h
  obtain ⟨compared, hcompared, h⟩ := bind_eq_ok.mp h
  cases h
  have hrows := Fallible.forall₂_comp (mapM_ok hplanned) (Fallible.forall₂_comp
    (manualReview_held hreviewed) (target_held hcompared))
  intro row hrow
  obtain ⟨last, hlast, rfl⟩ := List.mem_map.mp hrow
  obtain ⟨item, hitem, first, hfirst, middle, hheld, hheld'⟩ := forall₂_mem hrows hlast
  obtain ⟨found, hfound, hfirst⟩ := bind_eq_ok.mp hfirst
  cases hfirst
  have hsame := hheld.match.trans hheld'.match
  rw [ne_eq, hsame.idle, hsame.matched, hsame.selected]
  exact planOne_ready (hitems item hitem).1 (hitems item hitem).2 hfound

theorem readyItems_ready {s : Store} {companyId : Text} :
    ∀ item ∈ readyItems s companyId, item.status = .ready ∧ item.selectable = true := by
  intro item hitem
  obtain ⟨q, hq, rfl⟩ := List.mem_map.mp hitem
  have := (List.mem_filter.mp hq).2
  simp only [decide_eq_true_eq] at this
  exact this.2

/-! The gate. -/

/-- Every plan of the ready files of a company under its active rules exists and has no row
with rules that disagree, and none without a rule unless that is acknowledged. -/
def Gated (v : Server) (acknowledged : Bool) (companyId : Text) (s : Store) : Prop :=
  ∃ rules, flattenedRules s companyId none = .ok rules ∧ ∀ tree, ∃ rows,
    plan v.layout v.casefold tree (readyItems s companyId) rules companyId = .ok rows ∧
      ∀ row ∈ rows, ¬(2 ≤ row.matchedRules.length ∧ row.selectedRule = none) ∧
        (acknowledged = false → row.matchedRules ≠ [])

theorem counted_gated {tree : FileTree} {items : List PublicItem} {rules active : List Rule}
    {companyId : Text} {rows : List PlanRow} {acknowledged : Bool}
    (hitems : ∀ item ∈ items, item.status = .ready ∧ item.selectable = true)
    (hrows : plan layout casefold tree items rules companyId = .ok rows)
    (hconflicts : (Rules.planCounts rows).ruleConflicts = 0)
    (hscenario : acknowledged = false → (Rules.planCounts rows).noScenario = 0)
    (hactive : active.map eraseVersion = rules.map eraseVersion) (other : FileTree) :
    ∃ rows', plan layout casefold other items active companyId = .ok rows' ∧
      ∀ row ∈ rows', ¬(2 ≤ row.matchedRules.length ∧ row.selectedRule = none) ∧
        (acknowledged = false → row.matchedRules ≠ []) := by
  obtain ⟨seen, hseen, hsame⟩ := plan_anywhere hrows other
  have herased : (plan layout casefold other items active companyId).map (List.map eraseRow) =
      .ok (seen.map eraseRow) := by
    rw [← plan_erased, hactive, plan_erased, hseen]
    rfl
  cases hplan : plan layout casefold other items active companyId with
  | error e =>
    rw [hplan] at herased
    cases herased
  | ok rows' =>
    rw [hplan] at herased
    have hmap : rows'.map eraseRow = seen.map eraseRow := Except.ok.inj herased
    refine ⟨rows', rfl, fun row hrow => ?_⟩
    obtain ⟨row₂, hrow₂, hsame₂⟩ : ∃ row₂ ∈ seen, eraseRow row₂ = eraseRow row :=
      List.mem_map.mp (hmap ▸ List.mem_map_of_mem hrow)
    obtain ⟨row₁, hrow₁, hmatch⟩ := forall₂_mem hsame hrow₂
    obtain ⟨hidle, hnothing⟩ := plan_ready hitems hrows row₁ hrow₁
    have hlength : row₁.matchedRules.length = row.matchedRules.length := by
      have := congrArg (fun r : PlanRow => r.matchedRules.length) hsame₂
      simpa [eraseRow, hmatch.matched] using this
    have hselected : row₁.selectedRule = none ↔ row.selectedRule = none := by
      have := congrArg (fun r : PlanRow => r.selectedRule) hsame₂
      rw [← hmatch.selected, ← Option.map_eq_none_iff (f := eraseReference),
        ← Option.map_eq_none_iff (f := eraseReference) (x := row.selectedRule)]
      exact iff_of_eq (congrArg (· = none) this)
    refine ⟨fun ⟨htwo, hnone⟩ => ?_, fun hack hempty => ?_⟩
    · have := List.countP_eq_zero.mp hconflicts row₁ hrow₁
      simp only [Rules.manualCandidate, decide_eq_true_eq] at this
      exact this ⟨⟨hselected.mpr hnone, hidle⟩, hlength ▸ htwo⟩
    · have hnone : row₁.matchedRules = [] :=
        List.eq_nil_of_length_eq_zero (hlength.trans (by rw [hempty]; rfl))
      have := List.countP_eq_zero.mp (hscenario hack) row₁ hrow₁
      simp only [Rules.manualCandidate, decide_eq_true_eq] at this
      exact this ⟨⟨hnothing hnone, hidle⟩, hnone⟩

/-! The rules in force after a publication. -/

theorem list_replaced {V : Type} {t : Table V} {key : V → Text} (hkeys : Keyed key t) {k : Text}
    {old : V} (hold : t[k]? = some old) (new : V) :
    list (t.insert k new) = (list t).map fun u => if key u = k then new else u := by
  have hmap : t.insert k new = t.map fun j u => if j = k then new else u := by
    refine Std.ExtTreeMap.ext_getElem? fun j => ?_
    rw [get_put, Std.ExtTreeMap.getElem?_map]
    by_cases hj : k = j
    · subst hj
      simp [hold]
    · rw [if_neg hj]
      cases t[j]? with
      | none => rfl
      | some u => simp [Ne.symm hj]
  rw [hmap, list, Std.ExtTreeMap.toList_map, list, List.map_map, List.map_map]
  refine List.map_congr_left fun entry hentry => ?_
  have hkey := hkeys entry.1 entry.2 (Std.ExtTreeMap.mem_toList_iff_getElem?_eq_some.mp hentry)
  simp [hkey]

theorem tagRules_erased (dictionaryId : Text) (a b : Option Text) (rules : List RuleBody) :
    (tagRules dictionaryId a rules).map eraseVersion =
      (tagRules dictionaryId b rules).map eraseVersion := by
  simp only [tagRules, List.map_map]
  rfl

/-- What `flattenedRules` reads of one dictionary. -/
def dictionaryRules (s : Store) (companyId : Text) (candidate : Option Dictionary)
    (d : Dictionary) : Except Exn (List Rule) := do
  if d.companyId ≠ companyId then return []
  if candidate.map (·.dictionaryId) = some d.dictionaryId then
    return tagRules d.dictionaryId none ((candidate.map (·.draft.rules)).getD [])
  match d.activeVersionId with
  | none => return []
  | some versionId =>
    let version ← require s.dictionaryVersion versionId
    return tagRules d.dictionaryId (some version.versionId) version.rules

theorem flattenedRules_ok {s : Store} {companyId : Text} {candidate : Option Dictionary}
    {rules : List Rule} : flattenedRules s companyId candidate = .ok rules ↔
      ∃ parts, (list s.dictionary).mapM (dictionaryRules s companyId candidate) = .ok parts ∧
        rules = parts.flatten := by
  unfold flattenedRules
  rw [bind_eq_ok]
  exact exists_congr fun parts => and_congr_right fun _ =>
    ⟨fun h => (Except.ok.inj h).symm, fun h => congrArg Except.ok h.symm⟩

theorem dictionaryRules_published {versionId actor : Text} {now : Time} {body : PublishBody}
    {simulations : Table Simulation} {s t : Store} {dictionaryId companyId : Text}
    {d u : Dictionary} {simulation : Simulation} {part : List Rule}
    (hp : PublishedBy versionId actor now body simulations s t dictionaryId d simulation)
    (hd : u.dictionaryId = d.dictionaryId → u = d)
    (h : dictionaryRules s companyId (some d) u = .ok part) :
    ∃ part', dictionaryRules t companyId none (if u.dictionaryId = d.dictionaryId then
        activated (newVersion versionId actor body.comment now d) actor now d else u) = .ok part' ∧
      part'.map eraseVersion = part.map eraseVersion := by
  unfold dictionaryRules at h ⊢
  by_cases hsame : u.dictionaryId = d.dictionaryId
  · rw [if_pos hsame]
    obtain rfl := hd hsame
    by_cases hcompany : u.companyId ≠ companyId
    · rw [if_pos hcompany] at h
      cases h
      exact ⟨[], if_pos hcompany, rfl⟩
    · rw [if_neg hcompany, Option.map_some, if_pos rfl] at h
      cases h
      refine ⟨tagRules u.dictionaryId (some versionId) u.draft.rules, ?_, tagRules_erased _ _ _ _⟩
      simp only [activated, if_neg hcompany, Option.map_none, reduceCtorEq, if_false, newVersion,
        require, hp.version, get_put, if_true]
      rfl
  · rw [if_neg hsame]
    by_cases hcompany : u.companyId ≠ companyId
    · rw [if_pos hcompany] at h
      cases h
      exact ⟨[], if_pos hcompany, rfl⟩
    · rw [if_neg hcompany] at h ⊢
      rw [if_neg (by simpa using Ne.symm hsame)] at h
      rw [if_neg (by simp)]
      cases hactive : u.activeVersionId with
      | none =>
        rw [hactive] at h
        exact ⟨part, h, rfl⟩
      | some active =>
        rw [hactive] at h
        obtain ⟨version, hversion, h⟩ := bind_eq_ok.mp h
        refine ⟨part, bind_eq_ok.mpr ⟨version, require_eq_ok.mpr ?_, h⟩, rfl⟩
        have hstored := require_eq_ok.mp hversion
        rw [hp.version, get_put, if_neg]
        · exact hstored
        · rintro rfl
          cases hp.free.symm.trans hstored

/-- The published version brings the rules that the draft had. -/
theorem flattened_published {versionId actor : Text} {now : Time} {body : PublishBody}
    {simulations : Table Simulation} {s t : Store} {dictionaryId companyId : Text} {d : Dictionary}
    {simulation : Simulation} {rules : List Rule}
    (hp : PublishedBy versionId actor now body simulations s t dictionaryId d simulation)
    (hkeys : Keyed Dictionary.dictionaryId s.dictionary)
    (hrules : flattenedRules s companyId (some d) = .ok rules) :
    ∃ active, flattenedRules t companyId none = .ok active ∧
      active.map eraseVersion = rules.map eraseVersion := by
  have hkey : d.dictionaryId = dictionaryId := hkeys _ d hp.dictionary
  have hdictionary := hkey ▸ hp.dictionary
  obtain ⟨parts, hparts, rfl⟩ := flattenedRules_ok.mp hrules
  have hrelated : List.Forall₂ (fun a b : Dictionary => a ∈ list s.dictionary ∧
      b = if a.dictionaryId = d.dictionaryId then
        activated (newVersion versionId actor body.comment now d) actor now d else a)
      (list s.dictionary) (list t.dictionary) := by
    rw [hp.active, list_replaced hkeys hdictionary, List.forall₂_map_right_iff]
    exact List.forall₂_same.mpr fun a ha => ⟨ha, rfl⟩
  have hone : ∀ a b part, (a ∈ list s.dictionary ∧ b = if a.dictionaryId = d.dictionaryId then
        activated (newVersion versionId actor body.comment now d) actor now d else a) →
      dictionaryRules s companyId (some d) a = .ok part →
      ∃ part', dictionaryRules t companyId none b = .ok part' ∧
        part'.map eraseVersion = part.map eraseVersion := by
    rintro a b part ⟨ha, rfl⟩ hpart
    refine dictionaryRules_published hp (fun hid => ?_) hpart
    obtain ⟨k, hk⟩ := mem_list.mp ha
    rw [← hkeys k a hk, hid, hdictionary] at hk
    exact (Option.some.inj hk).symm
  obtain ⟨parts', hparts', hsame⟩ := mapM_related hone hrelated hparts
  refine ⟨parts'.flatten, flattenedRules_ok.mpr ⟨parts', hparts', rfl⟩, ?_⟩
  rw [List.map_flatten, List.map_flatten]
  congr 1
  clear hparts hparts' hrules
  induction hsame with
  | nil => rfl
  | cons hr _ ih => rw [List.map_cons, List.map_cons, hr, ih]

/-! Runs. -/

/-- A draft or a version that names a version is a copy of it. -/
structure Copied (s : Store) : Prop where
  version_key : Keyed DictionaryVersion.versionId s.dictionaryVersion
  draft : ∀ (k : Text) (d : Dictionary) (u : Text), s.dictionary[k]? = some d →
    d.draft.basedOnVersionId = some u → ∃ old : DictionaryVersion,
      s.dictionaryVersion[u]? = some old ∧
      d.draft.rules = old.rules ∧ d.name = old.name ∧ d.description = old.description
  restored : ∀ (k : Text) (ver : DictionaryVersion) (u : Text),
    s.dictionaryVersion[k]? = some ver → ver.restoredFromVersionId = some u →
    ∃ old : DictionaryVersion, s.dictionaryVersion[u]? = some old ∧
      ver.rules = old.rules ∧ ver.name = old.name ∧ ver.description = old.description

/-- A simulation counts the rows of a plan that was made in some tree. -/
def Tested (v : Server) (site : Site) : Prop :=
  ∀ (k : Text) (simulation : Simulation), site.simulation[k]? = some simulation →
    ∃ (d : Dictionary) (tree : FileTree), site.store.dictionary[simulation.dictionaryId]? = some d ∧
      plan v.layout v.casefold tree simulation.readyDigest simulation.rulesDigest d.companyId =
        .ok simulation.rows ∧ simulation.counts = Rules.planCounts simulation.rows

structure Traced (v : Server) (site : Site) : Prop extends Copied site.store where
  tested : Tested v site

theorem Copied.same {s t : Store} (h : Copied s) (hdictionary : t.dictionary = s.dictionary)
    (hversion : t.dictionaryVersion = s.dictionaryVersion) : Copied t := by
  refine ⟨hversion ▸ h.version_key, ?_, ?_⟩
  · rw [hdictionary, hversion]; exact h.draft
  · rw [hversion]; exact h.restored

theorem Copied.put {s t : Store} {d : Dictionary} {key : Text} (h : Copied s)
    (hdictionary : t.dictionary = s.dictionary.insert key d)
    (hversion : t.dictionaryVersion = s.dictionaryVersion)
    (hd : ∀ u, d.draft.basedOnVersionId = some u → ∃ old : DictionaryVersion,
      s.dictionaryVersion[u]? = some old ∧
      d.draft.rules = old.rules ∧ d.name = old.name ∧ d.description = old.description) :
    Copied t := by
  refine ⟨hversion ▸ h.version_key, fun k e u he hbased => ?_, hversion ▸ h.restored⟩
  rw [hversion]
  rw [hdictionary, get_put] at he
  split at he
  · cases he
    exact hd u hbased
  · exact h.draft k e u he hbased

theorem copied_redrafted {s t : Store} (h : Copied s) (hr : Redrafted s t) : Copied t := by
  obtain ⟨_, _, hversion, d, name, description, rules, based, actor, now, _, hput, hcopy⟩ := hr
  refine h.put hput hversion fun u hu => ?_
  obtain ⟨k, ver, hk, rfl, hsame⟩ := hcopy u hu
  have hkey : ver.versionId = k := h.version_key k ver hk
  exact ⟨ver, hkey ▸ hk, hsame⟩

theorem copied_published {versionId actor : Text} {now : Time} {body : PublishBody}
    {simulations : Table Simulation} {s t : Store} {dictionaryId : Text} {d : Dictionary}
    {simulation : Simulation} (h : Copied s)
    (hp : PublishedBy versionId actor now body simulations s t dictionaryId d simulation) :
    Copied t := by
  have hstays : ∀ (u : Text) (old : DictionaryVersion), s.dictionaryVersion[u]? = some old →
      t.dictionaryVersion[u]? = some old := by
    intro u old hold
    rw [hp.version, get_put, if_neg]
    · exact hold
    · rintro rfl
      cases hp.free.symm.trans hold
  refine ⟨hp.version ▸ h.version_key.put rfl, fun k e u he hbased => ?_,
    fun k ver u hver hrestored => ?_⟩
  · rw [hp.active, get_put] at he
    split at he
    · cases he
      obtain ⟨old, hold, hsame⟩ := h.draft _ d u hp.dictionary hbased
      exact ⟨old, hstays u old hold, hsame⟩
    · obtain ⟨old, hold, hsame⟩ := h.draft k e u he hbased
      exact ⟨old, hstays u old hold, hsame⟩
  · rw [hp.version, get_put] at hver
    split at hver
    · cases hver
      obtain ⟨old, hold, hsame⟩ := h.draft _ d u hp.dictionary hrestored
      exact ⟨old, hstays u old hold, hsame⟩
    · obtain ⟨old, hold, hsame⟩ := h.restored k ver u hver hrestored
      exact ⟨old, hstays u old hold, hsame⟩

theorem Tested.kept {site next : Site} (h : Tested v site)
    (hsimulation : next.simulation = site.simulation)
    (hdictionary : ∀ (k : Text) d, site.store.dictionary[k]? = some d →
      ∃ d', next.store.dictionary[k]? = some d' ∧ d'.companyId = d.companyId) :
    Tested v next := by
  intro k simulation hk
  rw [hsimulation] at hk
  obtain ⟨d, tree, hd, hrows, hcounts⟩ := h k simulation hk
  obtain ⟨d', hd', hcompany⟩ := hdictionary _ d hd
  exact ⟨d', tree, hd', hcompany ▸ hrows, hcounts⟩

theorem company_kept {s t : Store} {key : Text} {new : Dictionary}
    (hput : t.dictionary = s.dictionary.insert key new)
    (hnew : ∀ old, s.dictionary[key]? = some old → new.companyId = old.companyId) (k : Text)
    (d : Dictionary) (hd : s.dictionary[k]? = some d) :
    ∃ d', t.dictionary[k]? = some d' ∧ d'.companyId = d.companyId := by
  rw [hput, get_put]
  split
  · rename_i hk
    exact ⟨new, rfl, hnew d (hk ▸ hd)⟩
  · exact ⟨d, hd, rfl⟩

theorem tested_simulated {simulationId : Text} {created : Simulation} {site next : Site}
    {dictionaryId : Text} {d : Dictionary} (h : Tested v site)
    (hkeys : Keyed Dictionary.dictionaryId site.store.dictionary)
    (hd : site.store.dictionary[dictionaryId]? = some d)
    (hid : created.dictionaryId = d.dictionaryId)
    (hplan : plan v.layout v.casefold site.tree created.readyDigest created.rulesDigest
      d.companyId = .ok created.rows) (hcounts : created.counts = Rules.planCounts created.rows)
    (hput : next.simulation = site.simulation.insert simulationId created)
    (hdictionary : next.store.dictionary = site.store.dictionary) : Tested v next := by
  have hkey : d.dictionaryId = dictionaryId := hkeys _ d hd
  intro k simulation hk
  rw [hdictionary]
  rw [hput, get_put] at hk
  split at hk
  · cases hk
    exact ⟨d, site.tree, by rw [hid, hkey]; exact hd, hplan, hcounts⟩
  · exact h k simulation hk

theorem Traced.same {site next : Site} (h : Traced v site)
    (hdictionary : next.store.dictionary = site.store.dictionary)
    (hversion : next.store.dictionaryVersion = site.store.dictionaryVersion)
    (hsimulation : next.simulation = site.simulation) : Traced v next :=
  ⟨h.toCopied.same hdictionary hversion, h.tested.kept hsimulation fun k d hd =>
    ⟨d, by rw [hdictionary]; exact hd, rfl⟩⟩

theorem traced_redrafted {site : Site} {t : Store} (h : Traced v site)
    (hr : Redrafted site.store t) : Traced v { site with store := t } := by
  refine ⟨copied_redrafted h.toCopied hr, h.tested.kept rfl ?_⟩
  obtain ⟨_, _, _, d, name, description, rules, based, actor, now, hd, hput, _⟩ := hr
  refine company_kept hput fun old hold => ?_
  rw [hd] at hold
  cases hold
  rfl

theorem dispatch_traced {x : Draw} {actor : Text} {request : Request} {site next : Site}
    {response : Response} (h : Traced v site)
    (hkeys : Keyed Dictionary.dictionaryId site.store.dictionary)
    (hd : dispatch v x actor request site = .ok (response, next)) : Traced v next := by
  cases request with
  | createSortingBatch body =>
    obtain ⟨t, ht, hd⟩ := bind_eq_ok.mp hd
    obtain ⟨view, _, hd⟩ := bind_eq_ok.mp hd
    obtain ⟨⟨cursor, pages⟩, _, hd⟩ := bind_eq_ok.mp hd
    cases hd
    obtain ⟨_, _, _, _, _, _, _, _, _, hdictionary, hversion⟩ := Changes.accept_spec ht
    exact h.same hdictionary hversion rfl
  | publishDictionary dictionaryId body =>
    obtain ⟨⟨published, t⟩, ht, hd⟩ := bind_eq_ok.mp hd
    cases hd
    obtain ⟨d, simulation, hp⟩ := publish_spec ht
    have hkey : d.dictionaryId = dictionaryId := hkeys _ d hp.dictionary
    refine ⟨copied_published h.toCopied hp, h.tested.kept rfl ?_⟩
    refine company_kept hp.active fun old hold => ?_
    rw [hkey, hp.dictionary] at hold
    cases hold
    rfl

theorem apply_traced {site : Site} (h : Traced v site) (hs : Sound site) (move : Move) :
    Traced v (apply v site move) := by
  cases move with
  | request x actor key request =>
    simp only [apply]
    rcases execute_cases v x actor key request site with ⟨e, he⟩ | ⟨_, _, _, _, he⟩ |
      ⟨response, next, _, hd, _, he⟩
    · rw [he]
      exact h
    · rw [he]
      exact h
    · rw [he]
      exact (dispatch_traced h hs.dictionary_key hd).same rfl rfl rfl
  | create dictionaryId actor requestId now companyId name description =>
    simp only [apply, committed]
    split
    · rename_i t ht
      obtain ⟨d, rfl, _, hbased, hfree, hput, hversion, _, _⟩ := create_spec ht
      refine ⟨h.toCopied.put hput hversion fun u hu => ?_, h.tested.kept rfl ?_⟩
      · cases hbased.symm.trans hu
      · exact company_kept hput fun old hold => by cases hfree.symm.trans hold
    · exact h
  | replaceDraft actor requestId now dictionaryId body =>
    simp only [apply, committed]
    split
    · rename_i t ht
      exact traced_redrafted h (replaceDraft_spec hs.dictionary_key ht)
    · exact h
  | restoreDraft actor requestId now dictionaryId expected versionId =>
    simp only [apply, committed]
    split
    · rename_i t ht
      exact traced_redrafted h (restoreDraft_spec hs.dictionary_key ht)
    · exact h
  | simulate simulationId actor requestId now dictionaryId expected =>
    simp only [apply]
    split
    · rename_i next hnext
      obtain ⟨⟨created, simulations, t⟩, ht, hnext⟩ := bind_eq_ok.mp hnext
      obtain ⟨⟨cursor, pages⟩, _, hnext⟩ := bind_eq_ok.mp hnext
      cases hnext
      obtain ⟨⟨d, hd, hid, _, hplan, hcounts⟩, _, rfl, _, _, hdictionary, hversion⟩ :=
        simulate_spec ht
      exact ⟨h.toCopied.same hdictionary hversion,
        tested_simulated h.tested hs.dictionary_key hd hid hplan hcounts rfl hdictionary⟩
    · exact h
  | select selectionId actor now request =>
    simp only [apply]
    split
    · exact h
    · simp only [committed]
      split
      · rename_i t ht
        obtain ⟨created, rfl, rfl⟩ := Changes.selection_frame ht
        exact h.same rfl rfl rfl
      · exact h
  | preview previewId actor selectionId now =>
    simp only [apply, committed]
    split
    · rename_i t ht
      obtain ⟨created, rfl⟩ := Changes.preview_frame ht
      exact h.same rfl rfl rfl
    · exact h
  | elsewhere store pages tree => exact h.same rfl rfl rfl

/-- No dictionary has been created yet. -/
structure Start (site : Site) : Prop extends ExactlyOnce.Start site where
  dictionary : site.store.dictionary = ∅
  version : site.store.dictionaryVersion = ∅

theorem run_traced {site : Site} (h : Start site) (moves : List Move) :
    Traced v (run v moves site) := by
  have hstart : Traced v site := by
    refine ⟨⟨?_, ?_, ?_⟩, ?_⟩ <;>
      simp [Tested, Keyed, h.dictionary, h.version, h.simulation]
  have hsound := start_sound h.toStart
  clear h
  induction moves generalizing site with
  | nil => exact hstart
  | cons move moves ih =>
    exact ih (apply_traced hstart hsound move) (apply_sound hsound move)

theorem publication_gated {x : Draw} {actor dictionaryId : Text} {body : PublishBody}
    {site next : Site} {response : Response} (h : Traced v site) (hs : Sound site)
    (hd : dispatch v x actor (.publishDictionary dictionaryId body) site = .ok (response, next)) :
    ∃ d, next.store.dictionary[dictionaryId]? = some d ∧
      Gated v body.acknowledgeNoScenario d.companyId next.store := by
  obtain ⟨⟨published, t⟩, ht, hd⟩ := bind_eq_ok.mp hd
  cases hd
  obtain ⟨d, simulation, hp⟩ := publish_spec ht
  have hkey : d.dictionaryId = dictionaryId := hs.dictionary_key _ d hp.dictionary
  obtain ⟨d₁, tree, hd₁, hplan, hcounts⟩ := h.tested _ simulation hp.tested
  obtain ⟨d₂, hd₂, _, hrules, hready⟩ := freshSimulation_ok hp.fresh
  rw [hp.same, hkey, hp.dictionary] at hd₁ hd₂
  cases hd₁
  cases hd₂
  refine ⟨activated (newVersion x.versionId actor body.comment x.now d) actor x.now d, ?_, ?_⟩
  · simp only [hp.active, hkey, get_put, if_true]
  · obtain ⟨active, hactive, hsame⟩ := flattened_published hp hs.dictionary_key hrules
    refine ⟨active, hactive, fun other => ?_⟩
    have hitems : readyItems t d.companyId = simulation.readyDigest := by
      rw [← hready, readyItems, readyItems, hp.queue]
    have hgate := counted_gated (fun item hitem => readyItems_ready item (hready ▸ hitem)) hplan
      (hcounts ▸ hp.conflicts)
      (fun hack => hcounts ▸ hp.scenario hack) hsame other
    rw [← hitems] at hgate
    exact hgate

theorem run_append (earlier later : List Move) (site : Site) :
    run v (earlier ++ later) site = run v later (run v earlier site) := List.foldl_append ..

/-- A move that writes a record is a request that acts. -/
theorem record_fresh {site : Site} {move : Move} {k : List Text} {r : Record}
    (hold : site.record[k]? = none) (hr : (apply v site move).record[k]? = some r) :
    ∃ x actor key request, move = .request x actor key request ∧
      k = recordId actor key request ∧ r.body = request.body ∧
      ∃ next, dispatch v x actor request site = .ok (r.response, next) := by
  cases move with
  | request x actor key request =>
    simp only [apply] at hr
    rcases execute_cases v x actor key request site with ⟨e, he⟩ | ⟨_, _, _, _, he⟩ |
      ⟨response, next, _, hd, _, he⟩
    · rw [he] at hr
      cases hold.symm.trans hr
    · rw [he] at hr
      cases hold.symm.trans hr
    · rw [he] at hr
      simp only [dispatch_record hd, Std.ExtTreeMap.getElem?_insert,
        Std.LawfulEqOrd.compare_eq_iff_eq] at hr
      split at hr
      · rename_i hk
        cases hr
        exact ⟨x, actor, key, request, rfl, hk.symm, rfl, next, hd⟩
      · cases hold.symm.trans hr
  | simulate simulationId actor requestId now dictionaryId expected =>
    simp only [apply] at hr
    split at hr
    · rename_i next hnext
      obtain ⟨⟨created, simulations, t⟩, _, hnext⟩ := bind_eq_ok.mp hnext
      obtain ⟨⟨cursor, pages⟩, _, hnext⟩ := bind_eq_ok.mp hnext
      cases hnext
      cases hold.symm.trans hr
    · cases hold.symm.trans hr
  | select selectionId actor now request =>
    simp only [apply] at hr
    split at hr
    · cases hold.symm.trans hr
    · unfold committed at hr
      split at hr <;> cases hold.symm.trans hr
  | elsewhere store pages tree => cases hold.symm.trans hr
  | _ =>
    simp only [apply] at hr
    unfold committed at hr
    split at hr <;> cases hold.symm.trans hr

theorem record_origin {site : Site} (hstart : site.record = ∅) (moves : List Move) :
    ∀ (k : List Text) (r : Record), (run v moves site).record[k]? = some r →
      ∃ earlier x actor key request next, earlier <+: moves ∧
        k = recordId actor key request ∧ r.body = request.body ∧
        dispatch v x actor request (run v earlier site) = .ok (r.response, next) := by
  induction moves using List.reverseRecOn with
  | nil =>
    intro k r hr
    simp [run, hstart] at hr
  | append_singleton moves move ih =>
    intro k r hr
    rw [run_append] at hr
    change (apply v (run v moves site) move).record[k]? = some r at hr
    cases hold : (run v moves site).record[k]? with
    | some old =>
      obtain rfl : old = r := Option.some.inj ((record_apply hold move).symm.trans hr)
      obtain ⟨earlier, x, actor, key, request, next, hinitial, hrest⟩ := ih k old hold
      exact ⟨earlier, x, actor, key, request, next, hinitial.trans (List.prefix_append ..), hrest⟩
    | none =>
      obtain ⟨x, actor, key, request, rfl, hk, hbody, next, hd⟩ := record_fresh hold hr
      exact ⟨moves, x, actor, key, request, next, List.prefix_append .., hk, hbody, hd⟩

/-- A request to publish that succeeds has acted at some point of the run, now unless it is
answered from its record, and has left its company with a gated rule set then. A version that
was restored is a copy. -/
theorem publication_gate {site : Site} (h : Start site) (moves : List Move) :
    (∀ x actor key dictionaryId body response,
      (execute v x actor key (.publishDictionary dictionaryId body) (run v moves site)).1 =
        .ok response →
      ∃ earlier x' next d, earlier <+: moves ∧
        dispatch v x' actor (.publishDictionary dictionaryId body) (run v earlier site) =
          .ok (response, next) ∧
        ((run v moves site).record[recordId actor key (.publishDictionary dictionaryId body)]? =
          none → earlier = moves ∧ next.store =
            (execute v x actor key (.publishDictionary dictionaryId body)
              (run v moves site)).2.store) ∧
        next.store.dictionary[dictionaryId]? = some d ∧
        Gated v body.acknowledgeNoScenario d.companyId next.store) ∧
    ∀ (k : Text) (ver : DictionaryVersion) (u : Text),
      (run v moves site).store.dictionaryVersion[k]? = some ver →
      ver.restoredFromVersionId = some u →
      ∃ old : DictionaryVersion, (run v moves site).store.dictionaryVersion[u]? = some old ∧
        ver.rules = old.rules ∧ ver.name = old.name ∧ ver.description = old.description := by
  have hgate : ∀ earlier x actor dictionaryId body response next,
      dispatch v x actor (.publishDictionary dictionaryId body) (run v earlier site) =
        .ok (response, next) → ∃ d, next.store.dictionary[dictionaryId]? = some d ∧
          Gated v body.acknowledgeNoScenario d.companyId next.store :=
    fun earlier x actor dictionaryId body response next hd => publication_gated
      (run_traced h earlier) (run_sound (start_sound h.toStart) earlier) hd
  refine ⟨fun x actor key dictionaryId body response hok => ?_,
    (run_traced (v := v) h moves).restored⟩
  rcases execute_cases v x actor key (.publishDictionary dictionaryId body) (run v moves site) with
    ⟨e, he⟩ | ⟨previous, hprevious, hbody, _, he⟩ | ⟨response', next, hnone, hd, _, he⟩
  · rw [he] at hok
    cases hok
  · -- A replay: the record was written by the same request.
    rw [he] at hok
    cases hok
    obtain ⟨earlier, x', actor', key', request, next, hinitial, hk, hsame, hd⟩ :=
      record_origin h.record moves _ previous hprevious
    simp only [recordId, List.cons.injEq, and_true] at hk
    obtain ⟨rfl, hidentity, rfl⟩ := hk
    obtain rfl := request_ext hidentity (hbody.symm.trans hsame)
    obtain ⟨d, hrow, hgated⟩ := hgate earlier x' actor dictionaryId body _ next hd
    exact ⟨earlier, x', next, d, hinitial, hd,
      (fun hnone => by cases hnone.symm.trans hprevious), hrow, hgated⟩
  · rw [he] at hok
    cases hok
    obtain ⟨d, hrow, hgated⟩ := hgate moves x actor dictionaryId body response next hd
    exact ⟨moves, x, next, d, List.prefix_rfl, hd, fun _ => ⟨rfl, by rw [he]⟩, hrow, hgated⟩

/-! The small service with one ready file and no dictionaries. -/

def bareSite : Site where
  store := { (SortingSystem.smallWorld false []).store with
    queue := (∅ : Table QueueItem).insert ['i'] readyItem }
  simulation := ∅
  record := ∅
  pages := ⟨[], []⟩
  tree := SortingSystem.smallTree [("in/a.t", ⟨1, 7, 3, 0⟩)]
  authorised := []

theorem bareSite_start : Start bareSite :=
  ⟨⟨rfl, rfl, rfl, rfl, rfl, by simp [Keyed, bareSite, SortingSystem.smallWorld, Store.empty],
    by simp [bareSite, SortingSystem.smallWorld, Store.empty]⟩, rfl, rfl⟩

def draw (now : Time) (versionId : Text) : Draw :=
  ⟨now, SortingSystem.smallDraws ['b'] ['t'], versionId, ['q']⟩

/-- A dictionary is written, tested and published; its draft is emptied, restored and tested. -/
def restoringMoves : List Move :=
  [.create ['d'] ['u'] ['q'] 0 "co".toList ['n'] [],
    .replaceDraft ['u'] ['q'] 1 ['d'] ⟨1, ['n'], [], [SortingSystem.smallRule]⟩,
    .simulate ['m'] ['u'] ['q'] 2 ['d'] 2,
    .request (draw 3 ['w']) ['u'] ['k'] (.publishDictionary ['d'] ⟨2, ['m'], false, ['o']⟩),
    .replaceDraft ['u'] ['q'] 4 ['d'] ⟨2, ['e'], ['e'], []⟩,
    .restoreDraft ['u'] ['q'] 5 ['d'] 3 ['w'],
    .simulate ['z'] ['u'] ['q'] 6 ['d'] 4,
    .request (draw 7 ['x']) ['u'] ['l'] (.publishDictionary ['d'] ⟨4, ['z'], false, ['o']⟩)]

theorem publication_gate_small : ∃ (next : Site) (d : Dictionary) (ver old : DictionaryVersion),
    next.store.dictionary[['d']]? = some d ∧ Gated smallServer false d.companyId next.store ∧
    (run smallServer restoringMoves bareSite).store.dictionaryVersion[['x']]? = some ver ∧
    (run smallServer restoringMoves bareSite).store.dictionaryVersion[['w']]? = some old ∧
    ver.rules = old.rules := by
  have hok : (execute smallServer (draw 8 ['y']) ['u'] ['l']
      (.publishDictionary ['d'] ⟨4, ['z'], false, ['o']⟩)
      (run smallServer restoringMoves bareSite)).1.isOk = true := by decide +kernel
  have hversion : ((run smallServer restoringMoves bareSite).store.dictionaryVersion[['x']]?).any
      (fun ver => ver.restoredFromVersionId = some ['w']) = true := by decide +kernel
  obtain ⟨hgate, hcopied⟩ := publication_gate (v := smallServer) bareSite_start restoringMoves
  obtain ⟨ver, hver, hrestored⟩ := (Option.any_eq_true _ _).mp hversion
  obtain ⟨old, hold, hrules, _⟩ := hcopied _ ver ['w'] hver (of_decide_eq_true hrestored)
  cases hresponse : (execute smallServer (draw 8 ['y']) ['u'] ['l']
      (.publishDictionary ['d'] ⟨4, ['z'], false, ['o']⟩)
      (run smallServer restoringMoves bareSite)).1 with
  | error e =>
    rw [hresponse] at hok
    cases hok
  | ok response =>
    obtain ⟨_, _, next, d, _, _, _, hd, hgated⟩ := hgate _ _ _ _ _ _ hresponse
    exact ⟨next, d, ver, old, hd, hgated, hver, hold, hrules⟩

end PublicationGate
