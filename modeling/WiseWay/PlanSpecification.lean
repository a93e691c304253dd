import Mathlib.Data.List.Dedup
import Mathlib.Data.List.Forall2
import Mathlib.Data.List.Lex
import Mathlib.Data.List.Perm.Basic
import Mathlib.Data.Prod.Lex
import WiseWay.Fallible
import WiseWay.Rules

/-! # What a plan says

The rows of `plan_rows` described by the rules and the other items alone, without the passes
that make them. Neither the order of the rules nor that of the items enters the description. -/
namespace PlanSpecification

open Records Rules Fallible

variable {casefold : Text → Text} {adapters : Adapters} {rules : List Rule}
variable {manualTarget : TargetDirectory} {items : List PublicItem} {item : PublicItem}

/-! The description. -/

def Candidate (item : PublicItem) : Prop :=
  (item.status = .ready ∨ item.status = .requiresDecision) ∧ item.selectable = true

instance (item : PublicItem) : Decidable (Candidate item) :=
  inferInstanceAs (Decidable ((_ ∨ _) ∧ _))

structure Wins (casefold : Text → Text) (rules : List Rule) (item : PublicItem) (rule : Rule) :
    Prop where
  mem : rule ∈ rules
  found : matchRule casefold rule item.source.relativePath = true
  least : ∀ other ∈ rules, matchRule casefold other item.source.relativePath = true →
    rule.priority ≤ other.priority

def given (item : PublicItem) (rule : Rule) : Text × Text :=
  targetTuple rule.target rule.targetStem item.filename

/-- Some rule matches, and all that win give this target. -/
structure Assigned (casefold : Text → Text) (rules : List Rule) (item : PublicItem)
    (target : Text × Text) : Prop where
  candidate : Candidate item
  found : ∃ rule ∈ rules, matchRule casefold rule item.source.relativePath = true
  same : ∀ rule, Wins casefold rules item rule → given item rule = target

def key (rule : Rule) : Text ×ₗ Text := toLex (rule.dictionaryId, rule.ruleId)

/-- The other items of a list that are assigned a target. -/
def Rival (casefold : Text → Text) (rules : List Rule) (items : List PublicItem)
    (item other : PublicItem) (target : Text × Text) : Prop :=
  other ∈ items ∧ other.itemId ≠ item.itemId ∧ Assigned casefold rules other target

structure RowSpec (casefold : Text → Text) (adapters : Adapters) (rules : List Rule)
    (items : List PublicItem) (item : PublicItem) (row : PlanRow) : Prop where
  itemId : row.itemId = item.itemId
  moves : row.predictedState = .willMove ↔ ∃ target, Assigned casefold rules item target ∧
    (∃ place, adapters.location target.1 target.2 = .ok place ∧
      adapters.exists_ place = .ok false) ∧
    ∀ other, ¬Rival casefold rules items item other target
  shared : ∀ target, Assigned casefold rules item target →
    (∃ other, Rival casefold rules items item other target) →
      row.predictedState = .requiresDecision ∧ row.reasonCode = some .targetOccupied ∧
      ∃ collision, row.collision = some collision ∧ collision.kind = .duplicatePlanTarget ∧
        collision.conflictingItemIds.Nodup ∧ ∀ id, id ∈ collision.conflictingItemIds ↔
          ∃ other, Rival casefold rules items item other target ∧ other.itemId = id
  selected : ∀ ref, row.selectedRule = some ref ↔
    (∃ target, Assigned casefold rules item target) ∧
      ∃ rule, Wins casefold rules item rule ∧ reference rule = ref ∧
        ∀ other, Wins casefold rules item other → key rule ≤ key other

def SameCollision (a b : Collision) : Prop :=
  ∃ ids, ids.Perm a.conflictingItemIds ∧ b = { a with conflictingItemIds := ids }

/-- Two rows that differ only in the order of what they list. -/
def SameRow (a b : PlanRow) : Prop :=
  ∃ matched collision, matched.Perm a.matchedRules ∧
    Option.Rel SameCollision a.collision collision ∧
      b = { a with matchedRules := matched, collision := collision }

/-! The rules that win. -/

def winning (casefold : Text → Text) (rules : List Rule) (item : PublicItem) : List Rule :=
  winners (rules.filter fun rule => matchRule casefold rule item.source.relativePath)

theorem mem_winners {l : List Rule} {rule : Rule} :
    rule ∈ winners l ↔ rule ∈ l ∧ ∀ other ∈ l, rule.priority ≤ other.priority := by
  unfold winners
  rw [List.mem_filter, decide_eq_true_eq]
  refine and_congr_right fun hrule => ?_
  unfold minimumPriority
  rw [List.min?_eq_some_iff, List.forall_mem_map]
  exact and_iff_right (List.mem_map_of_mem hrule)

theorem mem_winning {rule : Rule} :
    rule ∈ winning casefold rules item ↔ Wins casefold rules item rule := by
  unfold winning
  rw [mem_winners, List.mem_filter]
  constructor
  · rintro ⟨⟨hmem, hfound⟩, hleast⟩
    refine ⟨hmem, hfound, fun other hother hmatch => ?_⟩
    exact hleast other (List.mem_filter.mpr ⟨hother, hmatch⟩)
  · intro h
    refine ⟨⟨h.mem, h.found⟩, fun other hother => ?_⟩
    obtain ⟨hother, hmatch⟩ := List.mem_filter.mp hother
    exact h.least other hother hmatch

theorem winners_eq_nil {l : List Rule} : winners l = [] ↔ l = [] := by
  constructor
  · intro h
    by_contra hne
    cases hmin : minimumPriority l with
    | none =>
      unfold minimumPriority at hmin
      rw [List.min?_eq_none_iff, List.map_eq_nil_iff] at hmin
      exact hne hmin
    | some least =>
      obtain ⟨hmem, hle⟩ := List.min?_eq_some_iff.mp hmin
      obtain ⟨rule, hrule, rfl⟩ := List.mem_map.mp hmem
      have hwins : rule ∈ winners l := by
        refine mem_winners.mpr ⟨hrule, fun other hother => hle _ ?_⟩
        exact List.mem_map_of_mem hother
      rw [h] at hwins
      cases hwins
  · rintro rfl
    rfl

theorem winning_ne_nil : winning casefold rules item ≠ [] ↔
    ∃ rule ∈ rules, matchRule casefold rule item.source.relativePath = true := by
  unfold winning
  rw [ne_eq, winners_eq_nil, List.filter_eq_nil_iff]
  push Not
  rfl

theorem assigned_iff {target : Text × Text} : Assigned casefold rules item target ↔
    Candidate item ∧ winning casefold rules item ≠ [] ∧
      ∀ rule ∈ winning casefold rules item, given item rule = target := by
  rw [winning_ne_nil]
  constructor
  · rintro ⟨hcandidate, hfound, hsame⟩
    exact ⟨hcandidate, hfound, fun rule hrule => hsame rule (mem_winning.mp hrule)⟩
  · rintro ⟨hcandidate, hfound, hsame⟩
    exact ⟨hcandidate, hfound, fun rule hrule => hsame rule (mem_winning.mpr hrule)⟩

instance (casefold : Text → Text) (rules : List Rule) (item : PublicItem)
    (target : Text × Text) : Decidable (Assigned casefold rules item target) :=
  decidable_of_iff _ assigned_iff.symm

theorem Assigned.unique {a b : Text × Text} (ha : Assigned casefold rules item a)
    (hb : Assigned casefold rules item b) : a = b := by
  obtain ⟨_, hne, hsame⟩ := assigned_iff.mp ha
  obtain ⟨rule, hrule⟩ := List.exists_mem_of_ne_nil _ hne
  exact (hsame rule hrule).symm.trans (hb.same rule (mem_winning.mp hrule))

theorem ruleBefore_iff {a b : Rule} : ruleBefore a b = true ↔ key a < key b := by
  unfold ruleBefore key
  rw [decide_eq_true_eq, Prod.Lex.toLex_lt_toLex]

theorem leastRule_ne_none : ∀ {l : List Rule}, l ≠ [] → leastRule l ≠ none
  | [], hne, _ => hne rfl
  | rule :: rest, _, h => by
    unfold leastRule at h
    split at h
    · cases h
    · split at h <;> cases h

theorem leastRule_spec : ∀ {l : List Rule} {best : Rule}, leastRule l = some best →
    best ∈ l ∧ ∀ other ∈ l, key best ≤ key other
  | rule :: rest, best, h => by
    unfold leastRule at h
    cases hrest : leastRule rest with
    | none =>
      rw [hrest] at h
      cases h
      obtain rfl : rest = [] := not_not.mp fun hne => leastRule_ne_none hne hrest
      exact ⟨List.mem_singleton_self _, fun other hother => by
        rw [List.mem_singleton.mp hother]⟩
    | some least =>
      rw [hrest] at h
      obtain ⟨hmem, hleast⟩ := leastRule_spec hrest
      dsimp only at h
      split at h
      · rename_i hbefore
        cases h
        refine ⟨List.mem_cons_of_mem _ hmem, fun other hother => ?_⟩
        rcases List.mem_cons.mp hother with rfl | hother
        · exact (ruleBefore_iff.mp hbefore).le
        · exact hleast other hother
      · rename_i hbefore
        cases h
        rw [ruleBefore_iff, not_lt] at hbefore
        refine ⟨List.mem_cons_self .., fun other hother => ?_⟩
        rcases List.mem_cons.mp hother with rfl | hother
        · exact le_refl _
        · exact hbefore.trans (hleast other hother)

/-! The first pass. -/

def assignedRow (casefold : Text → Text) (rules : List Rule) (item : PublicItem)
    (place : Location) (chosen : Rule) : PlanRow :=
  { baseRow item with
    matchedRules := (winning casefold rules item).map reference
    predictedState := .willMove
    reasonCode := none
    target := some place
    selectedRule := some (reference chosen) }

def manualRow (casefold : Text → Text) (rules : List Rule) (item : PublicItem) : PlanRow :=
  withState { baseRow item with matchedRules := (winning casefold rules item).map reference }
    .willManualReview (if winning casefold rules item = [] then .noScenario else .ruleConflict)

/-- What `_plan_one` makes of an item. -/
inductive First (casefold : Text → Text) (adapters : Adapters) (rules : List Rule)
    (item : PublicItem) : PlanRow → Prop where
  | idle : ¬Candidate item → First casefold adapters rules item (baseRow item)
  | manual : Candidate item → (∀ target, ¬Assigned casefold rules item target) →
      First casefold adapters rules item (manualRow casefold rules item)
  | assigned {target place chosen} : Assigned casefold rules item target →
      leastRule (winning casefold rules item) = some chosen →
        adapters.location target.1 target.2 = .ok place →
          First casefold adapters rules item (assignedRow casefold rules item place chosen)

theorem dedup_eq_singleton {l : List (Text × Text)} {a : Text × Text} :
    l.dedup = [a] ↔ l ≠ [] ∧ ∀ b ∈ l, b = a := by
  constructor
  · intro h
    constructor
    · rintro rfl
      cases h
    · intro b hb
      have hmem := List.mem_dedup.mpr hb
      rw [h] at hmem
      exact List.mem_singleton.mp hmem
  · rintro ⟨hne, hall⟩
    have hall' : ∀ b ∈ l.dedup, b = a := fun b hb => hall b (List.mem_dedup.mp hb)
    have hnodup := List.nodup_dedup l
    obtain ⟨b, hb⟩ := List.exists_mem_of_ne_nil l hne
    have hb' := List.mem_dedup.mpr hb
    cases hlist : l.dedup with
    | nil =>
      rw [hlist] at hb'
      cases hb'
    | cons c rest =>
      rw [hlist] at hall' hnodup
      have hrest : rest = [] := by
        refine List.eq_nil_iff_forall_not_mem.mpr fun d hd => (List.nodup_cons.mp hnodup).1 ?_
        rw [hall' c (List.mem_cons_self ..), ← hall' d (List.mem_cons_of_mem _ hd)]
        exact hd
      rw [hrest, hall' c (List.mem_cons_self ..)]

theorem given_dedup (hcandidate : Candidate item) {target : Text × Text} :
    ((winning casefold rules item).map (given item)).dedup = [target] ↔
      Assigned casefold rules item target := by
  rw [dedup_eq_singleton, assigned_iff, ne_eq, List.map_eq_nil_iff, List.forall_mem_map]
  exact (and_iff_right hcandidate).symm

theorem planOne_first {row : PlanRow} (h : planOne casefold adapters rules item = .ok row) :
    First casefold adapters rules item row := by
  unfold planOne at h
  split at h
  · rename_i hidle
    cases h
    refine .idle ?_
    rintro ⟨hstatus, hselectable⟩
    rcases hidle with ⟨hready, hdecision⟩ | hfalse
    · exact hstatus.elim hready hdecision
    · rw [hselectable] at hfalse
      cases hfalse
  rename_i hidle
  have hcandidate : Candidate item := by
    constructor
    · by_contra hstatus
      exact hidle (.inl (not_or.mp hstatus))
    · by_contra hselectable
      exact hidle (.inr (Bool.eq_false_iff.mpr hselectable))
  dsimp only at h
  split at h
  · rename_i hnone
    cases h
    have hwon : winning casefold rules item = [] := winners_eq_nil.mpr hnone
    have hrow : manualRow casefold rules item =
        withState (baseRow item) .willManualReview .noScenario := by
      unfold manualRow
      rw [hwon, if_pos rfl]
      rfl
    rw [← hrow]
    exact .manual hcandidate fun target htarget => (assigned_iff.mp htarget).2.1 hwon
  rename_i hsome
  have hne : winning casefold rules item ≠ [] := fun hnil => hsome (winners_eq_nil.mp hnil)
  split at h
  · rename_i rootId relativePath chosen hdedup hchosen
    obtain ⟨place, hplace, h⟩ := bind_eq_ok.mp h
    cases h
    exact .assigned ((given_dedup hcandidate).mp hdedup) hchosen hplace
  · rename_i hother
    cases h
    have hrow : manualRow casefold rules item = withState { baseRow item with
        matchedRules := (winning casefold rules item).map reference }
        .willManualReview .ruleConflict := by
      unfold manualRow
      rw [if_neg hne]
    show First casefold adapters rules item (withState { baseRow item with
      matchedRules := (winning casefold rules item).map reference } .willManualReview
      .ruleConflict)
    rw [← hrow]
    refine .manual hcandidate fun target htarget => ?_
    have hdedup := (given_dedup hcandidate).mpr htarget
    cases hleast : leastRule (winning casefold rules item) with
    | none => exact leastRule_ne_none hne hleast
    | some chosen => exact hother _ _ chosen hdedup hleast

/-! The passes over the rows. -/

def Reviewed (adapters : Adapters) (manualTarget : TargetDirectory) (row next : WorkRow) : Prop :=
  (row.1.predictedState ≠ .willManualReview ∧ next = row) ∨
    (row.1.predictedState = .willManualReview ∧ ∃ place occupied,
      adapters.location manualTarget.rootId
        (join manualTarget.relativeDirectory row.1.filename) = .ok place ∧
      adapters.exists_ place = .ok occupied ∧
      (if occupied = true then
        block adapters row .manualReviewNameOccupied .manualReviewName place []
      else .ok row) = .ok next)

theorem manualReview_reviewed {rows next : List WorkRow}
    (h : applyManualReviewCollisions adapters manualTarget rows = .ok next) :
    List.Forall₂ (Reviewed adapters manualTarget) rows next := by
  refine (mapM_ok h).imp fun row row' hrow => ?_
  by_cases hstate : row.1.predictedState ≠ .willManualReview
  · rw [if_pos hstate] at hrow
    cases hrow
    exact .inl ⟨hstate, rfl⟩
  · rw [if_neg hstate] at hrow
    obtain ⟨place, hplace, hrow⟩ := bind_eq_ok.mp hrow
    obtain ⟨occupied, hoccupied, hrow⟩ := bind_eq_ok.mp hrow
    exact .inr ⟨not_not.mp hstate, place, occupied, hplace, hoccupied, hrow⟩

/-- What the rows that plan the same target make of a row. -/
def Compared (adapters : Adapters) (others : Text × Text → List Text) (row next : WorkRow) :
    Prop :=
  (¬(row.1.predictedState = .willMove ∧ ∃ place, row.1.target = some place) ∧ next = row) ∨
    (row.1.predictedState = .willMove ∧ ∃ place, row.1.target = some place ∧
      ((others (targetKey place) ≠ [] ∧ block adapters row .targetOccupied .duplicatePlanTarget
          place (others (targetKey place)) = .ok next) ∨
        (others (targetKey place) = [] ∧ ∃ occupied, adapters.exists_ place = .ok occupied ∧
          (if occupied = true then block adapters row .targetOccupied .existingTarget place []
          else .ok row) = .ok next)))

theorem target_compared {rows next : List WorkRow}
    (h : applyTargetCollisions adapters rows = .ok next) :
    List.Forall₂ (fun entry => Compared adapters (sharers rows entry.2) entry.1) rows.zipIdx
      next := by
  refine (mapM_ok h).imp fun entry row' hrow => ?_
  obtain ⟨row, i⟩ := entry
  dsimp only at hrow ⊢
  split at hrow
  · rename_i place hstate hplace
    right
    refine ⟨hstate, place, hplace, ?_⟩
    by_cases hothers : sharers rows i (targetKey place) ≠ []
    · rw [if_pos hothers] at hrow
      exact .inl ⟨hothers, hrow⟩
    · rw [if_neg hothers] at hrow
      obtain ⟨occupied, hoccupied, hrow⟩ := bind_eq_ok.mp hrow
      exact .inr ⟨not_not.mp hothers, occupied, hoccupied, hrow⟩
  · rename_i hother
    cases hrow
    refine .inl ⟨?_, rfl⟩
    rintro ⟨hstate, place, hplace⟩
    exact hother place hstate hplace

/-- The row with what `_block` writes into it. -/
theorem block_ok {row next : WorkRow} {reason : Reason} {kind : CollisionKind}
    {place : Location} {others : List Text}
    (h : block adapters row reason kind place others = .ok next) : ∃ existing,
      (if kind = .duplicatePlanTarget then .ok none else adapters.sourceInfo place) =
        .ok existing ∧
      next = ({ row.1 with
        predictedState := .requiresDecision
        reasonCode := some reason
        collision := some ⟨kind, row.2, existing, others⟩ }, row.2) := by
  unfold block at h
  split at h
  · rename_i hkind
    cases h
    exact ⟨none, if_pos hkind, rfl⟩
  · rename_i hkind
    obtain ⟨existing, hexisting, h⟩ := bind_eq_ok.mp h
    cases h
    exact ⟨existing, (if_neg hkind).trans hexisting, rfl⟩

/-! The items that share a target. -/

/-- The identifiers of the rivals, in the order of the items. -/
def rivals (casefold : Text → Text) (rules : List Rule) (items : List PublicItem)
    (item : PublicItem) (target : Text × Text) : List Text :=
  (items.filter fun other =>
    other.itemId ≠ item.itemId ∧ Assigned casefold rules other target).map (·.itemId)

theorem mem_rivals {target : Text × Text} {id : Text} :
    id ∈ rivals casefold rules items item target ↔
      ∃ other, Rival casefold rules items item other target ∧ other.itemId = id := by
  unfold rivals Rival
  simp only [List.mem_map, List.mem_filter, decide_eq_true_eq]

theorem rivals_nodup (hids : (items.map (·.itemId)).Nodup) (target : Text × Text) :
    (rivals casefold rules items item target).Nodup :=
  hids.sublist (List.filter_sublist.map _)

theorem rivals_eq_nil {target : Text × Text} : rivals casefold rules items item target = [] ↔
    ∀ other, ¬Rival casefold rules items item other target := by
  rw [List.eq_nil_iff_forall_not_mem]
  constructor
  · intro h other hother
    exact h _ (mem_rivals.mpr ⟨other, hother, rfl⟩)
  · intro h id hid
    obtain ⟨other, hother, _⟩ := mem_rivals.mp hid
    exact h other hother

structure Read (casefold : Text → Text) (rules : List Rule) (item : PublicItem) (row : WorkRow) :
    Prop where
  itemId : row.1.itemId = item.itemId
  planned : ∀ target, (row.1.predictedState = .willMove ∧
    row.1.target.map targetKey = some target) ↔ Assigned casefold rules item target

theorem filter_map_related {α β γ : Type} {R : α → β → Prop} {p : α → Bool} {q : β → Bool}
    {f : α → γ} {g : β → γ} {l : List α} {m : List β} (h : List.Forall₂ R l m)
    (hR : ∀ a b, R a b → p a = q b ∧ f a = g b) :
    (m.filter q).map g = (l.filter p).map f := by
  induction h with
  | nil => rfl
  | @cons a b l m hab _ ih =>
    obtain ⟨hp, hf⟩ := hR a b hab
    by_cases hq : q b = true
    · rw [List.filter_cons_of_pos hq, List.filter_cons_of_pos (hp.trans hq), List.map_cons,
        List.map_cons, ih, hf]
    · have hp' : ¬p a = true := by rwa [hp]
      rw [List.filter_cons_of_neg hq, List.filter_cons_of_neg hp', ih]

theorem index_of_id (hids : (items.map (·.itemId)).Nodup) {a b : PublicItem} {i j : ℕ}
    (ha : (a, i) ∈ items.zipIdx) (hb : (b, j) ∈ items.zipIdx) :
    j = i ↔ b.itemId = a.itemId := by
  have ha : items[i]? = some a := List.mem_zipIdx_iff_getElem?.mp ha
  have hb : items[j]? = some b := List.mem_zipIdx_iff_getElem?.mp hb
  constructor
  · rintro rfl
    rw [Option.some.inj (ha.symm.trans hb)]
  · intro hid
    obtain ⟨hi, rfl⟩ := List.getElem?_eq_some_iff.mp ha
    obtain ⟨hj, rfl⟩ := List.getElem?_eq_some_iff.mp hb
    have hi' : i < (items.map (·.itemId)).length := by simpa using hi
    have hj' : j < (items.map (·.itemId)).length := by simpa using hj
    have hget : (items.map (·.itemId))[j] = (items.map (·.itemId))[i] ↔ j = i :=
      hids.getElem_inj_iff
    exact hget.mp (by simpa using hid)

theorem sharers_eq_rivals (hids : (items.map (·.itemId)).Nodup) {rows : List WorkRow}
    (hrows : List.Forall₂ (Read casefold rules) items rows) {i : ℕ}
    (hitem : (item, i) ∈ items.zipIdx) (target : Text × Text) :
    sharers rows i target = rivals casefold rules items item target := by
  have hentries := forall₂_zipIdx hrows 0
  have hsharers : sharers rows i target = ((items.zipIdx.filter fun other =>
      other.2 ≠ i ∧ Assigned casefold rules other.1 target).map (·.1.itemId)) := by
    refine filter_map_related hentries fun a b hab => ?_
    obtain ⟨hread, hindex⟩ := hab
    refine ⟨?_, hread.itemId.symm⟩
    rw [hindex]
    exact decide_eq_decide.mpr (and_congr_right fun _ => (hread.planned target).symm)
  have hfilter : items.zipIdx.filter (fun other =>
      other.2 ≠ i ∧ Assigned casefold rules other.1 target) = items.zipIdx.filter fun other =>
        other.1.itemId ≠ item.itemId ∧ Assigned casefold rules other.1 target := by
    refine List.filter_congr fun other hother => ?_
    refine decide_eq_decide.mpr (and_congr_left fun _ => not_congr ?_)
    exact index_of_id hids hitem hother
  rw [hsharers, hfilter]
  unfold rivals
  conv_rhs => rw [← List.zipIdx_map_fst 0 items, List.filter_map, List.map_map]
  rfl

/-! The rows of a plan. -/

def blocked (item : PublicItem) (row : PlanRow) (reason : Reason) (kind : CollisionKind)
    (existing : Option FileMetadata) (others : List Text) : PlanRow :=
  { row with
    predictedState := .requiresDecision
    reasonCode := some reason
    collision := some ⟨kind, sourceMetadata item, existing, others⟩ }

/-- What `plan_rows` makes of one item of a list. -/
inductive Verdict (casefold : Text → Text) (adapters : Adapters) (rules : List Rule)
    (manualTarget : TargetDirectory) (items : List PublicItem) (item : PublicItem) :
    PlanRow → Prop where
  | idle : ¬Candidate item → Verdict casefold adapters rules manualTarget items item (baseRow item)
  | manual {place} : Candidate item → (∀ target, ¬Assigned casefold rules item target) →
      adapters.location manualTarget.rootId
        (join manualTarget.relativeDirectory item.filename) = .ok place →
      adapters.exists_ place = .ok false →
      Verdict casefold adapters rules manualTarget items item (manualRow casefold rules item)
  | manualOccupied {place existing} : Candidate item →
      (∀ target, ¬Assigned casefold rules item target) →
      adapters.location manualTarget.rootId
        (join manualTarget.relativeDirectory item.filename) = .ok place →
      adapters.exists_ place = .ok true → adapters.sourceInfo place = .ok existing →
      Verdict casefold adapters rules manualTarget items item
        (blocked item (manualRow casefold rules item) .manualReviewNameOccupied .manualReviewName
          existing [])
  | shared {target place chosen} : Assigned casefold rules item target →
      leastRule (winning casefold rules item) = some chosen →
      adapters.location target.1 target.2 = .ok place →
      rivals casefold rules items item target ≠ [] →
      Verdict casefold adapters rules manualTarget items item
        (blocked item (assignedRow casefold rules item place chosen) .targetOccupied
          .duplicatePlanTarget none (rivals casefold rules items item target))
  | occupied {target place chosen existing} : Assigned casefold rules item target →
      leastRule (winning casefold rules item) = some chosen →
      adapters.location target.1 target.2 = .ok place →
      rivals casefold rules items item target = [] →
      adapters.exists_ place = .ok true → adapters.sourceInfo place = .ok existing →
      Verdict casefold adapters rules manualTarget items item
        (blocked item (assignedRow casefold rules item place chosen) .targetOccupied
          .existingTarget existing [])
  | free {target place chosen} : Assigned casefold rules item target →
      leastRule (winning casefold rules item) = some chosen →
      adapters.location target.1 target.2 = .ok place →
      rivals casefold rules items item target = [] →
      adapters.exists_ place = .ok false →
      Verdict casefold adapters rules manualTarget items item
        (assignedRow casefold rules item place chosen)

/-- The adapters build locations out of the parts they are given. -/
def KeepsParts (adapters : Adapters) : Prop :=
  ∀ rootId path place, adapters.location rootId path = .ok place → targetKey place = (rootId, path)

theorem First.read {row next : WorkRow} (hparts : KeepsParts adapters)
    (h : First casefold adapters rules item row.1)
    (hnext : Reviewed adapters manualTarget row next) :
    Read casefold rules item next := by
  obtain ⟨row, metadata⟩ := row
  rcases hnext with ⟨hstate, rfl⟩ | ⟨hstate, place, occupied, _, _, hnext⟩
  · cases h with
    | idle hidle =>
      refine ⟨rfl, fun target => ?_⟩
      constructor
      · rintro ⟨⟨⟩, _⟩
      · exact fun h => absurd h.candidate hidle
    | manual _ _ => exact absurd rfl hstate
    | @assigned target place chosen hassigned _ hplace =>
      refine ⟨rfl, fun other => ?_⟩
      have hkey : (some place).map targetKey = some target := by
        rw [Option.map_some, hparts _ _ _ hplace]
      constructor
      · rintro ⟨_, hother⟩
        rw [← Option.some.inj (hkey.symm.trans hother)]
        exact hassigned
      · intro hother
        rw [← hassigned.unique hother]
        exact ⟨rfl, hkey⟩
  · cases h with
    | idle _ => cases hstate
    | assigned _ _ _ => cases hstate
    | manual _ hnone =>
      have hrow : next.1.itemId = item.itemId ∧ next.1.predictedState ≠ .willMove := by
        by_cases hoccupied : occupied = true
        · rw [if_pos hoccupied] at hnext
          obtain ⟨existing, _, rfl⟩ := block_ok hnext
          exact ⟨rfl, by rintro ⟨⟩⟩
        · rw [if_neg hoccupied] at hnext
          cases hnext
          exact ⟨rfl, by rintro ⟨⟩⟩
      refine ⟨hrow.1, fun target => ?_⟩
      constructor
      · exact fun h => absurd h.1 hrow.2
      · exact fun h => absurd h (hnone target)

theorem First.verdict {first : PlanRow} {middle last : WorkRow} (hparts : KeepsParts adapters)
    (h : First casefold adapters rules item first)
    (hmiddle : Reviewed adapters manualTarget (first, sourceMetadata item) middle)
    (hlast : Compared adapters (rivals casefold rules items item) middle last) :
    Verdict casefold adapters rules manualTarget items item last.1 := by
  rcases hmiddle with ⟨hstate, rfl⟩ | ⟨hstate, place, occupied, hplace, hoccupied, hmiddle⟩
  · cases h with
    | idle hidle =>
      rcases hlast with ⟨_, rfl⟩ | ⟨hmoves, _⟩
      · exact .idle hidle
      · cases hmoves
    | manual _ _ => exact absurd rfl hstate
    | @assigned target place chosen hassigned hchosen hplace =>
      have hkey := hparts _ _ _ hplace
      rcases hlast with ⟨hno, _⟩ | ⟨_, place', hplace', hlast⟩
      · exact absurd ⟨rfl, place, rfl⟩ hno
      · cases hplace'
        rw [hkey] at hlast
        rcases hlast with ⟨hothers, hlast⟩ | ⟨hothers, occupied, hoccupied, hlast⟩
        · obtain ⟨existing, hexisting, rfl⟩ := block_ok hlast
          rw [if_pos rfl] at hexisting
          cases hexisting
          exact .shared hassigned hchosen hplace hothers
        · cases occupied with
          | true =>
            rw [if_pos rfl] at hlast
            obtain ⟨existing, hexisting, rfl⟩ := block_ok hlast
            exact .occupied hassigned hchosen hplace hothers hoccupied hexisting
          | false =>
            cases hlast
            exact .free hassigned hchosen hplace hothers hoccupied
  · cases h with
    | idle _ => cases hstate
    | assigned _ _ _ => cases hstate
    | manual hcandidate hnone =>
      cases occupied with
      | true =>
        rw [if_pos rfl] at hmiddle
        obtain ⟨existing, hexisting, rfl⟩ := block_ok hmiddle
        rcases hlast with ⟨_, rfl⟩ | ⟨hmoves, _⟩
        · exact .manualOccupied hcandidate hnone hplace hoccupied hexisting
        · cases hmoves
      | false =>
        cases hmiddle
        rcases hlast with ⟨_, rfl⟩ | ⟨hmoves, _⟩
        · exact .manual hcandidate hnone hplace hoccupied
        · cases hmoves

/-- Every item of a list has its row, and what it says follows from the list. -/
theorem planRows_verdicts {rows : List PlanRow} (hparts : KeepsParts adapters)
    (hids : (items.map (·.itemId)).Nodup)
    (h : planRows casefold adapters items rules manualTarget = .ok rows) :
    List.Forall₂ (Verdict casefold adapters rules manualTarget items) items rows := by
  obtain ⟨firsts, hfirsts, h⟩ := bind_eq_ok.mp h
  obtain ⟨middles, hmiddles, h⟩ := bind_eq_ok.mp h
  obtain ⟨lasts, hlasts, h⟩ := bind_eq_ok.mp h
  cases h
  have hfirst : List.Forall₂ (fun item (row : WorkRow) => First casefold adapters rules item row.1 ∧
      row.2 = sourceMetadata item) items firsts := by
    refine (mapM_ok hfirsts).imp fun item row hrow => ?_
    obtain ⟨first, hfirst, hrow⟩ := bind_eq_ok.mp hrow
    cases hrow
    exact ⟨planOne_first hfirst, rfl⟩
  have hmiddle := forall₂_comp hfirst (manualReview_reviewed hmiddles)
  have hread : List.Forall₂ (Read casefold rules) items middles := by
    refine hmiddle.imp fun item middle hrow => ?_
    obtain ⟨row, ⟨hfirst, _⟩, hreviewed⟩ := hrow
    exact hfirst.read hparts hreviewed
  have hlast := forall₂_comp (forall₂_zipIdx hmiddle 0) (target_compared hlasts)
  obtain ⟨hlength, hentries⟩ := List.forall₂_iff_zip.mp hlast
  have hverdicts : List.Forall₂ (fun (entry : PublicItem × ℕ) (row : WorkRow) =>
      Verdict casefold adapters rules manualTarget items entry.1 row.1) items.zipIdx lasts := by
    refine List.forall₂_iff_zip.mpr ⟨hlength, fun {entry row} hmem => ?_⟩
    obtain ⟨⟨middle, j⟩,
      ⟨⟨⟨first, metadata⟩, ⟨hfirst, hmetadata⟩, hreviewed⟩, hindex⟩, hcompared⟩ := hentries hmem
    obtain rfl : metadata = sourceMetadata entry.1 := hmetadata
    obtain rfl : entry.2 = j := hindex
    have hothers : sharers middles entry.2 = rivals casefold rules items entry.1 :=
      funext fun target => sharers_eq_rivals hids hread (List.of_mem_zip hmem).1 target
    refine hfirst.verdict hparts hreviewed ?_
    rw [← hothers]
    exact hcompared
  rw [List.forall₂_map_right_iff]
  conv => enter [2]; rw [← List.zipIdx_map_fst 0 items]
  rw [List.forall₂_map_left_iff]
  exact hverdicts

/-! What a row says. -/

theorem Verdict.of_idle {row : PlanRow}
    (h : Verdict casefold adapters rules manualTarget items item row) (hidle : ¬Candidate item) :
    row = baseRow item := by
  cases h with
  | idle _ => rfl
  | manual hcandidate _ _ _ => exact absurd hcandidate hidle
  | manualOccupied hcandidate _ _ _ _ => exact absurd hcandidate hidle
  | shared hassigned _ _ _ => exact absurd hassigned.candidate hidle
  | occupied hassigned _ _ _ _ _ => exact absurd hassigned.candidate hidle
  | free hassigned _ _ _ _ => exact absurd hassigned.candidate hidle

theorem Verdict.of_manual {row : PlanRow}
    (h : Verdict casefold adapters rules manualTarget items item row) (hcandidate : Candidate item)
    (hnone : ∀ target, ¬Assigned casefold rules item target) : ∃ place,
      adapters.location manualTarget.rootId
        (join manualTarget.relativeDirectory item.filename) = .ok place ∧
      ((adapters.exists_ place = .ok false ∧ row = manualRow casefold rules item) ∨
        (adapters.exists_ place = .ok true ∧ ∃ existing, adapters.sourceInfo place = .ok existing ∧
          row = blocked item (manualRow casefold rules item) .manualReviewNameOccupied
            .manualReviewName existing [])) := by
  cases h with
  | idle hidle => exact absurd hcandidate hidle
  | manual _ _ hplace hfree => exact ⟨_, hplace, .inl ⟨hfree, rfl⟩⟩
  | manualOccupied _ _ hplace hoccupied hexisting =>
    exact ⟨_, hplace, .inr ⟨hoccupied, _, hexisting, rfl⟩⟩
  | shared hassigned _ _ _ => exact absurd hassigned (hnone _)
  | occupied hassigned _ _ _ _ _ => exact absurd hassigned (hnone _)
  | free hassigned _ _ _ _ => exact absurd hassigned (hnone _)

/-- The row of an item whose target is decided by the rules. -/
inductive Placed (casefold : Text → Text) (adapters : Adapters) (rules : List Rule)
    (items : List PublicItem) (item : PublicItem) (target : Text × Text) (place : Location)
    (chosen : Rule) : PlanRow → Prop where
  | shared : rivals casefold rules items item target ≠ [] →
      Placed casefold adapters rules items item target place chosen
        (blocked item (assignedRow casefold rules item place chosen) .targetOccupied
          .duplicatePlanTarget none (rivals casefold rules items item target))
  | occupied {existing} : rivals casefold rules items item target = [] →
      adapters.exists_ place = .ok true → adapters.sourceInfo place = .ok existing →
      Placed casefold adapters rules items item target place chosen
        (blocked item (assignedRow casefold rules item place chosen) .targetOccupied
          .existingTarget existing [])
  | free : rivals casefold rules items item target = [] → adapters.exists_ place = .ok false →
      Placed casefold adapters rules items item target place chosen
        (assignedRow casefold rules item place chosen)

theorem Verdict.of_assigned {row : PlanRow} {target : Text × Text}
    (h : Verdict casefold adapters rules manualTarget items item row)
    (hassigned : Assigned casefold rules item target) : ∃ place chosen,
      leastRule (winning casefold rules item) = some chosen ∧
      adapters.location target.1 target.2 = .ok place ∧
      Placed casefold adapters rules items item target place chosen row := by
  cases h with
  | idle hidle => exact absurd hassigned.candidate hidle
  | manual _ hnone _ _ => exact absurd hassigned (hnone _)
  | manualOccupied _ hnone _ _ _ => exact absurd hassigned (hnone _)
  | shared hother hchosen hplace hrivals =>
    obtain rfl := hassigned.unique hother
    exact ⟨_, _, hchosen, hplace, .shared hrivals⟩
  | occupied hother hchosen hplace hrivals hexists hexisting =>
    obtain rfl := hassigned.unique hother
    exact ⟨_, _, hchosen, hplace, .occupied hrivals hexists hexisting⟩
  | free hother hchosen hplace hrivals hexists =>
    obtain rfl := hassigned.unique hother
    exact ⟨_, _, hchosen, hplace, .free hrivals hexists⟩

/-- Nothing is selected for a row without a target. -/
structure Unplaced (item : PublicItem) (row : PlanRow) : Prop where
  itemId : row.itemId = item.itemId
  state : row.predictedState ≠ .willMove
  selected : row.selectedRule = none

theorem Verdict.unplaced {row : PlanRow}
    (h : Verdict casefold adapters rules manualTarget items item row)
    (hnone : ∀ target, ¬Assigned casefold rules item target) : Unplaced item row := by
  by_cases hcandidate : Candidate item
  · obtain ⟨place, _, ⟨_, rfl⟩ | ⟨_, existing, _, rfl⟩⟩ := h.of_manual hcandidate hnone
    · exact ⟨rfl, by rintro ⟨⟩, rfl⟩
    · exact ⟨rfl, by rintro ⟨⟩, rfl⟩
  · rw [h.of_idle hcandidate]
    exact ⟨rfl, by rintro ⟨⟩, rfl⟩

theorem Placed.selected {row : PlanRow} {target : Text × Text} {place : Location} {chosen : Rule}
    (h : Placed casefold adapters rules items item target place chosen row) :
    row.itemId = item.itemId ∧ row.selectedRule = some (reference chosen) := by
  cases h with
  | shared _ => exact ⟨rfl, rfl⟩
  | occupied _ _ _ => exact ⟨rfl, rfl⟩
  | free _ _ => exact ⟨rfl, rfl⟩

theorem Placed.moves {row : PlanRow} {target : Text × Text} {place : Location} {chosen : Rule}
    (h : Placed casefold adapters rules items item target place chosen row) :
    row.predictedState = .willMove ↔
      rivals casefold rules items item target = [] ∧ adapters.exists_ place = .ok false := by
  cases h with
  | shared hrivals => exact ⟨by rintro ⟨⟩, fun hnil => absurd hnil.1 hrivals⟩
  | occupied _ hexists _ =>
    refine ⟨by rintro ⟨⟩, fun hfree => ?_⟩
    rw [hexists] at hfree
    cases hfree.2
  | free hrivals hexists => exact ⟨fun _ => ⟨hrivals, hexists⟩, fun _ => rfl⟩

theorem chosen_least (hkeys : (rules.map key).Nodup) {chosen : Rule}
    (hchosen : leastRule (winning casefold rules item) = some chosen) {rule : Rule} :
    rule = chosen ↔ Wins casefold rules item rule ∧
      ∀ other, Wins casefold rules item other → key rule ≤ key other := by
  obtain ⟨hmem, hleast⟩ := leastRule_spec hchosen
  constructor
  · rintro rfl
    exact ⟨mem_winning.mp hmem, fun other hother => hleast other (mem_winning.mpr hother)⟩
  · rintro ⟨hwins, hle⟩
    have hkey : key rule = key chosen :=
      le_antisymm (hle chosen (mem_winning.mp hmem)) (hleast rule (mem_winning.mpr hwins))
    exact List.inj_on_of_nodup_map hkeys hwins.mem (mem_winning.mp hmem).mem hkey

theorem Verdict.spec {row : PlanRow} (hids : (items.map (·.itemId)).Nodup)
    (hkeys : (rules.map key).Nodup)
    (h : Verdict casefold adapters rules manualTarget items item row) :
    RowSpec casefold adapters rules items item row := by
  by_cases hassigned : ∃ target, Assigned casefold rules item target
  · obtain ⟨target, htarget⟩ := hassigned
    obtain ⟨place, chosen, hchosen, hplace, hplaced⟩ := h.of_assigned htarget
    refine ⟨hplaced.selected.1, ?_, ?_, ?_⟩
    · rw [hplaced.moves, rivals_eq_nil]
      constructor
      · rintro ⟨hrivals, hfree⟩
        exact ⟨target, htarget, ⟨place, hplace, hfree⟩, hrivals⟩
      · rintro ⟨other, hother, ⟨place', hplace', hfree⟩, hrivals⟩
        obtain rfl := htarget.unique hother
        obtain rfl := Except.ok.inj (hplace.symm.trans hplace')
        exact ⟨hrivals, hfree⟩
    · rintro other hother ⟨rival, hrival⟩
      obtain rfl := htarget.unique hother
      cases hplaced with
      | shared _ =>
        refine ⟨rfl, rfl, _, rfl, rfl, rivals_nodup hids target, fun id => mem_rivals⟩
      | occupied hnil _ _ => exact absurd hrival (rivals_eq_nil.mp hnil rival)
      | free hnil _ => exact absurd hrival (rivals_eq_nil.mp hnil rival)
    · intro ref
      rw [hplaced.selected.2]
      constructor
      · rintro ⟨⟩
        obtain ⟨hwins, hleast⟩ := (chosen_least hkeys hchosen).mp rfl
        exact ⟨⟨target, htarget⟩, chosen, hwins, rfl, hleast⟩
      · rintro ⟨_, rule, hwins, rfl, hleast⟩
        rw [(chosen_least hkeys hchosen).mpr ⟨hwins, hleast⟩]
  · have hnone : ∀ target, ¬Assigned casefold rules item target := not_exists.mp hassigned
    have hunplaced := h.unplaced hnone
    refine ⟨hunplaced.itemId, ?_, ?_, ?_⟩
    · constructor
      · exact fun hmoves => absurd hmoves hunplaced.state
      · rintro ⟨target, htarget, _⟩
        exact absurd htarget (hnone target)
    · exact fun target htarget => absurd htarget (hnone target)
    · intro ref
      rw [hunplaced.selected]
      constructor
      · rintro ⟨⟩
      · exact fun h => absurd h.1 hassigned

/-! Orders of rules and items. -/

theorem Wins.perm {rules' : List Rule} (hrules : rules'.Perm rules) {rule : Rule}
    (h : Wins casefold rules item rule) : Wins casefold rules' item rule :=
  ⟨hrules.mem_iff.mpr h.mem, h.found, fun other hother => h.least other (hrules.mem_iff.mp hother)⟩

theorem Assigned.perm {rules' : List Rule} (hrules : rules'.Perm rules) {target : Text × Text}
    (h : Assigned casefold rules item target) : Assigned casefold rules' item target := by
  obtain ⟨rule, hrule, hfound⟩ := h.found
  exact ⟨h.candidate, ⟨rule, hrules.mem_iff.mpr hrule, hfound⟩,
    fun rule hwins => h.same rule (hwins.perm hrules.symm)⟩

theorem winners_perm {l l' : List Rule} (h : l'.Perm l) : (winners l').Perm (winners l) := by
  have hfilter : ∀ k : List Rule, winners k =
      k.filter fun rule => ∀ other ∈ k, rule.priority ≤ other.priority := by
    intro k
    unfold winners
    refine List.filter_congr fun rule hrule => ?_
    have hmem : rule ∈ winners k ↔ rule ∈ k ∧ ∀ other ∈ k, rule.priority ≤ other.priority :=
      mem_winners
    unfold winners at hmem
    rw [List.mem_filter, decide_eq_true_eq, and_iff_right hrule, and_iff_right hrule] at hmem
    exact decide_eq_decide.mpr hmem
  rw [hfilter, hfilter]
  have hcongr : l.filter (fun rule => ∀ other ∈ l, rule.priority ≤ other.priority) =
      l.filter fun rule => ∀ other ∈ l', rule.priority ≤ other.priority := by
    refine List.filter_congr fun rule _ => decide_eq_decide.mpr ?_
    exact forall_congr' fun other => by rw [h.mem_iff]
  rw [hcongr]
  exact h.filter _

theorem winning_perm {rules' : List Rule} (h : rules'.Perm rules) :
    (winning casefold rules' item).Perm (winning casefold rules item) :=
  winners_perm (h.filter _)

theorem leastRule_perm {rules' : List Rule} (hkeys : (rules.map key).Nodup)
    (h : rules'.Perm rules) {chosen chosen' : Rule}
    (hchosen : leastRule (winning casefold rules item) = some chosen)
    (hchosen' : leastRule (winning casefold rules' item) = some chosen') : chosen' = chosen := by
  have hkeys' : (rules'.map key).Nodup := (h.map key).nodup_iff.mpr hkeys
  obtain ⟨hwins, hleast⟩ := (chosen_least hkeys' hchosen').mp rfl
  refine (chosen_least hkeys hchosen).mpr ⟨hwins.perm h.symm, fun other hother => ?_⟩
  exact hleast other (hother.perm h)

theorem rivals_perm {rules' : List Rule} {items' : List PublicItem} (hrules : rules'.Perm rules)
    (hitems : items'.Perm items) (target : Text × Text) :
    (rivals casefold rules' items' item target).Perm (rivals casefold rules items item target) := by
  have hcongr : rivals casefold rules' items' item target =
      rivals casefold rules items' item target := by
    unfold rivals
    congr 1
    refine List.filter_congr fun other _ => decide_eq_decide.mpr (and_congr_right fun _ => ?_)
    exact ⟨Assigned.perm hrules.symm, Assigned.perm hrules⟩
  rw [hcongr]
  exact (hitems.filter _).map _

theorem manualRow_perm {rules' : List Rule} (h : rules'.Perm rules) : ∃ matched,
    matched.Perm (manualRow casefold rules item).matchedRules ∧
      manualRow casefold rules' item =
        { manualRow casefold rules item with matchedRules := matched } := by
  have hwon : (winning casefold rules' item).Perm (winning casefold rules item) := winning_perm h
  have hnil : (winning casefold rules' item = []) = (winning casefold rules item = []) :=
    propext ⟨fun hnil => List.nil_perm.mp (hnil ▸ hwon), fun hnil => List.perm_nil.mp (hnil ▸ hwon)⟩
  refine ⟨(winning casefold rules' item).map reference, hwon.map _, ?_⟩
  unfold manualRow
  simp only [hnil]
  rfl

theorem assignedRow_perm {rules' : List Rule} (h : rules'.Perm rules) (place : Location)
    (chosen : Rule) : ∃ matched,
    matched.Perm (assignedRow casefold rules item place chosen).matchedRules ∧
      assignedRow casefold rules' item place chosen =
        { assignedRow casefold rules item place chosen with matchedRules := matched } :=
  ⟨_, (winning_perm h).map _, rfl⟩

theorem sameRow_of_matched {row row' : PlanRow} (h : ∃ matched,
    matched.Perm row.matchedRules ∧ row' = { row with matchedRules := matched }) :
    SameRow row row' := by
  obtain ⟨matched, hmatched, rfl⟩ := h
  refine ⟨matched, row.collision, hmatched, ?_, rfl⟩
  cases row.collision with
  | none => exact .none
  | some collision => exact .some ⟨_, .refl _, rfl⟩

theorem sameRow_blocked {row row' : PlanRow} {reason : Reason} {kind : CollisionKind}
    {existing : Option FileMetadata} {others others' : List Text} (h : ∃ matched,
      matched.Perm row.matchedRules ∧ row' = { row with matchedRules := matched })
    (hothers : others'.Perm others) :
    SameRow (blocked item row reason kind existing others)
      (blocked item row' reason kind existing others') := by
  obtain ⟨matched, hmatched, rfl⟩ := h
  exact ⟨matched, _, hmatched, .some ⟨others', hothers, rfl⟩, rfl⟩

theorem Verdict.same {rules' : List Rule} {items' : List PublicItem} {row row' : PlanRow}
    (hkeys : (rules.map key).Nodup) (hrules : rules'.Perm rules) (hitems : items'.Perm items)
    (h : Verdict casefold adapters rules manualTarget items item row)
    (h' : Verdict casefold adapters rules' manualTarget items' item row') : SameRow row row' := by
  by_cases hcandidate : Candidate item
  · by_cases hassigned : ∃ target, Assigned casefold rules item target
    · obtain ⟨target, htarget⟩ := hassigned
      obtain ⟨place, chosen, hchosen, hplace, hplaced⟩ := h.of_assigned htarget
      obtain ⟨place', chosen', hchosen', hplace', hplaced'⟩ := h'.of_assigned (htarget.perm hrules)
      obtain rfl := leastRule_perm hkeys hrules hchosen hchosen'
      obtain rfl := Except.ok.inj (hplace.symm.trans hplace')
      have hrivals : (rivals casefold rules' items' item target).Perm
          (rivals casefold rules items item target) := rivals_perm hrules hitems target
      have hmatched : ∃ matched,
          matched.Perm (assignedRow casefold rules item place chosen').matchedRules ∧
            assignedRow casefold rules' item place chosen' =
              { assignedRow casefold rules item place chosen' with matchedRules := matched } :=
        assignedRow_perm hrules place chosen'
      cases hplaced with
      | shared hne =>
        cases hplaced' with
        | shared _ => exact sameRow_blocked hmatched hrivals
        | occupied hnil _ _ => exact absurd (List.nil_perm.mp (hnil ▸ hrivals)) hne
        | free hnil _ => exact absurd (List.nil_perm.mp (hnil ▸ hrivals)) hne
      | occupied hnil hexists hexisting =>
        cases hplaced' with
        | shared hne => exact absurd (List.perm_nil.mp (hnil ▸ hrivals)) hne
        | occupied _ _ hexisting' =>
          obtain rfl := Except.ok.inj (hexisting.symm.trans hexisting')
          exact sameRow_blocked hmatched (.refl _)
        | free _ hexists' => cases hexists.symm.trans hexists'
      | free hnil hexists =>
        cases hplaced' with
        | shared hne => exact absurd (List.perm_nil.mp (hnil ▸ hrivals)) hne
        | occupied _ hexists' _ => cases hexists.symm.trans hexists'
        | free _ _ => exact sameRow_of_matched hmatched
    · have hnone : ∀ target, ¬Assigned casefold rules item target := not_exists.mp hassigned
      have hmatched : ∃ matched, matched.Perm (manualRow casefold rules item).matchedRules ∧
          manualRow casefold rules' item =
            { manualRow casefold rules item with matchedRules := matched } :=
        manualRow_perm hrules
      obtain ⟨place, hplace, hrow⟩ := h.of_manual hcandidate hnone
      obtain ⟨place', hplace', hrow'⟩ := h'.of_manual hcandidate fun target htarget =>
        hnone target (htarget.perm hrules.symm)
      obtain rfl := Except.ok.inj (hplace.symm.trans hplace')
      rcases hrow with ⟨hfree, rfl⟩ | ⟨hoccupied, existing, hexisting, rfl⟩
      · rcases hrow' with ⟨_, rfl⟩ | ⟨hoccupied, _⟩
        · exact sameRow_of_matched hmatched
        · cases hfree.symm.trans hoccupied
      · rcases hrow' with ⟨hfree, _⟩ | ⟨_, existing', hexisting', rfl⟩
        · cases hfree.symm.trans hoccupied
        · obtain rfl := Except.ok.inj (hexisting.symm.trans hexisting')
          exact sameRow_blocked hmatched (.refl _)
  · rw [h.of_idle hcandidate, h'.of_idle hcandidate]
    exact sameRow_of_matched ⟨_, .refl _, rfl⟩

theorem forall₂_perm {α β γ : Type} {R : α → β → Prop} {S : α → γ → Prop} {T : β → γ → Prop}
    {l l' : List α} {m : List β} {n : List γ} (hperm : l'.Perm l) (hl : List.Forall₂ R l m)
    (hl' : List.Forall₂ S l' n) (hT : ∀ a b c, R a b → S a c → T b c) :
    ∃ n', n'.Perm n ∧ List.Forall₂ T m n' := by
  obtain ⟨n', hn', hperm'⟩ := List.perm_comp_forall₂ hperm.symm hl'
  refine ⟨n', hperm', ?_⟩
  clear hl' hperm hperm'
  induction hl generalizing n' with
  | nil =>
    cases hn'
    exact .nil
  | cons hab _ ih =>
    cases hn' with
    | cons hac hrest => exact .cons (hT _ _ _ hab hac) (ih _ hrest)

/-! Adapters that answer. -/

/-- An oracle answers for every location, and every pair of parts has one. -/
structure Answers (adapters : Adapters) : Prop where
  exists_ : ∀ place, ∃ occupied, adapters.exists_ place = .ok occupied
  location : ∀ rootId path, ∃ place, adapters.location rootId path = .ok place
  sourceInfo : ∀ place, ∃ existing, adapters.sourceInfo place = .ok existing

theorem planOne_answers (h : Answers adapters) (rules : List Rule) (item : PublicItem) :
    ∃ row, planOne casefold adapters rules item = .ok row := by
  unfold planOne
  dsimp only
  split
  · exact ⟨_, rfl⟩
  · split
    · exact ⟨_, rfl⟩
    · split
      · rename_i rootId path _ _ _
        obtain ⟨place, hplace⟩ := h.location rootId path
        exact ⟨_, bind_eq_ok.mpr ⟨place, hplace, rfl⟩⟩
      · exact ⟨_, rfl⟩

theorem block_answers (h : Answers adapters) (row : WorkRow) (reason : Reason)
    (kind : CollisionKind) (place : Location) (others : List Text) :
    ∃ next, block adapters row reason kind place others = .ok next := by
  unfold block
  split
  · exact ⟨_, rfl⟩
  · obtain ⟨existing, hexisting⟩ := h.sourceInfo place
    exact ⟨_, bind_eq_ok.mpr ⟨existing, hexisting, rfl⟩⟩

theorem planRows_answers (h : Answers adapters) (casefold : Text → Text)
    (items : List PublicItem) (rules : List Rule) (manualTarget : TargetDirectory) :
    ∃ rows, planRows casefold adapters items rules manualTarget = .ok rows := by
  obtain ⟨firsts, hfirsts⟩ := mapM_succeeds.mpr fun item (_ : item ∈ items) =>
    show ∃ row, (do
      let row ← planOne casefold adapters rules item
      return (row, sourceMetadata item) : Except Exn WorkRow) = .ok row by
      obtain ⟨row, hrow⟩ : ∃ row, planOne casefold adapters rules item = .ok row :=
        planOne_answers h rules item
      exact ⟨_, bind_eq_ok.mpr ⟨row, hrow, rfl⟩⟩
  obtain ⟨middles, hmiddles⟩ : ∃ middles,
      applyManualReviewCollisions adapters manualTarget firsts = .ok middles := by
    refine mapM_succeeds.mpr fun row _ => ?_
    split
    · exact ⟨_, rfl⟩
    · obtain ⟨place, hplace⟩ := h.location manualTarget.rootId
        (join manualTarget.relativeDirectory row.1.filename)
      obtain ⟨occupied, hoccupied⟩ := h.exists_ place
      obtain ⟨next, hnext⟩ := block_answers h row .manualReviewNameOccupied .manualReviewName
        place []
      cases occupied with
      | true =>
        exact ⟨next, bind_eq_ok.mpr ⟨place, hplace, bind_eq_ok.mpr ⟨true, hoccupied, hnext⟩⟩⟩
      | false => exact ⟨row, bind_eq_ok.mpr ⟨place, hplace, bind_eq_ok.mpr ⟨false, hoccupied, rfl⟩⟩⟩
  obtain ⟨lasts, hlasts⟩ : ∃ lasts, applyTargetCollisions adapters middles = .ok lasts := by
    refine mapM_succeeds.mpr fun entry _ => ?_
    obtain ⟨row, i⟩ := entry
    dsimp only
    split
    · rename_i place _ _
      split
      · exact block_answers h _ _ _ _ _
      · obtain ⟨occupied, hoccupied⟩ := h.exists_ place
        obtain ⟨next, hnext⟩ := block_answers h row .targetOccupied .existingTarget place []
        cases occupied with
        | true => exact ⟨next, bind_eq_ok.mpr ⟨true, hoccupied, hnext⟩⟩
        | false => exact ⟨row, bind_eq_ok.mpr ⟨false, hoccupied, rfl⟩⟩
    · exact ⟨_, rfl⟩
  exact ⟨lasts.map Prod.fst, bind_eq_ok.mpr ⟨firsts, hfirsts, bind_eq_ok.mpr ⟨middles, hmiddles,
    bind_eq_ok.mpr ⟨lasts, hlasts, rfl⟩⟩⟩⟩

theorem planCounts_sum (rows : List PlanRow) :
    (planCounts rows).willMove + (planCounts rows).willManualReview +
      (planCounts rows).requiresDecision + (planCounts rows).notReady = rows.length := by
  induction rows with
  | nil => rfl
  | cons row rows ih =>
    unfold planCounts at ih ⊢
    simp only [List.countP_cons, List.length_cons] at ih ⊢
    cases row.predictedState <;> simp at ih ⊢ <;> omega

/-- What the specification says of the rows of a list. -/
structure PlanSpec (casefold : Text → Text) (adapters : Adapters) (rules : List Rule)
    (manualTarget : TargetDirectory) (items : List PublicItem) (rows : List PlanRow) : Prop where
  each : List.Forall₂ (RowSpec casefold adapters rules items) items rows
  counts : (planCounts rows).willMove + (planCounts rows).willManualReview +
    (planCounts rows).requiresDecision + (planCounts rows).notReady = rows.length
  orders : ∀ items' rules' rows', items'.Perm items → rules'.Perm rules →
    planRows casefold adapters items' rules' manualTarget = .ok rows' →
      ∃ rows'', rows''.Perm rows' ∧ List.Forall₂ SameRow rows rows''

theorem plan_specification (casefold : Text → Text) (adapters : Adapters) (rules : List Rule)
    (manualTarget : TargetDirectory) (items : List PublicItem) (hparts : KeepsParts adapters)
    (hids : (items.map (·.itemId)).Nodup) (hkeys : (rules.map key).Nodup) :
    (Answers adapters → ∃ rows, planRows casefold adapters items rules manualTarget = .ok rows) ∧
      ∀ rows, planRows casefold adapters items rules manualTarget = .ok rows →
        PlanSpec casefold adapters rules manualTarget items rows := by
  refine ⟨fun hanswers => planRows_answers hanswers casefold items rules manualTarget, ?_⟩
  intro rows hrows
  have hverdicts := planRows_verdicts hparts hids hrows
  refine ⟨hverdicts.imp fun item row h => h.spec hids hkeys, planCounts_sum rows, ?_⟩
  intro items' rules' rows' hitems hrules hrows'
  have hids' : (items'.map (·.itemId)).Nodup := (hitems.map _).nodup_iff.mpr hids
  have hverdicts' := planRows_verdicts hparts hids' hrows'
  exact forall₂_perm hitems hverdicts hverdicts' fun item row row' h h' =>
    h.same hkeys hrules hitems h'

/-! Two items that are sent to one name, and a third one. -/

def defaultAdapters (occupied : Location → Bool) : Adapters where
  exists_ place := .ok (occupied place)
  location rootId path := .ok ⟨rootId, path, rootId ++ ":/".toList ++ path⟩
  sourceInfo _ := .ok none

def sampleItem (itemId relativePath : Text) : PublicItem where
  itemId := itemId
  itemRevision := 1
  companyId := "C".toList
  incomingSourceId := "in".toList
  sourceName := "in".toList
  source := ⟨"in".toList, relativePath, relativePath⟩
  filename := leaf relativePath
  sizeBytes := 1
  modifiedAt := 0
  status := .ready
  reasonCode := none
  selectable := true
  activeAttemptId := none

def sampleRule (ruleId mask stem : Text) : Rule where
  ruleId := ruleId
  matchField := .basename
  mask := mask
  priority := 1
  target := ⟨"archive".toList, []⟩
  targetStem := stem
  dictionaryId := "D".toList
  versionId := none

theorem plan_specification_shared :
    let items := [sampleItem "1".toList "a/x.t".toList, sampleItem "2".toList "b/x.t".toList,
      sampleItem "3".toList "y.t".toList]
    let rules := [sampleRule "r".toList "x*".toList "s".toList,
      sampleRule "q".toList "y*".toList "u".toList]
    let adapters := defaultAdapters fun _ => false
    ∃ rows, planRows id adapters items rules ⟨"m".toList, []⟩ = .ok rows ∧
      PlanSpec id adapters rules ⟨"m".toList, []⟩ items rows ∧
      rows.map (·.predictedState) = [.requiresDecision, .requiresDecision, .willMove] := by
  intro items rules adapters
  obtain ⟨hsome, hspec⟩ := plan_specification id adapters rules ⟨"m".toList, []⟩ items
    (by rintro rootId path place ⟨⟩; rfl) (by decide) (by decide)
  obtain ⟨rows, hrows⟩ := hsome ⟨fun _ => ⟨_, rfl⟩, fun _ _ => ⟨_, rfl⟩, fun _ => ⟨_, rfl⟩⟩
  refine ⟨rows, hrows, hspec rows hrows, ?_⟩
  have hstates : (planRows id adapters items rules ⟨"m".toList, []⟩).map
      (List.map (·.predictedState)) = .ok [.requiresDecision, .requiresDecision, .willMove] := by
    decide +kernel
  rw [hrows] at hstates
  exact Except.ok.inj hstates

end PlanSpecification
