import WiseWay.Fallible
import WiseWay.SearchIndex
import WiseWay.StableSorting

/-! # The first rows of a response

`sort_rows` selects the first rows of a long result by cached ranks, where `_sort_rows` sorts
them all. Their orders are the same for every field but the time: there the selection compares
the texts of the timestamps and the sort their instants. -/
namespace TopRows

open Records SearchText Search SearchIndex StableSorting

/-! Orders. -/

/-- By a key in some direction, equal keys by an ascending tie. -/
def Precedes {α K T : Type} [LinearOrder K] [LinearOrder T] (direction : Direction) (key : α → K)
    (tie : α → T) (a b : α) : Prop :=
  (direction = .asc ∧ key a < key b) ∨ (direction = .desc ∧ key b < key a) ∨
    (key a = key b ∧ tie a < tie b)

instance {α K T : Type} [LinearOrder K] [LinearOrder T] (direction : Direction) (key : α → K)
    (tie : α → T) : DecidableRel (Precedes direction key tie) := fun _ _ =>
  inferInstanceAs (Decidable (_ ∨ _ ∨ _))

section Sorting

variable {α K T : Type} [LinearOrder K] [LinearOrder T] {direction : Direction}
variable {key : α → K} {tie : α → T} {rows : List α}

theorem precedes_asymm (a b : α) (h : Precedes direction key tie a b) :
    ¬Precedes direction key tie b a := by
  rintro h'
  rcases h with ⟨rfl, h⟩ | ⟨rfl, h⟩ | ⟨heq, h⟩
  · rcases h' with ⟨_, h'⟩ | ⟨⟨⟩, _⟩ | ⟨heq, _⟩
    · exact lt_asymm h h'
    · exact h.ne heq.symm
  · rcases h' with ⟨⟨⟩, _⟩ | ⟨_, h'⟩ | ⟨heq, _⟩
    · exact lt_asymm h h'
    · exact h.ne heq
  · rcases h' with ⟨_, h'⟩ | ⟨_, h'⟩ | ⟨_, h'⟩
    · exact h'.ne heq.symm
    · exact h'.ne heq
    · exact lt_asymm h h'

theorem sortBy_perm (direction : Direction) (key : α → K) (rows : List α) :
    (sortBy direction key rows).Perm rows := by
  cases direction with
  | asc => exact List.perm_insertionSort _ _
  | desc => exact List.perm_insertionSort _ _

theorem sortBy_asc (key : α → K) (rows : List α) :
    (sortBy .asc key rows).Pairwise fun a b => key a ≤ key b := by
  have h := insertionSort_stable (r := fun a b => key a ≤ key b) (s := fun _ _ => True)
    (fun a b => le_total _ _) (fun a b c => le_trans) (List.pairwise_of_forall fun _ _ => trivial)
    (l := rows)
  exact h.imp And.left

theorem sortBy_strict (hties : (rows.map tie).Nodup) :
    (sortBy .asc tie rows).Pairwise fun a b => tie a < tie b := by
  have hnodup : ((sortBy .asc tie rows).map tie).Nodup :=
    ((sortBy_perm .asc tie rows).map tie).nodup_iff.mpr hties
  have hne := List.pairwise_map.mp hnodup
  exact (List.pairwise_and_iff.mpr ⟨sortBy_asc tie rows, hne⟩).imp fun h => lt_of_le_of_ne h.1 h.2

theorem sortBy_twice (hties : (rows.map tie).Nodup) :
    (sortBy direction key (sortBy .asc tie rows)).Pairwise (Precedes direction key tie) := by
  have hstrict := sortBy_strict hties
  cases direction with
  | asc =>
    refine (insertionSort_stable (r := fun a b => key a ≤ key b) (fun a b => le_total _ _)
      (fun a b c => le_trans) hstrict).imp fun {a b} h => ?_
    rcases h.1.lt_or_eq with hlt | heq
    · exact .inl ⟨rfl, hlt⟩
    · exact .inr (.inr ⟨heq, h.2 heq.ge⟩)
  | desc =>
    refine (insertionSort_stable (r := fun a b => key b ≤ key a) (fun a b => le_total _ _)
      (fun a b c h h' => le_trans h' h) hstrict).imp fun {a b} h => ?_
    rcases h.1.lt_or_eq with hlt | heq
    · exact .inr (.inl ⟨rfl, hlt⟩)
    · exact .inr (.inr ⟨heq.symm, h.2 heq.ge⟩)

/-- A rank orders rows as a tie does, read in the direction of the sort. -/
def Ranks {N : Type} [LinearOrder N] (direction : Direction) (rank : α → N) (tie : α → T)
    (rows : List α) : Prop :=
  ∀ a ∈ rows, ∀ b ∈ rows, match direction with
    | .asc => rank a < rank b ↔ tie a < tie b
    | .desc => rank b < rank a ↔ tie a < tie b

theorem sortBy_once {N K' : Type} [LinearOrder N] [LinearOrder K'] {rank : α → N} {key' : α → K'}
    (hties : (rows.map tie).Nodup) (hrank : Ranks direction rank tie rows)
    (hkey : ∀ a ∈ rows, ∀ b ∈ rows, key' a < key' b ↔ key a < key b) :
    (sortBy direction (fun row => toLex (key' row, rank row)) rows).Pairwise
      (Precedes direction key tie) := by
  have hperm := sortBy_perm direction (fun row => toLex (key' row, rank row)) rows
  have hnodup : ((sortBy direction (fun row => toLex (key' row, rank row)) rows).map tie).Nodup :=
    (hperm.map tie).nodup_iff.mpr hties
  have hne := List.pairwise_map.mp hnodup
  have heq : ∀ a ∈ rows, ∀ b ∈ rows, key' a = key' b ↔ key a = key b := by
    intro a ha b hb
    rw [← not_iff_not, ← ne_eq, ← ne_eq, ne_iff_lt_or_gt, ne_iff_lt_or_gt, hkey a ha b hb,
      hkey b hb a ha]
  cases direction with
  | asc =>
    have hsorted := sortBy_asc (fun row => toLex (key' row, rank row)) rows
    refine (List.pairwise_and_iff.mpr ⟨hsorted, hne⟩).imp_of_mem fun {a b} ha hb h => ?_
    have ha := hperm.mem_iff.mp ha
    have hb := hperm.mem_iff.mp hb
    rcases (Prod.Lex.toLex_le_toLex.mp h.1) with hlt | ⟨hkeys, hle⟩
    · exact .inl ⟨rfl, (hkey a ha b hb).mp hlt⟩
    · refine .inr (.inr ⟨(heq a ha b hb).mp hkeys, ?_⟩)
      refine lt_of_le_of_ne (not_lt.mp fun hlt => ?_) h.2
      exact absurd ((hrank b hb a ha).mpr hlt) (not_lt.mpr hle)
  | desc =>
    have hsorted := insertionSort_stable (s := fun _ _ => True)
      (r := fun a b => toLex (key' b, rank b) ≤ toLex (key' a, rank a)) (fun a b => le_total _ _)
      (fun a b c h h' => le_trans h' h) (List.pairwise_of_forall fun _ _ => trivial) (l := rows)
    refine (List.pairwise_and_iff.mpr ⟨hsorted.imp And.left, hne⟩).imp_of_mem
      fun {a b} ha hb h => ?_
    have ha := hperm.mem_iff.mp ha
    have hb := hperm.mem_iff.mp hb
    rcases (Prod.Lex.toLex_le_toLex.mp h.1) with hlt | ⟨hkeys, hle⟩
    · exact .inr (.inl ⟨rfl, (hkey b hb a ha).mp hlt⟩)
    · refine .inr (.inr ⟨((heq b hb a ha).mp hkeys).symm, ?_⟩)
      refine lt_of_le_of_ne (not_lt.mp fun hlt => ?_) h.2
      exact absurd ((hrank b hb a ha).mpr hlt) (not_lt.mpr hle)

end Sorting

/-! Ranks. -/

variable {u : Library}

theorem pathTie_injective {items : List Item} (hids : (items.map (·.itemId)).Nodup) :
    (items.map (pathTie u)).Nodup := by
  refine List.Nodup.of_map (fun tie : PathTie => (ofLex (ofLex tie).2).2) ?_
  rw [List.map_map]
  exact hids

theorem pathRank_lt {index : Prepared} (hids : (index.items.map (·.itemId)).Nodup) {a b : Item}
    (ha : a ∈ index.items) (hb : b ∈ index.items) :
    index.pathRank u a < index.pathRank u b ↔ pathTie u a < pathTie u b := by
  have hsorted := sortBy_strict (pathTie_injective (u := u) hids)
  have hperm := sortBy_perm .asc (pathTie u) index.items
  have hplace : ∀ c ∈ index.items, ∃ h : index.pathRank u c < (sortBy .asc (pathTie u)
      index.items).length, (sortBy .asc (pathTie u) index.items)[index.pathRank u c] = c := by
    intro c hc
    have hlt := List.idxOf_lt_length_of_mem (hperm.mem_iff.mpr hc)
    exact ⟨hlt, List.getElem_idxOf hlt⟩
  obtain ⟨ha', hageq⟩ := hplace a ha
  obtain ⟨hb', hbgeq⟩ := hplace b hb
  have hpair := List.pairwise_iff_getElem.mp hsorted
  constructor
  · intro hlt
    have := hpair _ _ ha' hb' hlt
    rwa [hageq, hbgeq] at this
  · intro hlt
    by_contra hle
    rcases Nat.lt_or_eq_of_le (Nat.le_of_not_lt hle) with hba | heq
    · have := hpair _ _ hb' ha' hba
      rw [hageq, hbgeq] at this
      exact lt_asymm hlt this
    · have hsame : a = b := by
        rw [← hageq, ← hbgeq]
        simp only [heq]
      rw [hsame] at hlt
      exact lt_irrefl _ hlt

/-- The numbers that sorted names get follow their keys. -/
theorem rankNames_spec : ∀ {rows : List Item} {previous : Option NaturalKey} {rank : ℤ},
    rows.Pairwise (fun a b => naturalKey u.toUnicode a.filename ≤
      naturalKey u.toUnicode b.filename) →
    (∀ known, previous = some known → ∀ row ∈ rows,
      known ≤ naturalKey u.toUnicode row.filename) →
    (Prepared.rankNames u previous rank rows).map Prod.fst = rows ∧
      (∀ entry ∈ Prepared.rankNames u previous rank rows,
        (rank < entry.2 ∨ (entry.2 = rank ∧
          previous = some (naturalKey u.toUnicode entry.1.filename))) ∧
        ∀ known, previous = some known → entry.2 ≠ rank →
          known < naturalKey u.toUnicode entry.1.filename) ∧
      (Prepared.rankNames u previous rank rows).Pairwise fun a b =>
        (naturalKey u.toUnicode a.1.filename = naturalKey u.toUnicode b.1.filename ∧ a.2 = b.2) ∨
        (naturalKey u.toUnicode a.1.filename < naturalKey u.toUnicode b.1.filename ∧ a.2 < b.2)
  | [], _, _, _, _ => ⟨rfl, fun _ h => absurd h List.not_mem_nil, .nil⟩
  | row :: rows, previous, rank, hsorted, hprevious => by
    obtain ⟨hrow, hrows⟩ := List.pairwise_cons.mp hsorted
    set next := if previous ≠ some (naturalKey u.toUnicode row.filename) then rank + 1 else rank
      with hnext
    have hunfold : Prepared.rankNames u previous rank (row :: rows) = (row, next) ::
        Prepared.rankNames u (some (naturalKey u.toUnicode row.filename)) next rows := rfl
    obtain ⟨hfst, hbounds, hpairs⟩ := @rankNames_spec rows
      (some (naturalKey u.toUnicode row.filename)) next hrows (by rintro known ⟨⟩; exact hrow)
    have hfirst : (rank < next ∨ (next = rank ∧
        previous = some (naturalKey u.toUnicode row.filename))) ∧
        ∀ known, previous = some known → next ≠ rank →
          known < naturalKey u.toUnicode row.filename := by
      by_cases hsame : previous = some (naturalKey u.toUnicode row.filename)
      · have heq : next = rank := by rw [hnext, if_neg (not_not.mpr hsame)]
        exact ⟨.inr ⟨heq, hsame⟩, fun _ _ hne => absurd heq hne⟩
      · have heq : next = rank + 1 := by rw [hnext, if_pos hsame]
        refine ⟨.inl (by omega), fun known hknown _ => ?_⟩
        refine lt_of_le_of_ne (hprevious known hknown row (List.mem_cons_self ..)) ?_
        rintro rfl
        exact hsame hknown
    rw [hunfold]
    refine ⟨by rw [List.map_cons, hfst], ?_, List.pairwise_cons.mpr ⟨?_, hpairs⟩⟩
    · intro entry hentry
      rcases List.mem_cons.mp hentry with rfl | hentry
      · exact hfirst
      · obtain ⟨hbound, hgreater⟩ := hbounds entry hentry
        rcases hfirst.1 with hlt | ⟨heq, hsame⟩
        · refine ⟨.inl ?_, fun known hknown _ => ?_⟩
          · rcases hbound with h | h <;> omega
          · have hknown' := hfirst.2 known hknown hlt.ne'
            by_cases hentry2 : entry.2 = next
            · rcases hbound with h | ⟨_, h⟩
              · exact absurd hentry2 h.ne'
              · rwa [← Option.some.inj h]
            · exact hknown'.trans (hgreater _ rfl hentry2)
        · rw [heq] at hbound hgreater
          refine ⟨?_, fun known hknown hne => ?_⟩
          · rw [hsame]
            exact hbound
          · rw [hsame] at hknown
            exact hgreater known hknown hne
    · intro entry hentry
      obtain ⟨hbound, hgreater⟩ := hbounds entry hentry
      rcases hbound with hlt | ⟨heq, hsame⟩
      · exact .inr ⟨hgreater _ rfl hlt.ne', hlt⟩
      · exact .inl ⟨Option.some.inj hsame, heq.symm⟩

theorem nameRank_lt {index : Prepared} (hids : (index.items.map (·.itemId)).Nodup) {a b : Item}
    (ha : a ∈ index.items) (hb : b ∈ index.items) :
    index.nameRank u a < index.nameRank u b ↔
      naturalKey u.toUnicode a.filename < naturalKey u.toUnicode b.filename := by
  set names := sortBy .asc (fun row : Item => naturalKey u.toUnicode row.filename) index.items
    with hnames
  have hperm : names.Perm index.items := sortBy_perm _ _ _
  obtain ⟨hfst, _, hpairs⟩ := @rankNames_spec u _ none (-1)
    (sortBy_asc (fun row : Item => naturalKey u.toUnicode row.filename) index.items)
    (by rintro _ ⟨⟩)
  rw [← hnames] at hfst hpairs
  have hnodup : names.Nodup := (hperm.nodup_iff).mpr hids.of_map
  have hentry : ∀ c ∈ index.items,
      (c, index.nameRank u c) ∈ Prepared.rankNames u none (-1) names := by
    intro c hc
    have hmem : c ∈ (Prepared.rankNames u none (-1) names).map Prod.fst := by
      rw [hfst]
      exact hperm.mem_iff.mpr hc
    obtain ⟨entry, hentry, hfound⟩ := List.mem_map.mp hmem
    have hrank : index.nameRank u c =
        (((Prepared.rankNames u none (-1) names).find? (·.1 = c)).map Prod.snd).getD 0 := rfl
    cases hfind : (Prepared.rankNames u none (-1) names).find? (·.1 = c) with
    | none => exact absurd (decide_eq_true hfound) (List.find?_eq_none.mp hfind entry hentry)
    | some found =>
      have hname : found.1 = c := by simpa using List.find?_some hfind
      rw [hrank, hfind, Option.map_some, Option.getD_some, ← hname]
      exact List.mem_of_find?_eq_some hfind
  by_cases hab : a = b
  · subst hab
    simp
  · rcases List.Pairwise.forall_of_forall_of_flip (R := fun x y => x ≠ y →
      (naturalKey u.toUnicode x.1.filename = naturalKey u.toUnicode y.1.filename ∧ x.2 = y.2) ∨
      (naturalKey u.toUnicode x.1.filename < naturalKey u.toUnicode y.1.filename ∧ x.2 < y.2) ∨
      (naturalKey u.toUnicode y.1.filename < naturalKey u.toUnicode x.1.filename ∧ y.2 < x.2))
      (fun _ _ h => absurd rfl h) (hpairs.imp fun h _ => h.imp id .inl)
      (hpairs.imp fun h _ => h.imp (fun h => ⟨h.1.symm, h.2.symm⟩) .inr) (hentry a ha) (hentry b hb)
      (fun h => hab (congrArg Prod.fst h)) with ⟨hkey, hrank⟩ | ⟨hkey, hrank⟩ | ⟨hkey, hrank⟩
    · exact iff_of_false (not_lt.mpr hrank.ge) (not_lt.mpr hkey.ge)
    · exact iff_of_true hrank hkey
    · exact iff_of_false (not_lt.mpr hrank.le) (not_lt.mpr hkey.le)

/-! The two sorts. -/

def instant (u : Library) (item : Item) : Text :=
  match instantSortKey u.toUnicode item.modifiedAt with
  | .ok instant => instant
  | .error _ => []

/-- The order of a response, with a time for each item. -/
def Before (u : Library) (time : Item → Text) (ordering : SearchSort) : Row → Row → Prop :=
  let tie := fun row : Row => pathTie u row.1
  match ordering.field with
  | .relevance => Precedes ordering.direction (fun row : Row => row.2) tie
  | .path => Precedes ordering.direction tie tie
  | .name =>
    Precedes ordering.direction (fun row : Row => naturalKey u.toUnicode row.1.filename) tie
  | .size => Precedes ordering.direction (fun row : Row => row.1.sizeBytes) tie
  | .modifiedAt => Precedes ordering.direction (fun row : Row => time row.1) tie

theorem before_asymm {time : Item → Text} {ordering : SearchSort} (a b : Row)
    (h : Before u time ordering a b) : ¬Before u time ordering b a := by
  unfold Before at *
  cases hfield : ordering.field <;> rw [hfield] at h <;> exact precedes_asymm a b h

/-- Rows of different items, each of the index. -/
structure Listed (items : List Item) (rows : List Row) : Prop where
  ids : (items.map (·.itemId)).Nodup
  sublist : (rows.map Prod.fst).Sublist items

theorem Listed.mem {items : List Item} {rows : List Row} (h : Listed items rows) {row : Row}
    (hrow : row ∈ rows) : row.1 ∈ items :=
  h.sublist.subset (List.mem_map_of_mem hrow)

theorem Listed.ties {items : List Item} {rows : List Row} (h : Listed items rows) :
    (rows.map fun row => pathTie u row.1).Nodup := by
  have hties := (pathTie_injective (u := u) h.ids).sublist (h.sublist.map (pathTie u))
  rwa [List.map_map] at hties

theorem sortBy_path {items : List Item} {rows : List Row} (h : Listed items rows)
    (direction : Direction) : (sortBy direction (fun row : Row => pathTie u row.1) rows).Pairwise
      (Precedes direction (fun row : Row => pathTie u row.1) fun row => pathTie u row.1) := by
  have hsorted : (sortBy direction (fun row : Row => pathTie u row.1)
      (sortBy .asc (fun row : Row => pathTie u row.1) rows)).Pairwise
        (Precedes direction (fun row : Row => pathTie u row.1) fun row => pathTie u row.1) :=
    sortBy_twice h.ties
  cases direction with
  | asc =>
    have hstrict := sortBy_strict (h.ties (u := u))
    exact hstrict.imp fun hlt => .inl ⟨rfl, hlt⟩
  | desc =>
    have hperm := sortBy_perm .desc (fun row : Row => pathTie u row.1) rows
    have hne := List.pairwise_map.mp ((hperm.map fun row => pathTie u row.1).nodup_iff.mpr h.ties)
    have hle := (insertionSort_stable (s := fun _ _ => True)
      (r := fun a b : Row => pathTie u b.1 ≤ pathTie u a.1) (fun a b => le_total _ _)
      (fun a b c h h' => le_trans h' h) (List.pairwise_of_forall fun _ _ => trivial) (l := rows))
    refine (List.pairwise_and_iff.mpr ⟨hle, hne⟩).imp fun h => ?_
    exact .inr (.inl ⟨rfl, lt_of_le_of_ne h.1.1 h.2.symm⟩)

/-- `_sort_rows` puts rows into the order by instants. -/
theorem sortRows_sorted {items : List Item} {rows : List Row} {ordering : SearchSort}
    (h : Listed items rows)
    (htimes : ∀ item ∈ items, ∃ key, instantSortKey u.toUnicode item.modifiedAt = .ok key)
    (hvalid : ordering.field = .relevance → ordering.direction = .desc) :
    ∃ l : List Row, Search.sortRows u rows ordering = .ok (l.map Prod.fst) ∧ l.Perm rows ∧
      l.Pairwise (Before u (instant u) ordering) := by
  obtain ⟨field, direction⟩ := ordering
  have hties := h.ties (u := u)
  have hpath := sortBy_perm .asc (fun row : Row => pathTie u row.1) rows
  cases field with
  | relevance =>
    obtain rfl : direction = .desc := hvalid rfl
    refine ⟨_, rfl, sortBy_perm _ _ _, ?_⟩
    have hkeys : (rows.map fun row : Row => (toLex (OrderDual.toDual row.2, pathTie u row.1) :
        ℕᵒᵈ ×ₗ PathTie)).Nodup := by
      refine List.Nodup.of_map (fun key : ℕᵒᵈ ×ₗ PathTie => (ofLex key).2) ?_
      rw [List.map_map]
      exact hties
    refine (sortBy_strict hkeys).imp fun {a b} hlt => ?_
    rcases Prod.Lex.toLex_lt_toLex.mp hlt with hlt | ⟨heq, hlt⟩
    · exact .inr (.inl ⟨rfl, OrderDual.toDual_lt_toDual.mp hlt⟩)
    · exact .inr (.inr ⟨OrderDual.toDual_inj.mp heq, hlt⟩)
  | path => exact ⟨_, rfl, sortBy_perm _ _ _, sortBy_path h direction⟩
  | name => exact ⟨_, rfl, (sortBy_perm _ _ _).trans hpath, sortBy_twice hties⟩
  | size => exact ⟨_, rfl, (sortBy_perm _ _ _).trans hpath, sortBy_twice hties⟩
  | modifiedAt =>
    set ties := sortBy .asc (fun row : Row => pathTie u row.1) rows with hties'
    have hkeyed : (ties.mapM fun row => (do
        return (← instantSortKey u.toUnicode row.1.modifiedAt, row.1) :
          Except SearchError (Text × Item))) =
        .ok (ties.map fun row => (instant u row.1, row.1)) := by
      refine Fallible.mapM_eq_map fun row hrow => ?_
      obtain ⟨key, hkey⟩ := htimes row.1 (h.mem (hpath.mem_iff.mp hrow))
      unfold instant
      rw [hkey]
      rfl
    refine ⟨sortBy direction (fun row : Row => instant u row.1) ties, ?_,
      (sortBy_perm _ _ _).trans hpath, sortBy_twice hties⟩
    have hmap : sortBy direction Prod.fst (ties.map fun row => (instant u row.1, row.1)) =
        (sortBy direction (fun row : Row => instant u row.1) ties).map fun row =>
          (instant u row.1, row.1) := by
      cases direction with
      | asc =>
        exact (List.map_insertionSort (r := fun a b : Row => instant u a.1 ≤ instant u b.1)
          (s := fun a b : Text × Item => a.1 ≤ b.1) _ _ fun _ _ _ _ => Iff.rfl).symm
      | desc =>
        exact (List.map_insertionSort (r := fun a b : Row => instant u b.1 ≤ instant u a.1)
          (s := fun a b : Text × Item => b.1 ≤ a.1) _ _ fun _ _ _ _ => Iff.rfl).symm
    show (ties.mapM _ >>= fun keyed => _) = _
    rw [hkeyed]
    show Except.ok ((sortBy direction Prod.fst (ties.map _)).map Prod.snd) = _
    rw [hmap, List.map_map]
    rfl

theorem ranks_path {index : Prepared} {rows : List Row} (h : Listed index.items rows)
    (direction : Direction) :
    Ranks direction (index.tieRank u direction) (fun row => pathTie u row.1) rows := by
  intro a ha b hb
  have hab := pathRank_lt (u := u) h.ids (h.mem ha) (h.mem hb)
  cases direction with
  | asc =>
    show (index.pathRank u a.1 : ℤ) < index.pathRank u b.1 ↔ _
    rw [← hab]
    omega
  | desc =>
    show -(index.pathRank u b.1 : ℤ) < -index.pathRank u a.1 ↔ _
    rw [← hab]
    omega

/-- `sort_rows` takes the first rows in the order by texts. -/
theorem select_sorted {index : Prepared} {rows : List Row} {ordering : SearchSort} {limit : ℕ}
    (h : Listed index.items rows) (hlimit : limit < rows.length)
    (hvalid : ordering.field = .relevance → ordering.direction = .desc) :
    ∃ m : List Row, index.sortRows u rows ordering limit = .ok ((m.take limit).map Prod.fst) ∧
      m.Perm rows ∧ m.Pairwise (Before u (·.modifiedAt) ordering) := by
  obtain ⟨field, direction⟩ := ordering
  have hties := h.ties (u := u)
  have hrank := ranks_path (u := u) h direction
  unfold Prepared.sortRows
  rw [if_neg (not_le.mpr hlimit)]
  cases field with
  | relevance =>
    obtain rfl : direction = .desc := hvalid rfl
    exact ⟨_, rfl, sortBy_perm _ _ _, sortBy_once hties hrank fun _ _ _ _ => Iff.rfl⟩
  | path =>
    refine ⟨_, rfl, sortBy_perm _ _ _, ?_⟩
    have hcongr : sortBy direction (fun row : Row => index.pathRank u row.1) rows =
        sortBy direction (fun row : Row => pathTie u row.1) rows := by
      have hle : ∀ a ∈ rows, ∀ b ∈ rows,
          index.pathRank u a.1 ≤ index.pathRank u b.1 ↔ pathTie u a.1 ≤ pathTie u b.1 := by
        intro a ha b hb
        rw [← not_lt, ← not_lt, pathRank_lt h.ids (h.mem hb) (h.mem ha)]
      cases direction with
      | asc =>
        have := List.map_insertionSort (r := fun a b : Row =>
          index.pathRank u a.1 ≤ index.pathRank u b.1)
          (s := fun a b : Row => pathTie u a.1 ≤ pathTie u b.1) id rows hle
        rwa [List.map_id, List.map_id] at this
      | desc =>
        have := List.map_insertionSort (r := fun a b : Row =>
          index.pathRank u b.1 ≤ index.pathRank u a.1)
          (s := fun a b : Row => pathTie u b.1 ≤ pathTie u a.1) id rows
          fun a ha b hb => hle b hb a ha
        rwa [List.map_id, List.map_id] at this
    rw [hcongr]
    exact sortBy_path h direction
  | name =>
    refine ⟨_, rfl, sortBy_perm _ _ _, sortBy_once hties hrank fun a ha b hb => ?_⟩
    exact nameRank_lt h.ids (h.mem ha) (h.mem hb)
  | size => exact ⟨_, rfl, sortBy_perm _ _ _, sortBy_once hties hrank fun _ _ _ _ => Iff.rfl⟩
  | modifiedAt => exact ⟨_, rfl, sortBy_perm _ _ _, sortBy_once hties hrank fun _ _ _ _ => Iff.rfl⟩

/-- Between a row that fewer than `limit` others precede by their instants and any other row,
the texts of the timestamps decide as their instants do. -/
def TextsFollow (u : Library) (direction : Direction) (rows : List Row) (limit : ℕ) : Prop :=
  let byInstant := Precedes direction (fun row : Row => instant u row.1) fun row => pathTie u row.1
  let byText := Precedes direction (fun row : Row => row.1.modifiedAt) fun row => pathTie u row.1
  ∀ a ∈ rows, ∀ b ∈ rows, rows.countP (byInstant · a) < limit → (byInstant a b ↔ byText a b)

theorem map_injective_on {α β : Type} {f : α → β} : ∀ {l m : List α},
    (∀ a ∈ l, ∀ b ∈ m, f a = f b → a = b) → l.map f = m.map f → l = m
  | [], [], _, _ => rfl
  | [], b :: m, _, h => by cases h
  | a :: l, [], _, h => by cases h
  | a :: l, b :: m, hf, h => by
    rw [List.map_cons, List.map_cons, List.cons.injEq] at h
    rw [hf a (List.mem_cons_self ..) b (List.mem_cons_self ..) h.1,
      map_injective_on (fun x hx y hy => hf x (List.mem_cons_of_mem _ hx) y
        (List.mem_cons_of_mem _ hy)) h.2]

theorem Listed.item_injective {items : List Item} {rows : List Row} (h : Listed items rows)
    {a b : Row} (ha : a ∈ rows) (hb : b ∈ rows) (heq : a.1 = b.1) : a = b := by
  have hnodup : (rows.map Prod.fst).Nodup := h.sublist.nodup (List.Nodup.of_map _ h.ids)
  exact List.inj_on_of_nodup_map hnodup ha hb heq

/-- The selection takes the first rows of the sort, except where rows are ordered by a time whose
texts do not follow the instants. -/
theorem top_rows (u : Library) (index : Prepared) (rows : List Row) (ordering : SearchSort)
    (limit : ℕ) (hlisted : Listed index.items rows)
    (htimes : ∀ item ∈ index.items, ∃ key,
      instantSortKey u.toUnicode item.modifiedAt = .ok key)
    (hvalid : ordering.field = .relevance → ordering.direction = .desc) :
    ∃ selected sorted, index.sortRows u rows ordering limit = .ok selected ∧
      Search.sortRows u rows ordering = .ok sorted ∧
        (selected.take limit = sorted.take limit ↔
          (ordering.field ≠ .modifiedAt ∨ rows.length ≤ limit ∨
            TextsFollow u ordering.direction rows limit)) := by
  obtain ⟨l, hsort, hl, hbefore⟩ := sortRows_sorted hlisted htimes hvalid
  by_cases hlimit : rows.length ≤ limit
  · refine ⟨_, _, ?_, hsort, iff_of_true rfl (.inr (.inl hlimit))⟩
    unfold Prepared.sortRows
    rw [if_pos hlimit]
    exact hsort
  · obtain ⟨m, hselect, hm, hwritten⟩ := select_sorted (u := u) hlisted (not_le.mp hlimit) hvalid
    have hlm : l.Perm m := hl.trans hm.symm
    refine ⟨_, _, hselect, hsort, ?_⟩
    have htake : ((m.take limit).map Prod.fst).take limit = (l.map Prod.fst).take limit ↔
        l.take limit = m.take limit := by
      rw [← List.map_take, ← List.map_take, List.take_take, Nat.min_self]
      constructor
      · intro heq
        refine (map_injective_on (fun a ha b hb hab => ?_) heq).symm
        exact hlisted.item_injective (hm.mem_iff.mp (List.mem_of_mem_take ha))
          (hl.mem_iff.mp (List.mem_of_mem_take hb)) hab
      · intro heq
        rw [heq]
    rw [htake]
    by_cases hfield : ordering.field = .modifiedAt
    · have hother : ¬ordering.field ≠ .modifiedAt := not_not.mpr hfield
      rw [or_iff_right hother, or_iff_right hlimit]
      unfold Before at hbefore hwritten
      rw [hfield] at hbefore hwritten
      rw [take_eq_take_iff precedes_asymm precedes_asymm hbefore hwritten hlm]
      dsimp only [TextsFollow]
      constructor
      · intro h a ha b hb hcount
        refine h a (hl.mem_iff.mpr ha) b (hl.mem_iff.mpr hb) ?_
        rw [hl.countP_eq]
        exact hcount
      · intro h a ha b hb hcount
        rw [hl.countP_eq] at hcount
        exact h a (hl.mem_iff.mp ha) b (hl.mem_iff.mp hb) hcount
    · have hsame : Before u (instant u) ordering = Before u (·.modifiedAt) ordering := by
        unfold Before
        cases hcase : ordering.field with
        | modifiedAt => exact absurd hcase hfield
        | relevance => rfl
        | path => rfl
        | name => rfl
        | size => rfl
      rw [hsame] at hbefore
      exact iff_of_true (congrArg _ (eq_of_sorted before_asymm hbefore hwritten hlm)) (.inl hfield)

/-! Two files of one second. -/

def stamped (itemId modifiedAt : Text) : Item where
  itemId := itemId
  location := ⟨"R".toList, itemId, itemId⟩
  filename := itemId
  markers := []
  extension := []
  sizeBytes := 1
  modifiedAt := modifiedAt
  structureIssue := none

def letters : Library where
  fold c := [c.toLower]
  isSpace c := c = ' '
  isAlnum := Char.isAlphanum
  decimal c := if c.isDigit then some (c.toNat - '0'.toNat) else none
  digest := id

def whole : Item := stamped "a".toList "2024-01-01T00:00:00Z".toList

def half : Item := stamped "b".toList "2024-01-01T00:00:00.5Z".toList

def later : Item := stamped "c".toList "2024-01-01T00:00:01Z".toList

theorem top_rows_seconds :
    let index := prepare letters [whole, later]
    let rows := [(whole, 0), (later, 0)]
    let ordering : SearchSort := ⟨.modifiedAt, .desc⟩
    ∃ selected sorted, index.sortRows letters rows ordering 1 = .ok selected ∧
      Search.sortRows letters rows ordering = .ok sorted ∧
        (selected.take 1 = sorted.take 1 ↔ (ordering.field ≠ .modifiedAt ∨ rows.length ≤ 1 ∨
          TextsFollow letters ordering.direction rows 1)) ∧ selected = [later] := by
  intro index rows ordering
  have hitems : index.items = [whole, later] := rfl
  have htimes : ∀ item ∈ index.items, ∃ key,
      instantSortKey letters.toUnicode item.modifiedAt = .ok key := by
    rw [hitems]
    refine List.forall_mem_cons.mpr ⟨⟨"2024-01-01T00:00:00.".toList, by decide +kernel⟩, ?_⟩
    exact List.forall_mem_singleton.mpr ⟨"2024-01-01T00:00:01.".toList, by decide +kernel⟩
  obtain ⟨selected, sorted, hselect, hsort, hiff⟩ := top_rows letters index rows ordering 1
    ⟨by rw [hitems]; decide, by rw [hitems]; exact .refl _⟩ htimes (by rintro ⟨⟩)
  refine ⟨selected, sorted, hselect, hsort, hiff, ?_⟩
  have hrun : index.sortRows letters rows ordering 1 = .ok [later] := by decide +kernel
  exact Except.ok.inj (hselect.symm.trans hrun)

/-- The earliest of the two is the whole second; the selection takes the other one. -/
theorem fraction_first : ∃ selected sorted,
    (prepare letters [whole, half]).sortRows letters [(whole, 0), (half, 0)] ⟨.modifiedAt, .asc⟩ 1 =
      .ok selected ∧
    Search.sortRows letters [(whole, 0), (half, 0)] ⟨.modifiedAt, .asc⟩ = .ok sorted ∧
      selected.take 1 ≠ sorted.take 1 := by
  refine ⟨[half], [whole, half], ?_, ?_, by decide⟩
  · decide +kernel
  · decide +kernel

end TopRows
