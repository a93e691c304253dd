import WiseWay.PreparedSearch
import WiseWay.SearchGenerations
import WiseWay.StoredWords

/-! # Candidates of a query

A table of scores speaks of the rows of one generation. Each clause of a query has such a table,
and both plans that combine the clauses leave the scores of the evaluator. -/
namespace CandidateRows

open Records SearchText Search SearchTables SearchGenerations SqlSearch StoredWords
open Groupings (grouped reduce)

variable {u : Library} {G : Type} [DecidableEq G] {t : Tables G} {g : G}

/-- A table has a score for the rows of a generation whose items have one. -/
def Scores (t : Tables G) (g : G) (best : Item → Option ℕ) (table : RowScores) : Prop :=
  ∀ rowId score, table[rowId]? = some score ↔
    ∃ row ∈ (rowsOf t g).items, row.rowId = rowId ∧ best row.item = some score

/-- The same of a list of rows, each listed once. -/
structure Picks (t : Tables G) (g : G) (best : Item → Option ℕ) (rows : List (ℕ × ℕ)) : Prop where
  keys : (rows.map Prod.fst).Nodup
  mem : ∀ rowId score, (rowId, score) ∈ rows ↔
    ∃ row ∈ (rowsOf t g).items, row.rowId = rowId ∧ best row.item = some score

/-! Rows. -/

theorem mem_rows {row : ItemRow G} :
    row ∈ (rowsOf t g).items ↔ row ∈ t.items ∧ row.generationId = g := by
  simp [rowsOf]

omit [DecidableEq G] in
theorem rowIds_nodup (ht : Consistent u t) : (t.items.map (·.rowId)).Nodup :=
  List.pairwise_map.mpr (ht.rowIds.imp fun h => h.ne)

omit [DecidableEq G] in
theorem rowOf_eq (ht : Consistent u t) {rowId : ℕ} {row : ItemRow G} :
    rowOf t rowId = some row ↔ row ∈ t.items ∧ row.rowId = rowId := by
  constructor
  · intro h
    have hid := List.find?_some (p := fun row : ItemRow G => decide (row.rowId = rowId)) h
    exact ⟨List.mem_of_find?_eq_some h, of_decide_eq_true hid⟩
  · rintro ⟨hmem, rfl⟩
    cases hfound : rowOf t row.rowId with
    | none => exact absurd (decide_eq_true rfl) (List.find?_eq_none.mp hfound row hmem)
    | some other =>
      have hid := List.find?_some (p := fun other : ItemRow G => decide (other.rowId = row.rowId))
        hfound
      rw [ht.rowId_injective (List.mem_of_find?_eq_some hfound) hmem (of_decide_eq_true hid)]

theorem Scores.get (ht : Consistent u t) {best : Item → Option ℕ} {table : RowScores}
    (h : Scores t g best table) {row : ItemRow G} (hrow : row ∈ (rowsOf t g).items) :
    table[row.rowId]? = best row.item := by
  refine Option.ext fun score => ?_
  rw [h]
  constructor
  · rintro ⟨other, hother, hid, hbest⟩
    rwa [← ht.rowId_injective (mem_rows.mp hother).1 (mem_rows.mp hrow).1 hid]
  · intro hbest
    exact ⟨row, hrow, rfl, hbest⟩

theorem Scores.toList_eq (ht : Consistent u t) {best : Item → Option ℕ} {table : RowScores}
    (h : Scores t g best table) : table.toList =
      (rowsOf t g).items.filterMap fun row => (best row.item).map (row.rowId, ·) := by
  have hsorted : ((rowsOf t g).items.map (·.rowId)).Pairwise (· < ·) :=
    List.pairwise_map.mpr (ht.rowIds.filter _)
  have hkeys : ∀ rowId score, table[rowId]? = some score →
      rowId ∈ (rowsOf t g).items.map (·.rowId) := by
    intro rowId score hscore
    obtain ⟨row, hrow, rfl, _⟩ := (h rowId score).mp hscore
    exact List.mem_map_of_mem hrow
  rw [SortedTables.toList_eq_filterMap (fun _ _ => Nat.compare_eq_lt.mp) lt_irrefl
    (fun _ _ _ => lt_trans) hsorted hkeys, List.filterMap_map]
  refine List.filterMap_congr fun row hrow => ?_
  rw [Function.comp_apply, h.get ht hrow]

/-! One clause. -/

theorem scored_eq (ht : Consistent u t) {row : ItemRow G} (hrow : row ∈ t.items) (score : ℕ)
    (expression : Expression G) :
    ((scored t score expression).filter fun entry => entry.1 = row.rowId).map Prod.snd =
      if expression.holds (ftsRow u row) then [score] else [] := by
  have hscored : scored t score expression = (t.items.filter fun other =>
      expression.holds (ftsRow u other)).map fun other => (other.rowId, score) := by
    rw [scored, ht.fts, List.filter_map, List.map_map]
    rfl
  have hsame : t.items.filter (fun other => decide (other.rowId = row.rowId) &&
      expression.holds (ftsRow u other)) =
        [row].filter fun other => expression.holds (ftsRow u other) := by
    rw [← Groupings.filter_key (rowIds_nodup ht) hrow, List.filter_filter]
    exact List.filter_congr fun other _ => Bool.and_comm ..
  rw [hscored, List.filter_map, List.map_map, List.filter_filter]
  refine (congrArg (List.map _) hsame).trans ?_
  rw [List.filter_cons, List.filter_nil]
  split <;> rfl

theorem scored_row (ht : Consistent u t) {score : ℕ} {expression : Expression G} {entry : ℕ × ℕ}
    (h : entry ∈ scored t score expression) :
    ∃ row ∈ t.items, row.rowId = entry.1 ∧ expression.holds (ftsRow u row) = true := by
  obtain ⟨fts, hfts, rfl⟩ := List.mem_map.mp h
  obtain ⟨hmem, hholds⟩ := List.mem_filter.mp hfts
  rw [ht.fts] at hmem
  obtain ⟨row, hrow, rfl⟩ := List.mem_map.mp hmem
  exact ⟨row, hrow, rfl, hholds⟩

/-- The largest score of the expressions that hold, for expressions that name the generation. -/
theorem grouped_scores (ht : Consistent u t) {best : Item → Option ℕ}
    {clauses : List (ℕ × Expression G)}
    (hnamed : ∀ clause ∈ clauses, ∀ row : FtsRow G, clause.2.holds row = true → row.generation = g)
    (hbest : ∀ row ∈ (rowsOf t g).items, ((clauses.filter fun clause =>
      clause.2.holds (ftsRow u row)).map Prod.fst).max? = best row.item) :
    Scores t g best (grouped max (clauses.flatMap fun clause => scored t clause.1 clause.2)) := by
  have hget : ∀ row ∈ (rowsOf t g).items,
      (grouped max (clauses.flatMap fun clause => scored t clause.1 clause.2))[row.rowId]? =
        best row.item := by
    intro row hrow
    have hmax : ∀ values : List ℕ, reduce max values = values.max? := by
      intro values
      cases values <;> rfl
    rw [Groupings.grouped_get, hmax, ← hbest row hrow, List.filter_flatMap, List.map_flatMap]
    congr 1
    clear hnamed hbest
    induction clauses with
    | nil => rfl
    | cons clause clauses ih =>
      rw [List.flatMap_cons, ih, scored_eq ht (mem_rows.mp hrow).1]
      rw [List.filter_cons]
      split <;> rfl
  intro rowId score
  constructor
  · intro h
    have hne : (clauses.flatMap fun clause => scored t clause.1 clause.2).filter
        (fun entry => entry.1 = rowId) ≠ [] := by
      intro hnil
      rw [Groupings.grouped_get, hnil] at h
      cases h
    obtain ⟨entry, hentry⟩ := List.exists_mem_of_ne_nil _ hne
    obtain ⟨hmem, hid⟩ := List.mem_filter.mp hentry
    obtain ⟨clause, hclause, hscored⟩ := List.mem_flatMap.mp hmem
    obtain ⟨row, hrow, hrowId, hholds⟩ := scored_row ht hscored
    have hgeneration : row.generationId = g := hnamed clause hclause _ hholds
    have hrowOf : row ∈ (rowsOf t g).items := mem_rows.mpr ⟨hrow, hgeneration⟩
    have hsame : row.rowId = rowId := hrowId.trans (of_decide_eq_true hid)
    refine ⟨row, hrowOf, hsame, ?_⟩
    rw [← hget row hrowOf, hsame]
    exact h
  · rintro ⟨row, hrow, rfl, hscore⟩
    exact (hget row hrow).trans hscore

theorem termCte_scores (ht : Consistent u t) (term : Text) :
    Scores t g (fun item => termScore (fieldStreams u item) term) (termCte t g term) := by
  have hclauses : termCte t g term = grouped max ((weightedColumns.flatMap fun entry =>
      [(entry.2 * 2, matchWord g entry.1 (encodedToken term)),
        (entry.2, prefixWithoutExact g entry.1 (encodedToken term))]).flatMap fun clause =>
          scored t clause.1 clause.2) := by
    rw [List.flatMap_assoc]
    simp [termCte]
  rw [hclauses]
  refine grouped_scores ht ?_ ?_
  · intro clause hclause row hholds
    obtain ⟨entry, _, hentry⟩ := List.mem_flatMap.mp hclause
    simp only [List.mem_cons, List.not_mem_nil, or_false] at hentry
    rcases hentry with rfl | rfl
    · simp only [matchWord, Expression.holds, Bool.and_eq_true, decide_eq_true_eq] at hholds
      exact hholds.1
    · simp only [prefixWithoutExact, Expression.holds, Bool.and_eq_true, decide_eq_true_eq]
        at hholds
      exact hholds.1
  · intro row hrow
    have hword : ∀ column, (matchWord g column (encodedToken term)).holds (ftsRow u row) = true ↔
        ∃ stream ∈ columnStreams u row.item column, term ∈ stream := by
      intro column
      rw [← word_holds]
      simp [matchWord, Expression.holds, ftsRow, (mem_rows.mp hrow).2]
    have hbegins : ∀ column,
        (prefixWithoutExact g column (encodedToken term)).holds (ftsRow u row) = true ↔
          (∃ stream ∈ columnStreams u row.item column, ∃ token ∈ stream, term <+: token) ∧
            ¬∃ stream ∈ columnStreams u row.item column, term ∈ stream := by
      intro column
      rw [← word_holds, ← prefix_holds]
      simp [prefixWithoutExact, Expression.holds, ftsRow, (mem_rows.mp hrow).2]
    have hmem : ∀ score, score ∈ ((weightedColumns.flatMap fun entry =>
        [(entry.2 * 2, matchWord g entry.1 (encodedToken term)),
          (entry.2, prefixWithoutExact g entry.1 (encodedToken term))]).filter fun clause =>
            clause.2.holds (ftsRow u row)).map Prod.fst ↔
        ∃ column weight, (column, weight) ∈ weightedColumns ∧
          ((score = weight * 2 ∧ ∃ stream ∈ columnStreams u row.item column, term ∈ stream) ∨
            (score = weight ∧ (∃ stream ∈ columnStreams u row.item column, ∃ token ∈ stream,
              term <+: token) ∧ ¬∃ stream ∈ columnStreams u row.item column, term ∈ stream)) := by
      intro score
      rw [List.mem_map]
      constructor
      · rintro ⟨clause, hclause, rfl⟩
        obtain ⟨hin, hholds⟩ := List.mem_filter.mp hclause
        obtain ⟨⟨column, weight⟩, hcolumn, hentry⟩ := List.mem_flatMap.mp hin
        simp only [List.mem_cons, List.not_mem_nil, or_false] at hentry
        rcases hentry with rfl | rfl
        · exact ⟨column, weight, hcolumn, .inl ⟨rfl, (hword column).mp hholds⟩⟩
        · exact ⟨column, weight, hcolumn, .inr ⟨rfl, (hbegins column).mp hholds⟩⟩
      · rintro ⟨column, weight, hcolumn, ⟨rfl, h⟩ | ⟨rfl, h⟩⟩
        · refine ⟨(weight * 2, matchWord g column (encodedToken term)), ?_, rfl⟩
          refine List.mem_filter.mpr ⟨?_, (hword column).mpr h⟩
          exact List.mem_flatMap.mpr ⟨_, hcolumn, List.mem_cons_self ..⟩
        · refine ⟨(score, prefixWithoutExact g column (encodedToken term)), ?_, rfl⟩
          refine List.mem_filter.mpr ⟨?_, (hbegins column).mpr h⟩
          refine List.mem_flatMap.mpr ⟨_, hcolumn, ?_⟩
          exact List.mem_cons_of_mem _ (List.mem_cons_self ..)
    refine PreparedSearch.max?_eq_of_dominated (fun score hscore => ?_) fun score hscore => ?_
    · obtain ⟨column, weight, hcolumn, h⟩ := (hmem score).mp hscore
      rw [PreparedSearch.mem_termWeights]
      rcases h with ⟨rfl, stream, hstream, hterm⟩ |
        ⟨rfl, ⟨stream, hstream, token, htoken, hterm⟩, hno⟩
      · refine ⟨weight, stream, term, mem_fieldStreams.mpr ⟨column, hcolumn, hstream⟩, hterm,
          List.prefix_rfl, ?_⟩
        rw [if_pos rfl]
      · refine ⟨score, stream, token, mem_fieldStreams.mpr ⟨column, hcolumn, hstream⟩, htoken,
          hterm, ?_⟩
        have hne : token ≠ term := by
          rintro rfl
          exact hno ⟨stream, hstream, htoken⟩
        rw [if_neg hne, Nat.mul_one]
    · obtain ⟨weight, stream, token, hstream, htoken, hterm, rfl⟩ :=
        PreparedSearch.mem_termWeights.mp hscore
      obtain ⟨column, hcolumn, hstream⟩ := mem_fieldStreams.mp hstream
      by_cases hexact : ∃ stream ∈ columnStreams u row.item column, term ∈ stream
      · refine ⟨weight * 2, (hmem _).mpr ⟨column, weight, hcolumn, .inl ⟨rfl, hexact⟩⟩, ?_⟩
        refine Nat.mul_le_mul_left weight ?_
        split <;> decide
      · have hne : token ≠ term := by
          rintro rfl
          exact hexact ⟨stream, hstream, htoken⟩
        refine ⟨weight, (hmem _).mpr ⟨column, weight, hcolumn,
          .inr ⟨rfl, ⟨stream, hstream, token, htoken, hterm⟩, hexact⟩⟩, ?_⟩
        rw [if_neg hne, Nat.mul_one]

theorem phraseCte_scores (ht : Consistent u t) {phrase : List Text} (hne : phrase ≠ []) :
    Scores t g (fun item => phraseScore (fieldStreams u item) (pathStream u item) phrase)
      (phraseCte t g phrase) := by
  have hclauses : phraseCte t g phrase = grouped max ((weightedColumns.map fun entry =>
      (2 * phrase.length * entry.2, matchPhrase g entry.1 (phrase.map encodedToken))).flatMap
        fun clause => scored t clause.1 clause.2) := by
    rw [List.flatMap_map]
    rfl
  rw [hclauses]
  refine grouped_scores ht ?_ ?_
  · intro clause hclause row hholds
    obtain ⟨entry, _, rfl⟩ := List.mem_map.mp hclause
    simp only [matchPhrase, Expression.holds, Bool.and_eq_true, decide_eq_true_eq] at hholds
    exact hholds.1
  · intro row hrow
    have hphrase : ∀ column,
        (matchPhrase g column (phrase.map encodedToken)).holds (ftsRow u row) = true ↔
          ∃ stream ∈ columnStreams u row.item column, containsPhrase stream phrase = true := by
      intro column
      rw [← phrase_holds hne]
      simp [matchPhrase, Expression.holds, ftsRow, (mem_rows.mp hrow).2]
    have hmem : ∀ score, score ∈ ((weightedColumns.map fun entry =>
        (2 * phrase.length * entry.2, matchPhrase g entry.1 (phrase.map encodedToken))).filter
          fun clause => clause.2.holds (ftsRow u row)).map Prod.fst ↔
        ∃ weight ∈ PreparedSearch.phraseWeights (fieldStreams u row.item) phrase,
          2 * phrase.length * weight = score := by
      intro score
      have hweights : ∀ weight,
          weight ∈ PreparedSearch.phraseWeights (fieldStreams u row.item) phrase ↔
            ∃ column, (column, weight) ∈ weightedColumns ∧
              ∃ stream ∈ columnStreams u row.item column, containsPhrase stream phrase = true := by
        intro weight
        rw [PreparedSearch.phraseWeights, List.mem_map]
        constructor
        · rintro ⟨⟨_, stream⟩, hstream, rfl⟩
          obtain ⟨hin, hfound⟩ := List.mem_filter.mp hstream
          obtain ⟨column, hcolumn, hstream⟩ := mem_fieldStreams.mp hin
          exact ⟨column, hcolumn, stream, hstream, hfound⟩
        · rintro ⟨column, hcolumn, stream, hstream, hfound⟩
          exact ⟨(weight, stream), List.mem_filter.mpr
            ⟨mem_fieldStreams.mpr ⟨column, hcolumn, hstream⟩, hfound⟩, rfl⟩
      simp only [List.mem_map, List.mem_filter, hweights]
      constructor
      · rintro ⟨_, ⟨⟨⟨column, weight⟩, hcolumn, rfl⟩, hholds⟩, rfl⟩
        exact ⟨weight, ⟨column, hcolumn, (hphrase column).mp hholds⟩, rfl⟩
      · rintro ⟨weight, ⟨column, hcolumn, hfound⟩, rfl⟩
        exact ⟨_, ⟨⟨(column, weight), hcolumn, rfl⟩, (hphrase column).mpr hfound⟩, rfl⟩
    rw [PreparedSearch.phraseScore_eq hne]
    split
    · rename_i hnone
      rw [List.max?_eq_none_iff, List.eq_nil_iff_forall_not_mem]
      intro score hscore
      obtain ⟨weight, hweight, _⟩ := (hmem score).mp hscore
      rw [hnone] at hweight
      cases hweight
    · rename_i hsome
      obtain ⟨best, hbest⟩ := Option.isSome_iff_exists.mp (List.isSome_max?_of_ne_nil hsome)
      obtain ⟨hin, hle⟩ := List.max?_eq_some_iff.mp hbest
      rw [hbest, Option.getD_some, List.max?_eq_some_iff]
      refine ⟨(hmem _).mpr ⟨best, hin, rfl⟩, fun score hscore => ?_⟩
      obtain ⟨weight, hweight, rfl⟩ := (hmem score).mp hscore
      exact Nat.mul_le_mul_left _ (hle weight hweight)

/-! All clauses. -/

/-- The sum of the scores of some clauses, where each has one. -/
def total (bests : List (Item → Option ℕ)) (item : Item) : Option ℕ :=
  Option.map List.sum (bests.mapM fun best => best item)

theorem lookups_eq (ht : Consistent u t) {bests : List (Item → Option ℕ)} {tables : List RowScores}
    (h : List.Forall₂ (Scores t g) bests tables) {row : ItemRow G}
    (hrow : row ∈ (rowsOf t g).items) :
    (tables.mapM fun table => table[row.rowId]?) = bests.mapM fun best => best row.item := by
  induction h with
  | nil => rfl
  | cons hfirst _ ih => rw [List.mapM_cons, List.mapM_cons, ih, hfirst.get ht hrow]

theorem found_row {best : Item → Option ℕ} {table : RowScores} (h : Scores t g best table)
    {rowId score : ℕ} (hscore : table[rowId]? = some score) :
    ∃ row ∈ (rowsOf t g).items, row.rowId = rowId := by
  obtain ⟨row, hrow, hid, _⟩ := (h rowId score).mp hscore
  exact ⟨row, hrow, hid⟩

theorem filterMap_keys {V W : Type} {f : ℕ × V → Option (ℕ × W)} {rows : List (ℕ × V)}
    (hrows : (rows.map Prod.fst).Nodup) (hf : ∀ a b, f a = some b → b.1 = a.1) :
    ((rows.filterMap f).map Prod.fst).Nodup := by
  refine List.pairwise_map.mpr (List.Pairwise.filterMap f ?_ (List.pairwise_map.mp hrows))
  intro a b hne c hc d hd
  rw [hf a c hc, hf b d hd]
  exact hne

theorem joinScores_picks (ht : Consistent u t) {bests : List (Item → Option ℕ)}
    {tables : List RowScores} (h : List.Forall₂ (Scores t g) bests tables) (hne : tables ≠ []) :
    Picks t g (total bests) (joinScores tables) := by
  cases h with
  | nil => exact absurd rfl hne
  | @cons best table bests tables hfirst hrest =>
    have hentry : ∀ rowId score, (rowId, score) ∈ joinScores (table :: tables) ↔
        ∃ first, table[rowId]? = some first ∧
          (tables.mapM fun table => table[rowId]?).map (fun more => first + more.sum) =
            some score := by
      intro rowId score
      simp only [joinScores, List.mem_filterMap, Option.map_eq_some_iff]
      constructor
      · rintro ⟨⟨_, first⟩, hmem, more, hmore, heq⟩
        cases heq
        exact ⟨first, Std.ExtTreeMap.mem_toList_iff_getElem?_eq_some.mp hmem, more, hmore, rfl⟩
      · rintro ⟨first, hget, more, hmore, rfl⟩
        exact ⟨(rowId, first), Std.ExtTreeMap.mem_toList_iff_getElem?_eq_some.mpr hget, more,
          hmore, rfl⟩
    have htotal : ∀ row ∈ (rowsOf t g).items, total (best :: bests) row.item =
        (table[row.rowId]?).bind fun first =>
          (tables.mapM fun table => table[row.rowId]?).map fun more => first + more.sum := by
      intro row hrow
      rw [total, List.mapM_cons, hfirst.get ht hrow, lookups_eq ht hrest hrow]
      cases best row.item with
      | none => rfl
      | some first => cases bests.mapM fun best => best row.item <;> rfl
    constructor
    · refine filterMap_keys (Groupings.keys_nodup table) ?_
      intro entry result hresult
      obtain ⟨_, _, rfl⟩ := Option.map_eq_some_iff.mp hresult
      rfl
    · intro rowId score
      rw [hentry]
      constructor
      · rintro ⟨first, hget, hscore⟩
        obtain ⟨row, hrow, rfl⟩ := found_row hfirst hget
        refine ⟨row, hrow, rfl, ?_⟩
        rw [htotal row hrow, hget]
        exact hscore
      · rintro ⟨row, hrow, rfl, hscore⟩
        rw [htotal row hrow] at hscore
        exact Option.bind_eq_some_iff.mp hscore

theorem combineScores_picks (ht : Consistent u t) {bests : List (Item → Option ℕ)}
    {tables : List RowScores} (h : List.Forall₂ (Scores t g) bests tables) (hne : tables ≠ []) :
    Picks t g (total bests) (combineScores tables) := by
  have hvalues : ∀ rowId, ((tables.flatMap fun scores => scores.toList.map fun entry =>
      (entry.1, (entry.2, 1))).filter fun entry => entry.1 = rowId).map Prod.snd =
        (tables.filterMap fun table => table[rowId]?).map (·, 1) := by
    intro rowId
    rw [List.filter_flatMap, List.map_flatMap, List.map_filterMap, List.filterMap_eq_flatMap_toList]
    refine List.flatMap_congr fun table _ => ?_
    rw [List.filter_map, List.map_map]
    have hkey := Groupings.toList_filter_key table rowId
    refine (congrArg (List.map _) hkey).trans ?_
    cases table[rowId]? <;> rfl
  have hentry : ∀ rowId score, (rowId, score) ∈ combineScores tables ↔
      ∃ scores, (tables.mapM fun table => table[rowId]?) = some scores ∧ scores.sum = score := by
    intro rowId score
    simp only [combineScores, List.mem_filterMap]
    constructor
    · rintro ⟨⟨_, sum, count⟩, hmem, hsome⟩
      have hget := Std.ExtTreeMap.mem_toList_iff_getElem?_eq_some.mp hmem
      dsimp only at hsome
      split at hsome
      · rename_i hcount
        cases hsome
        rw [Groupings.grouped_get, hvalues] at hget
        have hfound : (tables.filterMap fun table => table[rowId]?) ≠ [] := by
          intro hnil
          rw [hnil] at hget
          cases hget
        rw [Groupings.reduce_add _ hfound, Option.some.injEq, Prod.mk.injEq] at hget
        exact ⟨_, Groupings.mapM_eq_some_iff.mpr ⟨rfl, hget.2.trans hcount⟩, hget.1⟩
      · cases hsome
    · rintro ⟨scores, hscores, rfl⟩
      obtain ⟨rfl, hcount⟩ := Groupings.mapM_eq_some_iff.mp hscores
      have hfound : (tables.filterMap fun table => table[rowId]?) ≠ [] := by
        intro hnil
        rw [hnil] at hcount
        exact hne (List.length_eq_zero_iff.mp hcount.symm)
      refine ⟨(rowId, (tables.filterMap fun table => table[rowId]?).sum, tables.length),
        Std.ExtTreeMap.mem_toList_iff_getElem?_eq_some.mpr ?_, ?_⟩
      · rw [Groupings.grouped_get, hvalues, Groupings.reduce_add _ hfound, hcount]
      · exact if_pos rfl
  constructor
  · refine filterMap_keys (Groupings.keys_nodup _) ?_
    intro entry result hresult
    obtain ⟨rowId, score, count⟩ := entry
    dsimp only at hresult
    split at hresult
    · cases hresult
      rfl
    · cases hresult
  · intro rowId score
    rw [hentry]
    constructor
    · rintro ⟨scores, hscores, hsum⟩
      obtain ⟨row, hrow, rfl⟩ : ∃ row ∈ (rowsOf t g).items, row.rowId = rowId := by
        cases h with
        | nil => exact absurd rfl hne
        | @cons best table bests tables hfirst hrest =>
          rw [List.mapM_cons] at hscores
          obtain ⟨first, hget, _⟩ := Option.bind_eq_some_iff.mp hscores
          exact found_row hfirst hget
      refine ⟨row, hrow, rfl, ?_⟩
      rw [total, ← lookups_eq ht h hrow, hscores, Option.map_some, hsum]
    · rintro ⟨row, hrow, rfl, hscore⟩
      rw [total, ← lookups_eq ht h hrow] at hscore
      exact Option.map_eq_some_iff.mp hscore

/-! Candidates. -/

def clauseBests (u : Library) (query : Query) : List (Item → Option ℕ) :=
  (query.terms.map fun term item => termScore (fieldStreams u item) term) ++
    query.phrases.map fun phrase item =>
      phraseScore (fieldStreams u item) (pathStream u item) phrase

theorem total_clauses (query : Query) (item : Item) :
    total (clauseBests u query) item = matchesAndScore u query item := by
  rw [total, clauseBests, List.mapM_append, matchesAndScore]
  have hmap : ∀ {α : Type} (f : α → Item → Option ℕ) (l : List α),
      (l.map f).mapM (fun best => best item) = l.mapM fun a => f a item := by
    intro α f l
    induction l with
    | nil => rfl
    | cons a l ih => rw [List.map_cons, List.mapM_cons, List.mapM_cons, ih]
  rw [hmap, hmap]
  cases query.terms.mapM fun term => termScore (fieldStreams u item) term with
  | none => rfl
  | some terms =>
    cases query.phrases.mapM fun phrase =>
        phraseScore (fieldStreams u item) (pathStream u item) phrase with
    | none => rfl
    | some phrases => exact congrArg some List.sum_append

theorem clauses_scores (ht : Consistent u t) {query : Query}
    (hphrases : ∀ phrase ∈ query.phrases, phrase ≠ []) :
    List.Forall₂ (Scores t g) (clauseBests u query)
      (query.terms.map (termCte t g) ++ query.phrases.map (phraseCte t g)) := by
  refine List.rel_append ?_ ?_
  · rw [List.forall₂_map_left_iff, List.forall₂_map_right_iff, List.forall₂_same]
    exact fun term _ => termCte_scores ht term
  · rw [List.forall₂_map_left_iff, List.forall₂_map_right_iff, List.forall₂_same]
    exact fun phrase hphrase => phraseCte_scores ht (hphrases phrase hphrase)

/-- The rows under a chain are those whose markers start with it. -/
theorem inChain_iff (ht : Consistent u t) {row : ItemRow G} (hrow : row ∈ (rowsOf t g).items)
    (selected : List Text) :
    inChain t g selected row.rowId = true ↔ selected <+: chainOf row.item := by
  have hmarker : ∀ markerId depth, (t.itemMarkers.any fun known => known.generationId = g ∧
      known.depth = depth ∧ known.markerId = markerId ∧ known.rowId = row.rowId) = true ↔
        (chainOf row.item)[depth]? = some markerId := by
    intro markerId depth
    rw [ht.itemMarkers, List.any_eq_true]
    constructor
    · rintro ⟨known, hknown, hmatch⟩
      obtain ⟨_, rfl, rfl, hid⟩ := of_decide_eq_true hmatch
      obtain ⟨other, hother, hin⟩ := List.mem_flatMap.mp hknown
      rw [(itemMarkerRows_generation known hin).2] at hid
      rw [ht.rowId_injective hother (mem_rows.mp hrow).1 hid] at hin
      obtain ⟨⟨marker, depth⟩, hmarker, rfl⟩ := List.mem_map.mp hin
      rw [chainOf, List.getElem?_map, List.mem_zipIdx_iff_getElem?.mp hmarker]
      rfl
    · intro hget
      rw [chainOf, List.getElem?_map, Option.map_eq_some_iff] at hget
      obtain ⟨marker, hmarker, rfl⟩ := hget
      refine ⟨⟨g, row.rowId, depth, marker.markerId⟩, ?_, by simp⟩
      refine List.mem_flatMap.mpr ⟨row, (mem_rows.mp hrow).1, ?_⟩
      rw [(mem_rows.mp hrow).2]
      exact List.mem_map.mpr ⟨(marker, depth), List.mem_zipIdx_iff_getElem?.mpr hmarker, rfl⟩
  unfold inChain
  rw [List.all_eq_true, List.prefix_iff_getElem?]
  constructor
  · intro h i hi
    have hmem : (selected[i], i) ∈ selected.zipIdx := by
      rw [List.mem_zipIdx_iff_getElem?]
      exact List.getElem?_eq_getElem hi
    exact (hmarker _ _).mp (h _ hmem)
  · rintro h ⟨markerId, depth⟩ hmem
    have hget : selected[depth]? = some markerId := List.mem_zipIdx_iff_getElem?.mp hmem
    obtain ⟨hi, rfl⟩ := List.getElem?_eq_some_iff.mp hget
    exact (hmarker _ _).mpr (h depth hi)

def chosen (u : Library) (query : Query) (selected : List Text) (item : Item) : Option ℕ :=
  if selected <+: chainOf item then matchesAndScore u query item else none

theorem kept_iff (ht : Consistent u t) (selected : List Text) {rowId : ℕ} :
    ((rowOf t rowId).any fun row => row.generationId = g ∧ inChain t g selected rowId) = true ↔
      ∃ row ∈ (rowsOf t g).items, row.rowId = rowId ∧ selected <+: chainOf row.item := by
  rw [Option.any_eq_true]
  constructor
  · rintro ⟨row, hrow, hkept⟩
    obtain ⟨hmem, rfl⟩ := (rowOf_eq ht).mp hrow
    obtain ⟨hg, hchain⟩ := of_decide_eq_true hkept
    have hin : row ∈ (rowsOf t g).items := mem_rows.mpr ⟨hmem, hg⟩
    exact ⟨row, hin, rfl, (inChain_iff ht hin selected).mp hchain⟩
  · rintro ⟨row, hin, rfl, hchain⟩
    obtain ⟨hmem, hg⟩ := mem_rows.mp hin
    exact ⟨row, (rowOf_eq ht).mpr ⟨hmem, rfl⟩,
      decide_eq_true ⟨hg, (inChain_iff ht hin selected).mpr hchain⟩⟩

/-- Every plan scores the rows of the generation as the evaluator does. -/
theorem candidates_source (ht : Consistent u t) {query : Query}
    (hphrases : ∀ phrase ∈ query.phrases, phrase ≠ []) (selected : List Text) :
    ∃ source : List (ℕ × ℕ), candidates t g query selected = source.filter (fun entry =>
        (rowOf t entry.1).any fun row => row.generationId = g ∧ inChain t g selected entry.1) ∧
      (source.map Prod.fst).Nodup ∧ ∀ row ∈ (rowsOf t g).items, ∀ score,
        (row.rowId, score) ∈ source ↔ matchesAndScore u query row.item = some score := by
  have hclauses := clauses_scores (g := g) ht hphrases
  set clauses := query.terms.map (termCte t g) ++ query.phrases.map (phraseCte t g) with hset
  have hpicked : ∀ source, Picks t g (total (clauseBests u query)) source →
      (source.map Prod.fst).Nodup ∧ ∀ row ∈ (rowsOf t g).items, ∀ score,
        (row.rowId, score) ∈ source ↔ matchesAndScore u query row.item = some score := by
    intro source hpicks
    refine ⟨hpicks.keys, fun row hrow score => ?_⟩
    rw [hpicks.mem, ← total_clauses]
    constructor
    · rintro ⟨other, hother, hid, hscore⟩
      rwa [← ht.rowId_injective (mem_rows.mp hother).1 (mem_rows.mp hrow).1 hid]
    · intro hscore
      exact ⟨row, hrow, rfl, hscore⟩
  by_cases hnone : clauses = []
  · refine ⟨t.items.map fun row => (row.rowId, 0), ?_, ?_, ?_⟩
    · simp only [candidates, ← hset, hnone, if_true]
    · rw [List.map_map]
      exact rowIds_nodup ht
    · intro row hrow score
      have hscore : matchesAndScore u query row.item = some 0 := by
        rw [hnone, List.forall₂_nil_right_iff] at hclauses
        rw [← total_clauses, hclauses]
        rfl
      rw [hscore, List.mem_map, Option.some.injEq]
      constructor
      · rintro ⟨_, _, heq⟩
        exact congrArg Prod.snd heq
      · rintro rfl
        exact ⟨row, (mem_rows.mp hrow).1, rfl⟩
  · by_cases hlimit : clauses.length ≤ joinedClauseLimit
    · refine ⟨joinScores clauses, ?_, hpicked _ (joinScores_picks ht hclauses hnone)⟩
      simp only [candidates, ← hset, if_neg hnone, if_pos hlimit]
    · refine ⟨combineScores clauses, ?_, hpicked _ (combineScores_picks ht hclauses hnone)⟩
      simp only [candidates, ← hset, if_neg hnone, if_neg hlimit]

theorem candidates_picks (ht : Consistent u t) {query : Query}
    (hphrases : ∀ phrase ∈ query.phrases, phrase ≠ []) (selected : List Text) :
    Picks t g (chosen u query selected) (candidates t g query selected) := by
  obtain ⟨source, hsource, hkeys, hscores⟩ := candidates_source (g := g) ht hphrases selected
  rw [hsource]
  refine ⟨hkeys.sublist (List.filter_sublist.map Prod.fst), fun rowId score => ?_⟩
  rw [List.mem_filter, kept_iff ht]
  constructor
  · rintro ⟨hmem, row, hrow, rfl, hchain⟩
    refine ⟨row, hrow, rfl, ?_⟩
    rw [chosen, if_pos hchain]
    exact (hscores row hrow score).mp hmem
  · rintro ⟨row, hrow, rfl, hchosen⟩
    unfold chosen at hchosen
    split at hchosen
    · rename_i hchain
      exact ⟨(hscores row hrow score).mpr hchosen, row, hrow, rfl, hchain⟩
    · cases hchosen

theorem materialized_scores (ht : Consistent u t) {query : Query}
    (hphrases : ∀ phrase ∈ query.phrases, phrase ≠ []) {selected : List Text}
    (hprepares : prepares query selected = true) :
    ∃ table, materialized t g query selected = .ok table ∧
      Scores t g (chosen u query selected) table := by
  have hpicks := candidates_picks (g := g) ht hphrases selected
  refine ⟨_, if_pos hprepares, fun rowId score => ?_⟩
  rw [← hpicks.mem]
  exact Groupings.inserted_get _ hpicks.keys rowId score

end CandidateRows
