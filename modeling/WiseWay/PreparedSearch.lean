import Mathlib.Data.List.Perm.Basic
import WiseWay.SearchContract
import WiseWay.SearchIndex
import WiseWay.SortedTables

/-! # Prepared postings answer like the evaluator

What the constructor files under a chain, a token or a position is said first. Each loop of a
match then keeps, for every position, the score that the evaluator has given so far. -/
namespace PreparedSearch

open Records SearchText Search SearchContract SearchIndex SortedTables

variable {u : Library}

/-! The constructor. -/

/-- The constructor on the first items of a corpus. -/
def built (u : Library) (all items : List Item) : Prepared :=
  items.zipIdx.foldl (addItem u) ⟨all, ∅, ∅, ∅, []⟩

theorem built_append (all items : List Item) (item : Item) :
    built u all (items ++ [item]) = addItem u (built u all items) (item, items.length) := by
  simp [built, List.zipIdx_append]

/-- The positions of the items whose chain starts with `chain`. -/
def chained (items : List Item) (chain : List Text) : List ℕ :=
  (items.zipIdx.filter fun entry => chain <+: chainOf entry.1).map Prod.snd

theorem get_chain {V : Type} (m : Chains V) (k j : List Text) (v : V) :
    (m.insert k v)[j]? = if k = j then some v else m[j]? := by
  simp [Std.ExtTreeMap.getElem?_insert]

theorem addPosition_get (chains : Chains (List ℕ)) (chain c : List Text) (position : ℕ) :
    ((addPosition chains chain position)[c]?).getD [] =
      (chains[c]?).getD [] ++ if chain = c then [position] else [] := by
  rw [addPosition, get_chain]
  by_cases h : chain = c
  · simp [h]
  · simp [h]

/-- `c` extends a chain by some of the identifiers that follow it. -/
def Extends (chain ids c : List Text) : Prop := chain <+: c ∧ c <+: chain ++ ids

instance (chain ids c : List Text) : Decidable (Extends chain ids c) :=
  inferInstanceAs (Decidable (_ ∧ _))

theorem extends_cons {chain ids c : List Text} {id : Text} (hne : chain ≠ c) :
    Extends chain (id :: ids) c ↔ Extends (chain ++ [id]) ids c := by
  unfold Extends
  rw [List.append_assoc, List.singleton_append]
  refine and_congr_left fun hc => ⟨fun ⟨d, hd⟩ => ?_, fun h => (List.prefix_append ..).trans h⟩
  subst hd
  cases d with
  | nil => simp at hne
  | cons x d =>
    rw [List.prefix_append_right_inj, List.cons_prefix_cons] at hc
    rw [hc.1, List.prefix_append_right_inj]
    exact List.cons_prefix_cons.mpr ⟨rfl, List.nil_prefix⟩

theorem extends_self (chain ids : List Text) : Extends chain ids chain :=
  ⟨List.prefix_rfl, List.prefix_append ..⟩

theorem not_extends {chain ids : List Text} {id : Text} : ¬Extends (chain ++ [id]) ids chain :=
  fun h => by
    have := h.1.length_le
    rw [List.length_append, List.length_singleton] at this
    omega

theorem addMarkers_chains (position : ℕ) : ∀ (markers : List Marker) (chain : List Text)
    (found : Chains (List ℕ) × Chains Groups) (c : List Text),
    (((addMarkers position chain markers found).1[c]?).getD [] = (found.1[c]?).getD [] ++
      if chain ≠ c ∧ Extends chain (markers.map (·.markerId)) c then [position] else [])
  | [], chain, found, c => by
    have hnot : ¬(chain ≠ c ∧ Extends chain [] c) := by
      rintro ⟨hne, hc, hc'⟩
      rw [List.append_nil] at hc'
      exact hne (hc.eq_of_length (Nat.le_antisymm hc.length_le hc'.length_le))
    rw [List.map_nil, if_neg hnot, List.append_nil]
    rfl
  | marker :: markers, chain, (chains, facets), c => by
    rw [addMarkers, addMarkers_chains, addPosition_get, List.append_assoc]
    congr 1
    by_cases hself : chain = c
    · subst hself
      simp [not_extends]
    · by_cases hnext : chain ++ [marker.markerId] = c
      · subst hnext
        have := (extends_cons hself).mpr (extends_self (chain ++ [marker.markerId])
          (markers.map (·.markerId)))
        simp [this]
      · rw [if_neg hnext, List.nil_append, List.map_cons]
        simp only [ne_eq, hself, hnext, not_false_eq_true, true_and, extends_cons hself]

/-- The marker with which an item continues a chain. -/
def nextMarker (chain : List Text) (markers : List Marker) (c : List Text) : Option Marker :=
  if Extends chain (markers.map (·.markerId)) c then markers[c.length - chain.length]? else none

theorem addMarkers_facets (position : ℕ) : ∀ (markers : List Marker) (chain : List Text)
    (found : Chains (List ℕ) × Chains Groups) (c : List Text),
    ((addMarkers position chain markers found).2[c]?).getD [] =
      (nextMarker chain markers c).elim ((found.2[c]?).getD []) (tally ((found.2[c]?).getD []))
  | [], chain, found, c => by
    have hnone : nextMarker chain [] c = none := by
      unfold nextMarker
      split <;> rfl
    rw [hnone]
    rfl
  | marker :: markers, chain, (chains, facets), c => by
    rw [addMarkers, addMarkers_facets]
    by_cases hself : chain = c
    · subst hself
      have hnone : nextMarker (chain ++ [marker.markerId]) markers chain = none :=
        if_neg not_extends
      have hsome : nextMarker chain (marker :: markers) chain = some marker := by
        simp [nextMarker, extends_self]
      rw [hnone, hsome]
      simp
    · have hnext : nextMarker chain (marker :: markers) c =
          nextMarker (chain ++ [marker.markerId]) markers c := by
        unfold nextMarker
        rw [List.map_cons]
        simp only [extends_cons hself]
        split
        · rename_i h
          have hlength := h.1.length_le
          rw [List.length_append, List.length_singleton] at hlength ⊢
          rw [show c.length - chain.length = c.length - (chain.length + 1) + 1 by omega]
          rfl
        · rfl
      simp only [hnext, get_chain, if_neg hself]

theorem nextMarker_nil (markers : List Marker) (c : List Text) :
    nextMarker [] markers c =
      if c <+: markers.map (·.markerId) then markers[c.length]? else none := by
  simp [nextMarker, Extends]

theorem chained_append (items : List Item) (item : Item) (c : List Text) :
    chained (items ++ [item]) c =
      chained items c ++ if c <+: chainOf item then [items.length] else [] := by
  simp only [chained, List.zipIdx_append, List.filter_append, List.map_append]
  congr 1
  simp only [List.zipIdx_singleton, Nat.zero_add, List.filter_cons, List.filter_nil]
  split <;> simp_all

theorem built_chains (all items : List Item) (c : List Text) :
    (((built u all items).chains[c]?).getD []) = chained items c := by
  induction items using List.reverseRecOn with
  | nil => simp [built, chained]
  | append_singleton items item ih =>
    rw [built_append, addItem]
    simp only [addMarkers_chains, addPosition_get, ih, chained_append, List.append_assoc]
    congr 1
    by_cases hc : [] = c
    · subst hc
      simp
    · rw [if_neg hc, List.nil_append]
      refine if_congr ?_ rfl rfl
      simp [hc, Extends, chainOf]

theorem built_facets (all items : List Item) (c : List Text) :
    (((built u all items).facets[c]?).getD []) =
      groupsAt (items.filter fun item => c <+: chainOf item) c.length := by
  induction items using List.reverseRecOn with
  | nil => simp [built, groupsAt]
  | append_singleton items item ih =>
    rw [built_append, addItem]
    simp only [addMarkers_facets, ih, nextMarker_nil]
    by_cases hc : c <+: chainOf item
    · rw [if_pos (show c <+: item.markers.map (·.markerId) from hc)]
      simp only [groupsAt, List.filter_append, List.filterMap_append, List.foldl_append,
        List.filter_cons, hc, decide_true, if_true, List.filter_nil]
      cases hm : item.markers[c.length]? with
      | none => simp [hm]
      | some marker => simp [hm]
    · rw [if_neg (show ¬c <+: item.markers.map (·.markerId) from hc)]
      simp [groupsAt, hc]

theorem built_fields (all items : List Item) :
    (built u all items).fields = items.map (fieldStreams u) := by
  induction items using List.reverseRecOn with
  | nil => rfl
  | append_singleton items item ih =>
    rw [built_append, addItem, List.map_append]
    simp only [ih]
    rfl

/-! Postings. -/

/-- The weights of the fields in which a token stands, once for each time. -/
def tokenWeights (streams : List (ℕ × List Text)) (token : Text) : List ℕ :=
  streams.flatMap fun stream => (stream.2.filter (· = token)).map fun _ => stream.1

/-- What an entry of a posting list is after another weight. -/
def bump (known : Option ℕ) (weight : ℕ) : Option ℕ := some (max weight (known.getD 0))

theorem foldl_bump_some (l : List ℕ) : ∀ m : ℕ, l.foldl bump (some m) = some (l.foldl max m) := by
  induction l with
  | nil => exact fun _ => rfl
  | cons a l ih =>
    intro m
    rw [List.foldl_cons, List.foldl_cons, bump, Option.getD_some, ih, max_comm]

theorem foldl_bump (l : List ℕ) : l.foldl bump none = l.max? := by
  cases l with
  | nil => rfl
  | cons a l =>
    rw [List.foldl_cons, bump, Option.getD_none, Nat.max_zero, foldl_bump_some]
    rfl

def weightAt (postings : Table Scores) (token : Text) (position : ℕ) : Option ℕ :=
  ((postings[token]?).getD ∅)[position]?

theorem weightAt_addToken (position weight : ℕ) (postings : Table Scores) (token t : Text)
    (p : ℕ) : weightAt (addToken position weight postings token) t p =
      if token = t ∧ position = p then bump (weightAt postings t p) weight
      else weightAt postings t p := by
  unfold weightAt addToken
  by_cases ht : token = t
  · subst ht
    by_cases hp : position = p
    · subst hp
      simp [bump]
    · simp [hp, Std.ExtTreeMap.getElem?_insert]
  · simp [ht]

theorem weightAt_addTokens (position weight : ℕ) (t : Text) (p : ℕ) :
    ∀ (tokens : List Text) (postings : Table Scores),
      weightAt (tokens.foldl (addToken position weight) postings) t p =
        if position = p then ((tokens.filter (· = t)).map fun _ => weight).foldl bump
          (weightAt postings t p)
        else weightAt postings t p
  | [], postings => by simp
  | token :: tokens, postings => by
    rw [List.foldl_cons, weightAt_addTokens, weightAt_addToken]
    by_cases hp : position = p
    · by_cases ht : token = t
      · simp [hp, ht]
      · simp [hp, ht]
    · simp [hp]

theorem weightAt_addFields (position : ℕ) (t : Text) (p : ℕ) :
    ∀ (fields : List (ℕ × List Text)) (postings : Table Scores),
      weightAt (addFields position fields postings) t p =
        if position = p then (tokenWeights fields t).foldl bump (weightAt postings t p)
        else weightAt postings t p
  | [], postings => by simp [addFields, tokenWeights]
  | stream :: fields, postings => by
    have hcons : addFields position (stream :: fields) postings =
        addFields position fields (stream.2.foldl (addToken position stream.1) postings) := rfl
    rw [hcons, weightAt_addFields, weightAt_addTokens]
    by_cases hp : position = p
    · simp [hp, tokenWeights, List.foldl_append]
    · simp [hp]

theorem built_weightAt (all items : List Item) (t : Text) (p : ℕ) :
    weightAt (built u all items).postings t p =
      (items[p]?).bind fun item => (tokenWeights (fieldStreams u item) t).max? := by
  induction items using List.reverseRecOn with
  | nil => simp [built, weightAt]
  | append_singleton items item ih =>
    rw [built_append, addItem]
    simp only [weightAt_addFields, ih]
    by_cases hp : items.length = p
    · subst hp
      simp [foldl_bump]
    · rw [if_neg hp]
      by_cases hlt : p < items.length
      · rw [List.getElem?_append_left hlt]
      · rw [List.getElem?_eq_none (by omega), List.getElem?_eq_none (by simp; omega)]

/-! Positions of a chain. -/

theorem zipIdx_mem {items : List Item} {entry : Item × ℕ} (h : entry ∈ items.zipIdx) :
    items[entry.2]? = some entry.1 := List.mem_zipIdx_iff_getElem?.mp h

theorem chained_sorted (items : List Item) (c : List Text) :
    (chained items c).Pairwise (· < ·) := by
  have hall : (items.zipIdx.map Prod.snd).Pairwise (· < ·) := by
    rw [List.zipIdx_map_snd]
    exact List.pairwise_lt_range'
  exact hall.sublist (List.filter_sublist.map Prod.snd)

theorem mem_chained {items : List Item} {c : List Text} {p : ℕ} :
    p ∈ chained items c ↔ ∃ item, items[p]? = some item ∧ c <+: chainOf item := by
  simp only [chained, List.mem_map, List.mem_filter, decide_eq_true_eq]
  constructor
  · rintro ⟨entry, ⟨hentry, hc⟩, rfl⟩
    exact ⟨entry.1, zipIdx_mem hentry, hc⟩
  · rintro ⟨item, hitem, hc⟩
    exact ⟨(item, p), ⟨List.mem_zipIdx_iff_getElem?.mpr hitem, hc⟩, rfl⟩

theorem itemsAt_chained (items : List Item) (c : List Text) :
    (chained items c).filterMap (items[·]?) = items.filter fun item => c <+: chainOf item := by
  have hfound : ∀ entry ∈ items.zipIdx.filter (fun entry => c <+: chainOf entry.1),
      ((items[·]?) ∘ Prod.snd) entry = some entry.1 := fun entry hentry =>
    zipIdx_mem (List.mem_filter.mp hentry).1
  rw [chained, List.filterMap_map, List.filterMap_congr hfound, List.filterMap_eq_map']
  conv_rhs => rw [← List.zipIdx_map_fst 0 items, List.filter_map]
  rfl

/-! Scores at a position. -/

def scoreAt (admits : ℕ → Bool) (scores : Option Scores) (p : ℕ) : Option ℕ :=
  match scores with
  | some scores => scores[p]?
  | none => if admits p then some 0 else none

/-- The same, where a loop may have returned. -/
def scoreOf (admits : ℕ → Bool) (scores : Option (Option Scores)) (p : ℕ) : Option ℕ :=
  scores.bind fun scores => scoreAt admits scores p

def addScore {α : Type} (best : α → Option ℕ) (score : Option ℕ) (a : α) : Option ℕ :=
  score.bind fun s => (best a).map (s + ·)

variable {admits : ℕ → Bool} {scores : Option Scores}

theorem open_eq (p : ℕ) : Prepared.open_ admits scores p = (scoreAt admits scores p).isSome := by
  unfold Prepared.open_ scoreAt
  cases scores with
  | some scores => rfl
  | none => by_cases h : admits p = true <;> simp [h]

theorem scoreSoFar_eq (admits : ℕ → Bool) (p : ℕ) :
    Prepared.scoreSoFar scores p = (scoreAt admits scores p).getD 0 := by
  unfold Prepared.scoreSoFar scoreAt
  cases scores with
  | some scores => rfl
  | none => by_cases h : admits p = true <;> simp [h]

theorem candidates_nodup (postings : Scores) : (Prepared.candidates scores postings).Nodup := by
  unfold Prepared.candidates
  split
  · split <;> exact Std.ExtTreeMap.nodup_keys
  · exact Std.ExtTreeMap.nodup_keys

theorem not_candidate (admits : ℕ → Bool) {postings : Scores} {p : ℕ}
    (h : p ∉ Prepared.candidates scores postings) :
    postings[p]? = none ∨ Prepared.open_ admits scores p = false := by
  unfold Prepared.candidates at h
  split at h
  · rename_i scores
    split at h
    · rw [Std.ExtTreeMap.mem_keys] at h
      exact .inr (by simp [Prepared.open_, Std.ExtTreeMap.getElem?_eq_none h])
    · rw [Std.ExtTreeMap.mem_keys] at h
      exact .inl (Std.ExtTreeMap.getElem?_eq_none h)
  · rw [Std.ExtTreeMap.mem_keys] at h
    exact .inl (Std.ExtTreeMap.getElem?_eq_none h)

/-- What one posting list does to the match of a position. -/
def bumpMatch (admits : ℕ → Bool) (scores : Option Scores) (entry : ℕ × Scores) (p : ℕ)
    (known : Option ℕ) : Option ℕ :=
  match entry.2[p]? with
  | some weight =>
    if Prepared.open_ admits scores p then bump known (weight * entry.1) else known
  | none => known

theorem matchPostings_get (matched : Scores) (entry : ℕ × Scores) (p : ℕ) :
    (Prepared.matchPostings admits scores matched entry)[p]? =
      bumpMatch admits scores entry p matched[p]? := by
  unfold Prepared.matchPostings
  rw [foldl_keyed (g := bumpMatch admits scores entry) (fun m k p => ?_) (candidates_nodup _)]
  · split
    · rfl
    · rename_i hp
      unfold bumpMatch
      rcases not_candidate admits hp with hnone | hclosed
      · rw [hnone]
      · rw [hclosed]
        split <;> rfl
  · unfold bumpMatch
    by_cases hk : k = p
    · subst hk
      cases hentry : entry.2[k]? with
      | none => simp
      | some weight =>
        by_cases hopen : Prepared.open_ admits scores k = true
        · simp [hopen, bump]
        · simp [hopen]
    · rw [if_neg hk]
      cases hentry : entry.2[k]? with
      | none => simp
      | some weight =>
        by_cases hopen : Prepared.open_ admits scores k = true
        · simp [hopen, Std.ExtTreeMap.getElem?_insert, hk]
        · simp [hopen]

/-- The weights that the postings of a term give a position. -/
def postedWeights (postings : List (ℕ × Scores)) (p : ℕ) : List ℕ :=
  postings.filterMap fun entry => (entry.2[p]?).map (· * entry.1)

theorem matched_get (p : ℕ) : ∀ (postings : List (ℕ × Scores)) (matched : Scores),
    (postings.foldl (Prepared.matchPostings admits scores) matched)[p]? =
      if Prepared.open_ admits scores p then (postedWeights postings p).foldl bump matched[p]?
      else matched[p]?
  | [], matched => by simp [postedWeights]
  | entry :: postings, matched => by
    rw [List.foldl_cons, matched_get, matchPostings_get]
    unfold bumpMatch postedWeights
    cases hentry : entry.2[p]? with
    | none => simp [hentry]
    | some weight =>
      by_cases hopen : Prepared.open_ admits scores p = true
      · simp [hentry, hopen]
      · simp [hopen]

theorem scoreOf_next (next : Scores) (p : ℕ) :
    scoreOf admits (if next.isEmpty then none else some (some next)) p = next[p]? := by
  split
  · rename_i hempty
    rw [Std.ExtTreeMap.isEmpty_iff.mp hempty]
    simp [scoreOf]
  · rfl

theorem matchTerm_score (postings : List (ℕ × Scores)) (p : ℕ) :
    scoreOf admits (Prepared.matchTerm admits scores postings) p =
      addScore (fun postings => (postedWeights postings p).max?) (scoreAt admits scores p)
        postings := by
  unfold Prepared.matchTerm
  rw [scoreOf_next, Std.ExtTreeMap.getElem?_map, matched_get, open_eq,
    scoreSoFar_eq admits]
  unfold addScore
  cases scoreAt admits scores p with
  | none => simp
  | some s => simp [foldl_bump]

/-! A phrase. -/

theorem mem_of_containsPhrase {stream phrase : List Text} {token : Text}
    (h : containsPhrase stream phrase = true) (htoken : token ∈ phrase) : token ∈ stream :=
  (containsPhrase_iff.mp h).subset htoken

def phraseWeights (streams : List (ℕ × List Text)) (phrase : List Text) : List ℕ :=
  (streams.filter fun stream => containsPhrase stream.2 phrase).map Prod.fst

theorem phraseScore_eq {item : Item} {phrase : List Text} (hne : phrase ≠ []) :
    phraseScore (fieldStreams u item) (pathStream u item) phrase =
      if phraseWeights (fieldStreams u item) phrase = [] then none
      else some (2 * phrase.length *
        ((phraseWeights (fieldStreams u item) phrase).max?).getD 0) := by
  have hpath : phraseWeights (fieldStreams u item) phrase = [] →
      containsPhrase (pathStream u item) phrase = false := by
    intro hnone
    by_contra hfound
    rw [Bool.not_eq_false] at hfound
    obtain ⟨token, htoken⟩ := List.exists_mem_of_ne_nil phrase hne
    have hstream : (1, pathStream u item) ∈ fieldStreams u item := by
      refine List.mem_filter.mpr ⟨by simp, decide_eq_true ?_⟩
      exact List.ne_nil_of_mem (mem_of_containsPhrase hfound htoken)
    have : 1 ∈ phraseWeights (fieldStreams u item) phrase :=
      List.mem_map.mpr ⟨_, List.mem_filter.mpr ⟨hstream, hfound⟩, rfl⟩
    rw [hnone] at this
    cases this
  unfold phraseScore
  by_cases hnone : phraseWeights (fieldStreams u item) phrase = []
  · rw [if_pos hnone, if_pos ⟨hnone, hpath hnone⟩]
  · rw [if_neg hnone, if_neg fun h => hnone h.1]
    obtain ⟨best, hbest⟩ := Option.isSome_iff_exists.mp (List.isSome_max?_of_ne_nil hnone)
    have hbest' : ((List.filter (fun stream => containsPhrase stream.2 phrase)
        (fieldStreams u item)).map Prod.fst).max? = some best := hbest
    simp only [hbest, hbest', Option.getD_some]

theorem built_items (all items : List Item) : (built u all items).items = all := by
  induction items using List.reverseRecOn with
  | nil => rfl
  | append_singleton items item ih =>
    rw [built_append, addItem]
    exact ih

def phraseAt (u : Library) (items : List Item) (p : ℕ) (phrase : List Text) : Option ℕ :=
  (items[p]?).bind fun item => phraseScore (fieldStreams u item) (pathStream u item) phrase

theorem phraseWeights_of_weightAt (all : List Item) {items : List Item} {item : Item} {p : ℕ}
    {token : Text} {phrase : List Text} (hitem : items[p]? = some item) (htoken : token ∈ phrase)
    (hnone : weightAt (built u all items).postings token p = none) :
    phraseWeights (fieldStreams u item) phrase = [] := by
  rw [built_weightAt, hitem, Option.bind_some, List.max?_eq_none_iff] at hnone
  unfold phraseWeights
  rw [List.map_eq_nil_iff, List.filter_eq_nil_iff]
  intro stream hstream hfound
  have : stream.1 ∈ tokenWeights (fieldStreams u item) token :=
    List.mem_flatMap.mpr ⟨stream, hstream, List.mem_map.mpr
      ⟨token, List.mem_filter.mpr ⟨mem_of_containsPhrase hfound htoken, by simp⟩, rfl⟩⟩
  rw [hnone] at this
  cases this

/-- What the loop over a phrase does at a position. -/
def phraseTurn (index : Prepared) (admits : ℕ → Bool) (scores : Option Scores) (smallest : Scores)
    (phrase : List Text) (p : ℕ) (known : Option ℕ) : Option ℕ :=
  if (smallest[p]?).isNone ∨ Prepared.open_ admits scores p = false then known
  else if phraseWeights ((index.fields[p]?).getD []) phrase = [] then known
  else some (Prepared.scoreSoFar scores p + 2 * phrase.length *
    ((phraseWeights ((index.fields[p]?).getD []) phrase).max?).getD 0)

theorem matchPhrase_score {all items : List Item} {phrase : List Text} (hne : phrase ≠ [])
    (p : ℕ) : scoreOf admits ((built u all items).matchPhrase admits scores phrase) p =
      addScore (phraseAt u items p) (scoreAt admits scores p) phrase := by
  obtain ⟨smallest, hsmallest⟩ : ∃ smallest : Scores, (phrase.map fun token =>
      ((built u all items).postings[token]?).getD ∅).argmin Std.ExtTreeMap.size =
        some smallest := by
    rw [← Option.isSome_iff_exists, Option.isSome_iff_ne_none, ne_eq, List.argmin_eq_none]
    simpa using hne
  obtain ⟨token, htoken, hposting⟩ := List.mem_map.mp (List.argmin_mem hsmallest)
  unfold Prepared.matchPhrase
  rw [hsmallest, scoreOf_next]
  rw [foldl_keyed (g := phraseTurn (built u all items) admits scores smallest phrase)
    (fun m k p => ?_) (candidates_nodup _)]
  · rw [phraseTurn, built_fields, open_eq, scoreSoFar_eq admits,
      Std.ExtTreeMap.getElem?_empty, addScore]
    cases hscore : scoreAt admits scores p with
    | none => simp
    | some s =>
      cases hitem : items[p]? with
      | none =>
        simp only [phraseAt, hitem, List.getElem?_map, Option.map_none, Option.getD_none]
        simp [phraseWeights]
      | some item =>
        rw [phraseAt, hitem, Option.bind_some, Option.bind_some, phraseScore_eq hne,
          List.getElem?_map, hitem, Option.map_some, Option.getD_some]
        by_cases hnone : phraseWeights (fieldStreams u item) phrase = []
        · simp [hnone]
        · have hposted : smallest[p]? ≠ none := fun h => hnone
            (phraseWeights_of_weightAt all hitem htoken (by rw [weightAt, hposting, h]))
          have hcandidate : p ∈ Prepared.candidates scores smallest := by
            by_contra hp
            rcases not_candidate admits hp with h | h
            · exact hposted h
            · simp [open_eq, hscore] at h
          simp [hnone, hposted, hcandidate]
  · have hturn : ∀ {c d : Prop} [Decidable c] [Decidable d] (v : ℕ),
        (if c then m else if d then m else m.insert k v)[p]? =
          if k = p then (if c then m[k]? else if d then m[k]? else some v) else m[p]? := by
      intro c d _ _ v
      by_cases hk : k = p
      · subst hk
        split
        · simp
        · split <;> simp
      · rw [if_neg hk]
        split
        · rfl
        · split
          · rfl
          · simp [Std.ExtTreeMap.getElem?_insert, hk]
    exact hturn _


/-! A term. -/

theorem vocabulary_sorted (index : Prepared) : index.vocabulary.Pairwise (· < ·) :=
  Std.ExtTreeMap.ordered_keys.imp fun h => text_lt_of_compare h

theorem termPostings_eq (index : Prepared) (term : Text) :
    index.termPostings term = (index.vocabulary.filter (term <+: ·)).map fun token =>
      (if token = term then 2 else 1, (index.postings[token]?).getD ∅) := by
  unfold Prepared.termPostings Prepared.bisectLeft
  rw [scan_bisect lt_irrefl (fun _ _ _ => lt_trans) (vocabulary_sorted index)
    (fun t h => not_lt_of_prefix (of_decide_eq_true h)) fun s t hs hst h =>
      decide_eq_true (prefix_convex hs hst (of_decide_eq_true h))]

theorem max?_eq_of_dominated {a b : List ℕ} (hsub : ∀ x ∈ a, x ∈ b)
    (hdom : ∀ x ∈ b, ∃ y ∈ a, x ≤ y) : a.max? = b.max? := by
  cases ha : a.max? with
  | none =>
    rw [List.max?_eq_none_iff] at ha
    subst ha
    have hb : b = [] := List.eq_nil_iff_forall_not_mem.mpr fun x hx => by
      obtain ⟨y, hy, _⟩ := hdom x hx
      cases hy
    rw [hb, List.max?_nil]
  | some m =>
    obtain ⟨hm, hle⟩ := List.max?_eq_some_iff.mp ha
    refine (List.max?_eq_some_iff.mpr ⟨hsub m hm, fun x hx => ?_⟩).symm
    obtain ⟨y, hy, hxy⟩ := hdom x hx
    exact hxy.trans (hle y hy)

def termAt (u : Library) (items : List Item) (p : ℕ) (term : Text) : Option ℕ :=
  (items[p]?).bind fun item => termScore (fieldStreams u item) term

theorem mem_tokenWeights {streams : List (ℕ × List Text)} {token : Text} {weight : ℕ} :
    weight ∈ tokenWeights streams token ↔ ∃ tokens, (weight, tokens) ∈ streams ∧
      token ∈ tokens := by
  simp only [tokenWeights, List.mem_flatMap, List.mem_map, List.mem_filter, decide_eq_true_eq]
  constructor
  · rintro ⟨⟨w, tokens⟩, hstream, _, ⟨htoken, rfl⟩, rfl⟩
    exact ⟨tokens, hstream, htoken⟩
  · rintro ⟨tokens, hstream, htoken⟩
    exact ⟨_, hstream, token, ⟨htoken, rfl⟩, rfl⟩

theorem mem_termWeights {streams : List (ℕ × List Text)} {term : Text} {score : ℕ} :
    score ∈ termWeights streams term ↔ ∃ weight tokens token, (weight, tokens) ∈ streams ∧
      token ∈ tokens ∧ term <+: token ∧ score = weight * if token = term then 2 else 1 := by
  simp only [termWeights, List.mem_flatMap, List.mem_map, List.mem_filter, decide_eq_true_eq]
  constructor
  · rintro ⟨⟨weight, tokens⟩, hstream, token, ⟨htoken, hterm⟩, rfl⟩
    exact ⟨weight, tokens, token, hstream, htoken, hterm, rfl⟩
  · rintro ⟨weight, tokens, token, hstream, htoken, hterm, rfl⟩
    exact ⟨_, hstream, token, ⟨htoken, hterm⟩, rfl⟩

theorem mem_postedWeights {index : Prepared} {term : Text} {p score : ℕ} :
    score ∈ postedWeights (index.termPostings term) p ↔ ∃ token weight, term <+: token ∧
      weightAt index.postings token p = some weight ∧
        score = weight * if token = term then 2 else 1 := by
  simp only [postedWeights, termPostings_eq, List.mem_filterMap, List.mem_map, List.mem_filter,
    decide_eq_true_eq, Option.map_eq_some_iff, weightAt]
  constructor
  · rintro ⟨_, ⟨token, ⟨_, hterm⟩, rfl⟩, weight, hweight, rfl⟩
    exact ⟨token, weight, hterm, hweight, rfl⟩
  · rintro ⟨token, weight, hterm, hweight, rfl⟩
    refine ⟨_, ⟨token, ⟨?_, hterm⟩, rfl⟩, weight, hweight, rfl⟩
    rw [Prepared.vocabulary, Std.ExtTreeMap.mem_keys]
    by_contra hnot
    rw [Std.ExtTreeMap.getElem?_eq_none hnot] at hweight
    simp at hweight

/-- Postings keep the largest weight of a token, which is enough for the largest score. -/
theorem postedWeights_max {all items : List Item} (term : Text) (p : ℕ) :
    (postedWeights ((built u all items).termPostings term) p).max? = termAt u items p term := by
  unfold termAt
  cases hitem : items[p]? with
  | none =>
    rw [Option.bind_none, List.max?_eq_none_iff, List.eq_nil_iff_forall_not_mem]
    intro score hscore
    obtain ⟨token, weight, _, hweight, _⟩ := mem_postedWeights.mp hscore
    simp [built_weightAt, hitem] at hweight
  | some item =>
    have hweightAt : ∀ token, weightAt (built u all items).postings token p =
        (tokenWeights (fieldStreams u item) token).max? := fun token => by
      rw [built_weightAt, hitem, Option.bind_some]
    rw [Option.bind_some, termScore]
    refine max?_eq_of_dominated (fun score hscore => ?_) fun score hscore => ?_
    · obtain ⟨token, weight, hterm, hweight, rfl⟩ := mem_postedWeights.mp hscore
      rw [hweightAt] at hweight
      obtain ⟨tokens, hstream, htoken⟩ :=
        mem_tokenWeights.mp (List.max?_eq_some_iff.mp hweight).1
      exact mem_termWeights.mpr ⟨weight, tokens, token, hstream, htoken, hterm, rfl⟩
    · obtain ⟨weight, tokens, token, hstream, htoken, hterm, rfl⟩ := mem_termWeights.mp hscore
      have hmem : weight ∈ tokenWeights (fieldStreams u item) token :=
        mem_tokenWeights.mpr ⟨tokens, hstream, htoken⟩
      obtain ⟨best, hbest⟩ := Option.isSome_iff_exists.mp
        (List.isSome_max?_of_mem hmem)
      refine ⟨_, mem_postedWeights.mpr ⟨token, best, hterm, (hweightAt token).trans hbest, rfl⟩,
        ?_⟩
      exact Nat.mul_le_mul_right _ ((List.max?_eq_some_iff.mp hbest).2 weight hmem)

/-! All terms and phrases. -/

theorem foldl_addScore_none {α : Type} (best : α → Option ℕ) (l : List α) :
    l.foldl (addScore best) none = none := by
  induction l with
  | nil => rfl
  | cons a l ih => exact ih

theorem foldlM_score {α : Type} {f : Option Scores → α → Option (Option Scores)}
    {best : α → Option ℕ} {p : ℕ} : ∀ {l : List α} (scores : Option Scores),
    (∀ scores, ∀ a ∈ l, scoreOf admits (f scores a) p = addScore best (scoreAt admits scores p) a) →
      scoreOf admits (l.foldlM f scores) p = l.foldl (addScore best) (scoreAt admits scores p)
  | [], scores, _ => rfl
  | a :: l, scores, hf => by
    rw [List.foldlM_cons, List.foldl_cons, ← hf scores a (List.mem_cons_self ..)]
    cases f scores a with
    | none => exact (foldl_addScore_none best l).symm
    | some scores =>
      exact foldlM_score scores fun scores b hb => hf scores b (List.mem_cons_of_mem _ hb)

theorem foldl_addScore {α : Type} (best : α → Option ℕ) : ∀ (l : List α) (s : ℕ),
    l.foldl (addScore best) (some s) = (l.mapM best).map fun found => s + found.sum
  | [], s => rfl
  | a :: l, s => by
    rw [List.foldl_cons, List.mapM_cons, addScore, Option.bind_some]
    cases best a with
    | none => exact foldl_addScore_none best l
    | some score =>
      rw [Option.map_some, foldl_addScore best l]
      cases l.mapM best with
      | none => rfl
      | some found => simp [Nat.add_assoc]

instance {α : Type} (best : α → Option ℕ) : RightCommutative (addScore best) where
  right_comm score a b := by
    unfold addScore
    cases score with
    | none => rfl
    | some s =>
      cases best a <;> cases best b <;> simp [Nat.add_right_comm]

def finalScores (index : Prepared) (admits : ℕ → Bool) (query : Query) :
    Option (Option Scores) := do
  let scores ← ((query.terms.map index.termPostings).insertionSort Prepared.byRarity).foldlM
    (Prepared.matchTerm admits) none
  query.phrases.foldlM (index.matchPhrase admits) scores

theorem finalScores_eq {all items : List Item} {query : Query}
    (hphrases : ∀ phrase ∈ query.phrases, phrase ≠ []) (p : ℕ) :
    scoreOf admits (finalScores (built u all items) admits query) p =
      query.phrases.foldl (addScore (phraseAt u items p))
        (query.terms.foldl (addScore (termAt u items p)) (if admits p then some 0 else none)) := by
  have hterms : scoreOf admits (((query.terms.map (built u all items).termPostings).insertionSort
      Prepared.byRarity).foldlM (Prepared.matchTerm admits) none) p =
        query.terms.foldl (addScore (termAt u items p)) (if admits p then some 0 else none) := by
    rw [foldlM_score none fun scores postings _ => matchTerm_score postings p,
      (List.perm_insertionSort _ _).foldl_eq, List.foldl_map]
    simp only [addScore, postedWeights_max]
    rfl
  rw [← hterms, finalScores]
  cases ((query.terms.map (built u all items).termPostings).insertionSort
      Prepared.byRarity).foldlM (Prepared.matchTerm admits) none with
  | none => exact (foldl_addScore_none _ _).symm
  | some scores =>
    exact foldlM_score scores fun scores phrase hphrase =>
      matchPhrase_score (hphrases phrase hphrase) p

theorem finalScores_item {all items : List Item} {query : Query}
    (hphrases : ∀ phrase ∈ query.phrases, phrase ≠ []) {p : ℕ} {item : Item}
    (hitem : items[p]? = some item) (hadmits : admits p = true) :
    scoreOf admits (finalScores (built u all items) admits query) p =
      matchesAndScore u query item := by
  have hterm : termAt u items p = termScore (fieldStreams u item) := by
    funext term
    rw [termAt, hitem, Option.bind_some]
  have hphrase : phraseAt u items p = phraseScore (fieldStreams u item) (pathStream u item) := by
    funext phrase
    rw [phraseAt, hitem, Option.bind_some]
  rw [finalScores_eq hphrases, hadmits, if_pos rfl, foldl_addScore, hterm, hphrase,
    matchesAndScore]
  cases query.terms.mapM (termScore (fieldStreams u item)) with
  | none => exact foldl_addScore_none _ _
  | some terms =>
    rw [Option.map_some, foldl_addScore, Nat.zero_add]
    cases query.phrases.mapM (phraseScore (fieldStreams u item) (pathStream u item)) <;> rfl

theorem finalScores_absent (all : List Item) {items : List Item} {query : Query}
    (hphrases : ∀ phrase ∈ query.phrases, phrase ≠ []) {p : ℕ}
    (habsent : admits p = false ∨ items[p]? = none ∧ query.blank = false) :
    scoreOf admits (finalScores (built u all items) admits query) p = none := by
  rw [finalScores_eq hphrases]
  rcases habsent with hnot | ⟨hitem, hblank⟩
  · rw [hnot, if_neg Bool.false_ne_true, foldl_addScore_none, foldl_addScore_none]
  · have hterm : ∀ score, addScore (termAt u items p) score = fun _ => none := fun score => by
      funext term
      cases score <;> simp [addScore, termAt, hitem]
    have hphrase : ∀ score, addScore (phraseAt u items p) score = fun _ => none := fun score => by
      funext phrase
      cases score <;> simp [addScore, phraseAt, hitem]
    cases hterms : query.terms with
    | cons term terms =>
      rw [List.foldl_cons, hterm, foldl_addScore_none, foldl_addScore_none]
    | nil =>
      cases hphrases' : query.phrases with
      | cons phrase phrases =>
        rw [List.foldl_cons, hphrase, foldl_addScore_none]
      | nil => simp [Query.blank, hterms, hphrases'] at hblank

/-! The chain. -/

theorem chained_eq_nil {items : List Item} {selected : List Text} :
    chained items selected = [] ↔ (items.filter fun item => selected <+: chainOf item) = [] := by
  constructor
  · intro h
    rw [← itemsAt_chained, h, List.filterMap_nil]
  · intro h
    refine List.eq_nil_iff_forall_not_mem.mpr fun p hp => ?_
    obtain ⟨item, hitem, hchain⟩ := mem_chained.mp hp
    have : item ∈ items.filter fun item => selected <+: chainOf item :=
      List.mem_filter.mpr ⟨List.mem_of_getElem? hitem, decide_eq_true hchain⟩
    rw [h] at this
    cases this

theorem positions_eq (items : List Item) (selected : List Text) :
    (prepare u items).positions selected =
      (selectedChain items selected).map fun _ => chained items selected := by
  have hchains : ((prepare u items).chains[selected]?).getD [] = chained items selected :=
    built_chains items items selected
  unfold Prepared.positions
  rw [hchains, selectedChain_eq]
  by_cases hnodup : selected.Nodup
  · by_cases hempty : selected = []
    · simp [hempty, Except.map]
    · by_cases hnone : chained items selected = []
      · simp [hnodup, hempty, hnone, chained_eq_nil.mp hnone, Except.map]
      · rw [if_neg (not_not_intro hnodup), if_neg fun h => hnone h.2,
          if_pos ⟨hnodup, .inr (mt chained_eq_nil.mpr hnone)⟩]
        rfl
  · simp [hnodup, Except.map]

theorem allowed_iff {positions : List ℕ} (h : positions.Pairwise (· < ·)) {selected : List Text}
    {p : ℕ} : Prepared.allowed positions selected p = true ↔ selected = [] ∨ p ∈ positions := by
  unfold Prepared.allowed Prepared.bisectLeft
  rw [decide_eq_true_eq, getElem_bisect lt_irrefl h]

/-! The results. -/

theorem matchingRows_chained (items : List Item) (query : Query) (c : List Text) :
    matchingRows u query (items.filter fun item => c <+: chainOf item) =
      (chained items c).filterMap fun p => (items[p]?).bind fun item =>
        (matchesAndScore u query item).map fun score => (item, score) := by
  rw [← itemsAt_chained, matchingRows, List.filterMap_filterMap]

theorem match_rows {items : List Item} {query : Query} {selected : List Text}
    (hphrases : ∀ phrase ∈ query.phrases, phrase ≠ []) :
    (match finalScores (prepare u items) (Prepared.allowed (chained items selected) selected)
        query with
      | none => []
      | some none => (chained items selected).filterMap fun position =>
          (items[position]?).map (·, 0)
      | some (some scores) => scores.toList.filterMap fun entry =>
          (items[entry.1]?).map (·, entry.2)) =
      matchingRows u query (items.filter fun item => selected <+: chainOf item) := by
  have hsorted := chained_sorted items selected
  have hitem : ∀ p ∈ chained items selected, ∀ item, items[p]? = some item →
      scoreOf (Prepared.allowed (chained items selected) selected) (finalScores (prepare u items)
        (Prepared.allowed (chained items selected) selected) query) p =
          matchesAndScore u query item := fun p hp item h =>
    finalScores_item hphrases h ((allowed_iff hsorted).mpr (.inr hp))
  rw [matchingRows_chained]
  cases hfinal : finalScores (prepare u items)
      (Prepared.allowed (chained items selected) selected) query with
  | none =>
    refine (List.filterMap_eq_nil_iff.mpr fun p hp => ?_).symm
    cases h : items[p]? with
    | none => rfl
    | some item =>
      have := hitem p hp item h
      rw [hfinal] at this
      rw [Option.bind_some, ← this]
      rfl
  | some scores =>
    cases scores with
    | none =>
      refine List.filterMap_congr fun p hp => ?_
      cases h : items[p]? with
      | none => rfl
      | some item =>
        have := hitem p hp item h
        rw [hfinal] at this
        rw [Option.bind_some, ← this]
        simp [scoreOf, scoreAt, (allowed_iff hsorted).mpr (.inr hp)]
    | some scores =>
      have hblank : query.blank = false := by
        by_contra hblank
        rw [Bool.not_eq_false, Query.blank, decide_eq_true_eq] at hblank
        simp [finalScores, hblank.1, hblank.2] at hfinal
      have hkeys : ∀ p score, scores[p]? = some score → p ∈ chained items selected := by
        intro p score hscore
        by_contra hp
        have habsent : Prepared.allowed (chained items selected) selected p = false ∨
            items[p]? = none ∧ query.blank = false := by
          by_cases hempty : selected = []
          · subst hempty
            refine .inr ⟨Option.eq_none_iff_forall_not_mem.mpr fun item h => hp ?_, hblank⟩
            exact mem_chained.mpr ⟨item, h, List.nil_prefix⟩
          · refine .inl (Bool.not_eq_true _ ▸ fun h => ?_)
            exact ((allowed_iff hsorted).mp h).elim hempty hp
        have hnone := finalScores_absent (u := u) items hphrases habsent
        rw [show built u items items = prepare u items from rfl, hfinal] at hnone
        exact absurd (hscore.symm.trans hnone) (by simp)
      dsimp only
      rw [toList_eq_filterMap (fun _ _ => Nat.compare_eq_lt.mp) lt_irrefl (fun _ _ _ => lt_trans)
        hsorted hkeys, List.filterMap_filterMap]
      refine List.filterMap_congr fun p hp => ?_
      cases h : items[p]? with
      | none => cases scores[p]? <;> simp [h]
      | some item =>
        have := hitem p hp item h
        rw [hfinal] at this
        rw [Option.bind_some, ← this, show scoreOf _ (some (some scores)) p = scores[p]? from rfl]
        cases scores[p]? <;> simp [h]

theorem parseChunks_tokens {v : Unicode} : ∀ (n : ℕ) (text : Text) (chunks : List Chunk),
    parseChunks v n text = .ok chunks → ∀ chunk ∈ chunks, chunk.2 ≠ []
  | 0, _, chunks, h => by
    cases h
    simp
  | n + 1, [], chunks, h => by
    cases h
    simp
  | n + 1, c :: rest, chunks, h => by
    have hcons : ∀ {chunk : Chunk} {left : Text}, chunk.2 ≠ [] →
        (do return chunk :: (← parseChunks v n left)) = Except.ok chunks →
          ∀ chunk ∈ chunks, chunk.2 ≠ [] := by
      intro chunk left hne h
      cases hleft : parseChunks v n left with
      | error e =>
        rw [hleft] at h
        cases h
      | ok found =>
        rw [hleft] at h
        cases h
        intro other hother
        rcases List.mem_cons.mp hother with rfl | hother
        · exact hne
        · exact parseChunks_tokens n left found hleft other hother
    unfold parseChunks at h
    by_cases hspace : v.isSpace c = true
    · rw [if_pos hspace] at h
      exact parseChunks_tokens n rest chunks (by simpa using h)
    · rw [if_neg hspace] at h
      by_cases hquote : c = '"'
      · rw [if_pos hquote] at h
        dsimp only at h
        split at h
        · cases h
        · split at h
          · cases h
          · split at h
            · cases h
            · rename_i hne
              exact hcons hne h
      · rw [if_neg hquote] at h
        dsimp only at h
        split at h
        · cases h
        · split at h
          · cases h
          · rename_i hne
            exact hcons hne h

theorem parsed_phrases {v : Unicode} {text : Text} {query : Query}
    (h : parseQuery v text = .ok query) : ∀ phrase ∈ query.phrases, phrase ≠ [] := by
  unfold parseQuery at h
  cases hchunks : parseChunks v text.length text with
  | error e =>
    rw [hchunks] at h
    cases h
  | ok chunks =>
    rw [hchunks] at h
    cases h
    have hfold : ∀ (chunks : List Chunk) (phrases : List (List Text)),
        (∀ chunk ∈ chunks, chunk.2 ≠ []) → (∀ phrase ∈ phrases, phrase ≠ []) →
          ∀ phrase ∈ chunks.foldl addPhrase phrases, phrase ≠ [] := by
      intro chunks
      induction chunks with
      | nil => exact fun phrases _ h => h
      | cons chunk chunks ih =>
        intro phrases hchunks hphrases
        refine ih _ (fun other h => hchunks other (List.mem_cons_of_mem _ h)) fun phrase h => ?_
        unfold addPhrase appendOnce at h
        split at h
        · split at h
          · exact hphrases phrase h
          · rcases List.mem_append.mp h with h | h
            · exact hphrases phrase h
            · exact List.mem_singleton.mp h ▸ hchunks chunk (List.mem_cons_self ..)
        · exact hphrases phrase h
    exact hfold chunks [] (parseChunks_tokens _ _ _ hchunks) (by simp)

/-- The prepared index answers every parsed query over every chain as the evaluator does, and
refuses the chains that the evaluator refuses. -/
theorem prepared_search (items : List Item) {text : Text} {query : Query}
    (h : parseQuery u.toUnicode text = .ok query) (selected : List Text) (facetPrefix : Text) :
    (prepare u items).matchQuery query selected =
        (selectedChain items selected).map (matchingRows u query) ∧
      (prepare u items).selectedMarkers selected =
        (selectedChain items selected).map (leadingMarkers · selected) ∧
      (prepare u items).nextFacet u selected facetPrefix =
        (selectedChain items selected).map (facetOf u · selected.length facetPrefix) := by
  have hpositions := positions_eq (u := u) items selected
  cases hchain : selectedChain items selected with
  | error e =>
    rw [hchain] at hpositions
    have hrefused : (prepare u items).positions selected = .error e := hpositions
    refine ⟨?_, ?_, ?_⟩
    · rw [Prepared.matchQuery, hrefused]
      rfl
    · rw [Prepared.selectedMarkers, hrefused]
      rfl
    · rw [Prepared.nextFacet, hrefused]
      rfl
  | ok candidates =>
    rw [hchain] at hpositions
    have hfound : (prepare u items).positions selected = .ok (chained items selected) :=
      hpositions
    obtain ⟨_, _, rfl⟩ := selectedChain_ok.mp hchain
    refine ⟨?_, ?_, ?_⟩
    · rw [Prepared.matchQuery, hfound]
      exact congrArg Except.ok (by
        rw [← match_rows (parsed_phrases h), show (prepare u items).items = items from
          built_items items items]
        rfl)
    · have hhead : ((prepare u items).itemsAt ((chained items selected).take 1)).head? =
          (items.filter fun item => selected <+: chainOf item).head? := by
        rw [Prepared.itemsAt, show (prepare u items).items = items from built_items items items,
          ← itemsAt_chained]
        cases hchained : chained items selected with
        | nil => rfl
        | cons p positions =>
          obtain ⟨item, hitem, _⟩ := mem_chained.mp
            (hchained ▸ List.mem_cons_self .. : p ∈ chained items selected)
          simp [hitem]
      rw [Prepared.selectedMarkers, hfound]
      refine congrArg Except.ok ?_
      dsimp only
      unfold leadingMarkers
      rw [hhead]
    · have hgroups : ((prepare u items).facets[selected]?).getD [] =
          groupsAt (items.filter fun item => selected <+: chainOf item) selected.length :=
        built_facets items items selected
      rw [Prepared.nextFacet, hfound]
      refine congrArg Except.ok ?_
      dsimp only
      rw [hgroups]
      rfl

theorem prepared_search_small :
    ((prepare plain [smallItem "Archive/a.txt".toList []]).matchQuery
        ⟨["arch".toList], [["a".toList, "txt".toList]], "arch \"a txt\"".toList⟩ [] =
      .ok [(smallItem "Archive/a.txt".toList [], 21)]) :=
  (prepared_search (u := plain) [smallItem "Archive/a.txt".toList []]
    (show parseQuery plain.toUnicode "arch \"a txt\"".toList = _ by decide +kernel) [] []).1.trans
      (by decide +kernel)

end PreparedSearch
