import Mathlib.Logic.Relation
import WiseWay.IndexRevisions
import WiseWay.OrderedDicts

/-! # The index cache

Published index documents are cached under the revision of their root, with the search
structures prepared from their items. Every reader gets the row of its own snapshot. -/
namespace IndexCache

open IndexRevisions OrderedDicts
open Records (Text)

/-- What `json.loads` makes of the body of an index row. -/
structure Decoded (R I : Type) where
  rest : R
  rootId : Text
  items : List I

/-- A document in memory. Its items are a list object, told from others by its place. -/
structure Document (R : Type) where
  rest : R
  rootId : Text
  items : ℕ

/-- A search structure and the list object that it was built from. -/
structure Prepared (P : Type) where
  items : ℕ
  built : P

abbrev Memory (I : Type) := List (List I)

structure Context (R P : Type) where
  indexCache : OrderedDict Text (Option ℕ × Document R)
  indexCacheSizes : OrderedDict Text ℕ
  preparedIndexes : OrderedDict Text (Prepared P)

def Context.fresh {R P : Type} : Context R P :=
  ⟨OrderedDict.empty, OrderedDict.empty, OrderedDict.empty⟩

/-- A `KeyError` of a dictionary and a `ValueError` of `json.loads`. -/
inductive Fault where
  | keyError
  | valueError
  deriving DecidableEq

def maxIndexCacheBytes : ℕ := 32 * 1024 * 1024

def maxIndexCacheDocuments : ℕ := 4

def maxPreparedIndexes : ℕ := 4

def maxPreparedItems : ℕ := 10000

def encodedSize (encoded : Text) : ℕ := (encoded.map Char.utf8Size).sum

section Code

variable {R I P : Type} [BEq I] (decode : Text → Option (Decoded R I)) (build : List I → P)

def Overfull (documents : ℕ) (sizes : OrderedDict Text ℕ) : Prop :=
  maxIndexCacheDocuments < documents ∨ maxIndexCacheBytes < sizes.values.sum

instance (documents : ℕ) (sizes : OrderedDict Text ℕ) : Decidable (Overfull documents sizes) :=
  inferInstanceAs (Decidable (_ ∨ _))

/-- The eviction loop; the oldest documents stand first. -/
def evict : (entries : List (Text × (Option ℕ × Document R))) → (entries.map Prod.fst).Nodup →
    OrderedDict Text ℕ → OrderedDict Text (Prepared P) → Except Fault (Context R P)
  | [], h, sizes, prepared =>
    if Overfull 0 sizes then .error .keyError else .ok ⟨⟨[], h⟩, sizes, prepared⟩
  | (evicted, saved) :: rest, h, sizes, prepared =>
    if Overfull (rest.length + 1) sizes then
      if (sizes.get evicted).isNone then .error .keyError
      else evict rest (List.nodup_cons.mp h).2 (sizes.pop evicted) (prepared.pop evicted)
    else .ok ⟨⟨(evicted, saved) :: rest, h⟩, sizes, prepared⟩

def Context.forget (c : Context R P) (rootId : Text) : Context R P :=
  { indexCache := c.indexCache.pop rootId
    indexCacheSizes := c.indexCacheSizes.pop rootId
    preparedIndexes := c.preparedIndexes.pop rootId }

/-- The saved list object that equals the decoded one. -/
def sharedItems (memory : Memory I) (saved : Option (Option ℕ × Document R)) (items : List I) :
    Option ℕ :=
  saved.bind fun old =>
    if memory[old.2.items]? == some items then some old.2.items else none

/-- The document of a decoded body, with a list object of its own unless one is shared. -/
def place (memory : Memory I) (shared : Option ℕ) (value : Decoded R I) :
    Memory I × Document R :=
  match shared with
  | some items => (memory, ⟨value.rest, value.rootId, items⟩)
  | none => (memory ++ [value.items], ⟨value.rest, value.rootId, memory.length⟩)

def Context.remember (c : Context R P) (rootId : Text) (saved : Option ℕ × Document R)
    (size : ℕ) : Except Fault (Context R P) :=
  let cache := (c.indexCache.set rootId saved).moveToEnd rootId
  evict cache.entries cache.distinct (c.indexCacheSizes.set rootId size) c.preparedIndexes

/-- The part of `read_index` behind a cache miss. -/
def readRow (c : Context R P) (memory : Memory I) (tx : Snapshot) (rootId : Text) :
    Except Fault (Context R P × Memory I × Option (Document R)) :=
  match tx.indexRow rootId with
  | none => .ok (c.forget rootId, memory, none)
  | some encoded =>
    match decode encoded with
    | none => .error .valueError
    | some value =>
      if maxIndexCacheBytes < encodedSize encoded then
        let placed := place memory none value
        .ok (c.forget rootId, placed.1, some placed.2)
      else
        let placed := place memory (sharedItems memory (c.indexCache.get rootId) value.items) value
        (c.remember rootId (tx.revisions rootId, placed.2) (encodedSize encoded)).map
          fun kept => (kept, placed.1, some placed.2)

def readIndex (c : Context R P) (memory : Memory I) (tx : Snapshot) (rootId : Text) :
    Except Fault (Context R P × Memory I × Option (Document R)) :=
  match c.indexCache.get rootId with
  | some saved =>
    if saved.1 = tx.revisions rootId then
      .ok ({ c with indexCache := c.indexCache.moveToEnd rootId }, memory, some saved.2)
    else readRow decode c memory tx rootId
  | none => readRow decode c memory tx rootId

/-- `popitem` until at most four are left. -/
def dropOldest (prepared : OrderedDict Text (Prepared P)) : OrderedDict Text (Prepared P) :=
  ⟨prepared.entries.drop (prepared.entries.length - maxPreparedIndexes),
    prepared.distinct.sublist ((List.drop_sublist ..).map Prod.fst)⟩

def preparedSearch (c : Context R P) (memory : Memory I) (index : Document R) :
    Context R P × Option (Prepared P) :=
  match memory[index.items]? with
  | none => (c, none)
  | some items =>
    if maxPreparedItems < items.length then (c, none)
    else
      let key := index.rootId
      match (c.preparedIndexes.get key).filter (·.items = index.items) with
      | some prepared =>
        ({ c with preparedIndexes := dropOldest (c.preparedIndexes.moveToEnd key) }, some prepared)
      | none =>
        let prepared : Prepared P := ⟨index.items, build items⟩
        ({ c with
            preparedIndexes := dropOldest ((c.preparedIndexes.set key prepared).moveToEnd key) },
          some prepared)

end Code

/-! The process and its database. -/

/-- The committed snapshots, the latest first, the process's cache, and the documents it has
returned with the items that each showed then. -/
structure World (R I P : Type) where
  history : List Snapshot
  context : Context R P
  memory : Memory I
  returned : List (Document R × List I)

section Runs

variable {R I P : Type} [BEq I] (decode : Text → Option (Decoded R I)) (build : List I → P)

/-- What the caller of `read_index` holds afterwards. -/
def handOver (memory : Memory I) (found : Option (Document R)) : List (Document R × List I) :=
  match found with
  | none => []
  | some document => [(document, (memory[document.items]?).getD [])]

/-- Any transaction commits, any transaction that was opened on a committed snapshot reads any
root, and a document read before is searched. A transaction that fails commits nothing. -/
inductive Step : World R I P → World R I P → Prop
  | commit {w s earlier t} (statements : List Statement) : w.history = s :: earlier →
      transaction statements s = some t → Step w { w with history := t :: w.history }
  | read {w tx c memory found} (rootId : Text) : tx ∈ w.history →
      readIndex decode w.context w.memory tx rootId = .ok (c, memory, found) →
      Step w
        { w with
          context := c
          memory := memory
          returned := handOver memory found ++ w.returned }
  | prepare {w x} : x ∈ w.returned →
      Step w { w with context := (preparedSearch build w.context w.memory x.1).1 }

/-- Every run from a cold cache over any database. -/
inductive Reachable : World R I P → Prop
  | start (s : Snapshot) : Reachable ⟨[s], Context.fresh, [], []⟩
  | step {w w'} : Reachable w → Step decode build w w' → Reachable w'

end Runs

section Transparency

variable {R I P : Type} [BEq I] {decode : Text → Option (Decoded R I)} {build : List I → P}

/-- Equal lists, by the code's own `==` or outright. -/
def Alike (a b : List I) : Prop := a = b ∨ (a == b) = true

/-- A document in memory shows what was decoded. -/
structure Shows (memory : Memory I) (document : Document R) (d : Decoded R I) : Prop where
  rest : document.rest = d.rest
  rootId : document.rootId = d.rootId
  items : ∃ items, memory[document.items]? = some items ∧ Alike items d.items

/-- A found document shows the row, and none is found when there is no row. -/
inductive Visible (decode : Text → Option (Decoded R I)) (memory : Memory I) (row : Option Text) :
    Option (Document R) → Prop
  | missing : row = none → Visible decode memory row none
  | document {found d} : row.map decode = some (some d) → Shows memory found d →
      Visible decode memory row (some found)

/-- Reading gives what the row decodes to, and fails only when the row does not decode. -/
def ReadsRow (decode : Text → Option (Decoded R I)) (row : Option Text)
    (result : Except Fault (Context R P × Memory I × Option (Document R))) : Prop :=
  (result = .error .valueError ∧ row.map decode = some none) ∨
    ∃ c memory found, result = .ok (c, memory, found) ∧ Visible decode memory row found

/-- A saved document shows the row that some snapshot had under its revision. -/
def Genuine (decode : Text → Option (Decoded R I)) (history : List Snapshot) (memory : Memory I)
    (rootId : Text) (saved : Option ℕ × Document R) : Prop :=
  ∃ s ∈ history, s.revisions rootId = saved.1 ∧
    ∃ d, (s.indexRow rootId).map decode = some (some d) ∧ Shows memory saved.2 d

/-- A search structure holds the postings of its own list object. -/
def Faithful (build : List I → P) (memory : Memory I) (prepared : Prepared P) : Prop :=
  ∃ items, memory[prepared.items]? = some items ∧ prepared.built = build items

/-- What the dictionaries hold, whatever is evicted. -/
structure Holds (good : Text → Option ℕ × Document R → Prop) (built : Prepared P → Prop)
    (c : Context R P) : Prop where
  keys : ∀ k, (c.indexCacheSizes.get k).isSome = (c.indexCache.get k).isSome
  saved : ∀ k v, c.indexCache.get k = some v → good k v
  prepared : ∀ k p, c.preparedIndexes.get k = some p → built p

structure Bounded (c : Context R P) : Prop where
  documents : c.indexCache.size ≤ maxIndexCacheDocuments
  bytes : c.indexCacheSizes.values.sum ≤ maxIndexCacheBytes

structure Sound (decode : Text → Option (Decoded R I)) (build : List I → P)
    (w : World R I P) : Prop where
  history : History w.history
  holds : Holds (Genuine decode w.history w.memory) (Faithful build w.memory) w.context
  bounded : Bounded w.context
  returned : ∀ x ∈ w.returned, w.memory[x.1.items]? = some x.2

/-! Memory only grows. -/

variable {memory memory' : Memory I} {history history' : List Snapshot} {c : Context R P}
  {rootId : Text} {good : Text → Option ℕ × Document R → Prop} {built : Prepared P → Prop}

omit [BEq I] in
theorem getElem_of_prefix (h : memory <+: memory') {i : ℕ} {items : List I}
    (hi : memory[i]? = some items) : memory'[i]? = some items := by
  obtain ⟨rest, rfl⟩ := h
  rw [List.getElem?_append_left (List.getElem?_eq_some_iff.mp hi).1, hi]

theorem Shows.grow {document : Document R} {d : Decoded R I} (h : Shows memory document d)
    (hm : memory <+: memory') : Shows memory' document d := by
  obtain ⟨items, hitems, halike⟩ := h.items
  exact ⟨h.rest, h.rootId, items, getElem_of_prefix hm hitems, halike⟩

theorem Genuine.grow {saved : Option ℕ × Document R}
    (h : Genuine decode history memory rootId saved) (hh : ∀ s ∈ history, s ∈ history')
    (hm : memory <+: memory') : Genuine decode history' memory' rootId saved := by
  obtain ⟨s, hs, hrev, d, hd, hshows⟩ := h
  exact ⟨s, hh s hs, hrev, d, hd, hshows.grow hm⟩

omit [BEq I] in
theorem Faithful.grow {prepared : Prepared P} (h : Faithful build memory prepared)
    (hm : memory <+: memory') : Faithful build memory' prepared := by
  obtain ⟨items, hitems, hbuilt⟩ := h
  exact ⟨items, getElem_of_prefix hm hitems, hbuilt⟩

theorem Holds.grow
    (h : Holds (Genuine decode history memory) (Faithful build memory) c)
    (hh : ∀ s ∈ history, s ∈ history') (hm : memory <+: memory') :
    Holds (Genuine decode history' memory') (Faithful build memory') c :=
  ⟨h.keys, fun k v hv => (h.saved k v hv).grow hh hm, fun k p hp => (h.prepared k p hp).grow hm⟩

/-! What the operations on the dictionaries keep. -/

theorem Holds.touch (h : Holds good built c) :
    Holds good built { c with indexCache := c.indexCache.moveToEnd rootId } where
  keys k := by
    rw [get_moveToEnd]
    exact h.keys k
  saved k v hv := by
    rw [get_moveToEnd] at hv
    exact h.saved k v hv
  prepared := h.prepared

theorem Bounded.touch (h : Bounded c) :
    Bounded { c with indexCache := c.indexCache.moveToEnd rootId } where
  documents := by
    rw [size_moveToEnd]
    exact h.documents
  bytes := h.bytes

theorem get_of_pop {V : Type} {d : OrderedDict Text V} {k k' : Text} {v : V}
    (h : (d.pop k).get k' = some v) : d.get k' = some v := by
  rw [get_pop] at h
  split at h
  · cases h
  · exact h

theorem Holds.forget (h : Holds good built c) : Holds good built (c.forget rootId) where
  keys k := by
    rw [Context.forget, get_pop, get_pop]
    by_cases hk : k = rootId
    · rw [if_pos hk, if_pos hk]
      rfl
    · rw [if_neg hk, if_neg hk]
      exact h.keys k
  saved k v hv := h.saved k v (get_of_pop hv)
  prepared k p hp := h.prepared k p (get_of_pop hp)

theorem Bounded.forget (h : Bounded c) : Bounded (c.forget rootId) where
  documents := le_trans size_pop_le h.documents
  bytes := le_trans sum_pop_le h.bytes

/-- Eviction finds every size it looks for and ends within the budget. -/
theorem evict_holds {entries : List (Text × (Option ℕ × Document R))}
    {hkeys : (entries.map Prod.fst).Nodup} {sizes : OrderedDict Text ℕ}
    {prepared : OrderedDict Text (Prepared P)}
    (h : Holds good built ⟨⟨entries, hkeys⟩, sizes, prepared⟩) :
    ∃ kept, evict entries hkeys sizes prepared = .ok kept ∧ Holds good built kept ∧
      Bounded kept := by
  induction entries generalizing sizes prepared with
  | nil =>
    have hempty : sizes.entries = [] := by
      apply entries_eq_nil
      intro k
      have hk := h.keys k
      exact Option.not_isSome_iff_eq_none.mp (by rw [hk]; exact Bool.false_ne_true)
    have hfits : ¬Overfull 0 sizes := by
      rw [Overfull, OrderedDict.values, hempty]
      exact not_or.mpr ⟨Nat.not_lt_zero _, Nat.not_lt_zero _⟩
    refine ⟨_, if_neg hfits, h, Nat.zero_le _, ?_⟩
    rw [OrderedDict.values, hempty]
    exact Nat.zero_le _
  | cons entry rest ih =>
    obtain ⟨evicted, saved⟩ := entry
    rw [evict]
    by_cases hover : Overfull (rest.length + 1) sizes
    · have hsome : (sizes.get evicted).isSome = true := by
        rw [h.keys evicted]
        exact get_isSome.mpr (List.mem_cons_self ..)
      rw [if_pos hover, ← Option.not_isSome, hsome, if_neg (by decide)]
      apply ih
      constructor
      · intro k
        have hk := h.keys k
        rw [get_pop, get_tail hkeys]
        by_cases heq : k = evicted
        · rw [if_pos heq, if_pos heq]
          rfl
        · rw [if_neg heq, if_neg heq]
          exact hk
      · intro k v hv
        rw [get_tail hkeys] at hv
        split at hv
        · cases hv
        · exact h.saved k v hv
      · intro k p hp
        exact h.prepared k p (get_of_pop hp)
    · rw [if_neg hover]
      rw [Overfull, not_or, not_lt, not_lt] at hover
      exact ⟨_, rfl, h, hover.1, hover.2⟩

theorem Holds.remember (h : Holds good built c) {saved : Option ℕ × Document R}
    (hsaved : good rootId saved) (size : ℕ) :
    ∃ kept, c.remember rootId saved size = .ok kept ∧ Holds good built kept ∧ Bounded kept := by
  apply evict_holds
  constructor
  · intro k
    have hk := h.keys k
    change _ = (((c.indexCache.set rootId saved).moveToEnd rootId).get k).isSome
    rw [get_moveToEnd, get_set, get_set]
    split
    · rfl
    · exact hk
  · intro k v hv
    change ((c.indexCache.set rootId saved).moveToEnd rootId).get k = some v at hv
    rw [get_moveToEnd, get_set] at hv
    split at hv
    · next hk =>
      rw [hk, ← Option.some.inj hv]
      exact hsaved
    · exact h.saved k v hv
  · exact h.prepared

/-! Reading. -/

theorem sharedItems_eq {saved : Option (Option ℕ × Document R)} {items : List I} {i : ℕ}
    (h : sharedItems memory saved items = some i) :
    ∃ old, memory[i]? = some old ∧ (old == items) = true := by
  rw [sharedItems, Option.bind_eq_some_iff] at h
  obtain ⟨saved, -, hold⟩ := h
  by_cases heq : (memory[saved.2.items]? == some items) = true
  · rw [if_pos heq, Option.some.injEq] at hold
    subst hold
    cases hget : memory[saved.2.items]? with
    | none =>
      rw [hget] at heq
      cases heq
    | some old =>
      rw [hget] at heq
      exact ⟨old, rfl, heq⟩
  · rw [if_neg heq] at hold
    cases hold

variable (memory) in
theorem place_shows (shared : Option ℕ) (value : Decoded R I)
    (h : ∀ i, shared = some i → ∃ old, memory[i]? = some old ∧ (old == value.items) = true) :
    memory <+: (place memory shared value).1 ∧
      Shows (place memory shared value).1 (place memory shared value).2 value := by
  cases shared with
  | none =>
    refine ⟨List.prefix_append .., rfl, rfl, value.items, ?_, Or.inl rfl⟩
    exact List.getElem?_concat_length ..
  | some i =>
    obtain ⟨old, hold, heq⟩ := h i rfl
    exact ⟨List.prefix_rfl, rfl, rfl, old, hold, Or.inr heq⟩

/-- What a read leaves behind, and that it has read its row. -/
structure Reading (decode : Text → Option (Decoded R I)) (build : List I → P)
    (history : List Snapshot) (memory : Memory I) (row : Option Text) (c' : Context R P)
    (memory' : Memory I) (found : Option (Document R)) : Prop where
  visible : Visible decode memory' row found
  grows : memory <+: memory'
  holds : Holds (Genuine decode history memory') (Faithful build memory') c'
  bounded : Bounded c'

section Read

variable {tx : Snapshot} (hholds : Holds (Genuine decode history memory) (Faithful build memory) c)
  (hbounded : Bounded c) (htx : tx ∈ history)

include hholds hbounded htx

theorem readRow_outcome :
    (readRow decode c memory tx rootId = .error .valueError ∧
        (tx.indexRow rootId).map decode = some none) ∨
      ∃ c' memory' found, readRow decode c memory tx rootId = .ok (c', memory', found) ∧
        Reading decode build history memory (tx.indexRow rootId) c' memory' found := by
  rw [readRow]
  cases hrow : tx.indexRow rootId with
  | none =>
    right
    exact ⟨_, _, _, rfl, .missing rfl, List.prefix_rfl, hholds.forget, hbounded.forget⟩
  | some encoded =>
    dsimp only
    cases hdecode : decode encoded with
    | none =>
      left
      exact ⟨rfl, by rw [Option.map_some, hdecode]⟩
    | some value =>
      right
      have hmap : (some encoded).map decode = some (some value) := by
        rw [Option.map_some, hdecode]
      have hstay : ∀ s ∈ history, s ∈ history := fun _ hs => hs
      by_cases hlarge : maxIndexCacheBytes < encodedSize encoded
      · obtain ⟨hgrows, hshows⟩ := place_shows memory none value
          (fun i hi => by cases hi)
        simp only [if_pos hlarge]
        exact ⟨_, _, _, rfl, .document hmap hshows, hgrows, (hholds.grow hstay hgrows).forget,
          hbounded.forget⟩
      · obtain ⟨hgrows, hshows⟩ := place_shows memory
          (sharedItems memory (c.indexCache.get rootId) value.items) value
          fun i hi => sharedItems_eq hi
        have hgenuine : Genuine decode history
            (place memory (sharedItems memory (c.indexCache.get rootId) value.items) value).1 rootId
            (tx.revisions rootId,
              (place memory (sharedItems memory (c.indexCache.get rootId) value.items) value).2) :=
          ⟨tx, htx, rfl, value, by rw [hrow]; exact hmap, hshows⟩
        obtain ⟨kept, hkept, hheld, hfits⟩ :=
          (hholds.grow hstay hgrows).remember hgenuine (encodedSize encoded)
        simp only [if_neg hlarge, hkept]
        exact ⟨_, _, _, rfl, .document hmap hshows, hgrows, hheld, hfits⟩

variable (rootId) in
theorem readIndex_outcome (hhistory : History history) :
    (readIndex decode c memory tx rootId = .error .valueError ∧
        (tx.indexRow rootId).map decode = some none) ∨
      ∃ c' memory' found, readIndex decode c memory tx rootId = .ok (c', memory', found) ∧
        Reading decode build history memory (tx.indexRow rootId) c' memory' found := by
  rw [readIndex]
  cases hget : c.indexCache.get rootId with
  | none => exact readRow_outcome hholds hbounded htx
  | some saved =>
    by_cases hrev : saved.1 = tx.revisions rootId
    · right
      obtain ⟨s, hs, hsame, d, hd, hshows⟩ := hholds.saved rootId saved hget
      have hrow : tx.indexRow rootId = s.indexRow rootId :=
        hhistory.same_row hs htx (hrev.symm.trans hsame.symm)
      rw [← hrow] at hd
      simp only [if_pos hrev]
      exact ⟨_, _, _, rfl, .document hd hshows, List.prefix_rfl, hholds.touch, hbounded.touch⟩
    · simp only [if_neg hrev]
      exact readRow_outcome hholds hbounded htx

end Read

/-! Preparing a search. -/

theorem get_dropOldest {prepared : OrderedDict Text (Prepared P)} {k : Text} {p : Prepared P}
    (h : (dropOldest prepared).get k = some p) : prepared.get k = some p := by
  rw [get_eq_some] at h ⊢
  exact List.mem_of_mem_drop h

omit [BEq I] in
/-- The search structure of a document is the one of its own items. -/
theorem preparedSearch_built
    (h : Holds good (Faithful build memory) c) {index : Document R} {items : List I}
    (hitems : memory[index.items]? = some items) :
    Holds good (Faithful build memory) (preparedSearch build c memory index).1 ∧
      (preparedSearch build c memory index).2 =
        if maxPreparedItems < items.length then none else some ⟨index.items, build items⟩ := by
  rw [preparedSearch, hitems]
  by_cases hmany : maxPreparedItems < items.length
  · simp only [if_pos hmany]
    exact ⟨h, trivial⟩
  · simp only [if_neg hmany]
    cases hget : (c.preparedIndexes.get index.rootId).filter (·.items = index.items) with
    | none =>
      refine ⟨⟨h.keys, h.saved, ?_⟩, rfl⟩
      intro k p hp
      have hset := get_dropOldest hp
      rw [get_moveToEnd, get_set] at hset
      split at hset
      · rw [← Option.some.inj hset]
        exact ⟨items, hitems, rfl⟩
      · exact h.prepared k p hset
    | some prepared =>
      obtain ⟨hprepared, hsame⟩ := Option.filter_eq_some_iff.mp hget
      obtain ⟨old, hold, hbuilt⟩ := h.prepared _ _ hprepared
      have hplace : prepared.items = index.items := of_decide_eq_true hsame
      have heq : old = items := by
        rw [hplace, hitems] at hold
        exact (Option.some.inj hold).symm
      refine ⟨⟨h.keys, h.saved, ?_⟩, ?_⟩
      · intro k p hp
        have hmoved := get_dropOldest hp
        rw [get_moveToEnd] at hmoved
        exact h.prepared k p hmoved
      · rw [← hplace, ← heq, ← hbuilt]

/-! Every run. -/

variable {w w' : World R I P}

omit [BEq I] in
variable (build) in
theorem preparedSearch_caches (c : Context R P) (memory : Memory I) (index : Document R) :
    (preparedSearch build c memory index).1.indexCache = c.indexCache ∧
      (preparedSearch build c memory index).1.indexCacheSizes = c.indexCacheSizes := by
  rw [preparedSearch]
  cases memory[index.items]? with
  | none => exact ⟨rfl, rfl⟩
  | some items =>
    by_cases hmany : maxPreparedItems < items.length
    · simp only [if_pos hmany, and_self]
    · simp only [if_neg hmany]
      cases (c.preparedIndexes.get index.rootId).filter (·.items = index.items) <;>
        exact ⟨rfl, rfl⟩

theorem sound_start (s : Snapshot) :
    Sound decode build ⟨[s], (Context.fresh : Context R P), [], []⟩ where
  history := List.pairwise_singleton ..
  holds := ⟨fun _ => rfl, fun k v hv => (by cases hv), fun k p hp => (by cases hp)⟩
  bounded := ⟨Nat.zero_le _, Nat.zero_le _⟩
  returned x hx := by cases hx

theorem handOver_kept (memory : Memory I) {row : Option Text} {found : Option (Document R)}
    (h : Visible decode memory row found) :
    ∀ x ∈ handOver memory found, memory[x.1.items]? = some x.2 := by
  intro x hx
  cases h with
  | missing _ => cases hx
  | document _ hshows =>
    obtain ⟨items, hitems, -⟩ := hshows.items
    rw [handOver, List.mem_singleton] at hx
    rw [hx]
    simp only [hitems, Option.getD_some]

theorem sound_step (h : Sound decode build w) (hstep : Step decode build w w') :
    Sound decode build w' := by
  cases hstep with
  | commit statements hhistory htransaction =>
    refine ⟨?_, h.holds.grow (fun s hs => List.mem_cons_of_mem _ hs) List.prefix_rfl, h.bounded,
      h.returned⟩
    have hearlier := h.history
    rw [hhistory] at hearlier ⊢
    exact hearlier.commit htransaction
  | @read tx c memory found rootId htx hread =>
    rcases readIndex_outcome rootId h.holds h.bounded htx h.history with
      ⟨hfault, -⟩ | ⟨c', memory', found', hread', hreading⟩
    · rw [hread] at hfault
      cases hfault
    · rw [hread] at hread'
      cases hread'
      refine ⟨h.history, hreading.holds, hreading.bounded, ?_⟩
      intro x hx
      rcases List.mem_append.mp hx with hx | hx
      · exact handOver_kept memory hreading.visible x hx
      · exact getElem_of_prefix hreading.grows (h.returned x hx)
  | @prepare x hx =>
    obtain ⟨hcache, hsizes⟩ := preparedSearch_caches build w.context w.memory x.1
    refine ⟨h.history, (preparedSearch_built h.holds (h.returned x hx)).1, ?_, h.returned⟩
    exact ⟨hcache ▸ h.bounded.documents, hsizes ▸ h.bounded.bytes⟩

theorem sound_of_reachable (h : Reachable decode build w) : Sound decode build w := by
  induction h with
  | start s => exact sound_start s
  | step _ hstep ih => exact sound_step ih hstep

/-- A cached read is a read of the reader's own snapshot, a prepared search belongs to the items
that were returned, and the cache stays within its budget. -/
theorem index_cache_transparent (h : Reachable decode build w) :
    (∀ tx ∈ w.history, ∀ rootId,
      ReadsRow decode (tx.indexRow rootId) (readIndex decode w.context w.memory tx rootId)) ∧
    (∀ x ∈ w.returned, (preparedSearch build w.context w.memory x.1).2 =
      if maxPreparedItems < x.2.length then none else some ⟨x.1.items, build x.2⟩) ∧
    w.context.indexCache.size ≤ 4 ∧
    w.context.indexCacheSizes.values.sum ≤ 32 * 1024 * 1024 ∧
    ∀ rootId, rootId ∈ w.context.indexCacheSizes.keys ↔ rootId ∈ w.context.indexCache.keys := by
  have hsound := sound_of_reachable h
  refine ⟨?_, ?_, hsound.bounded.documents, hsound.bounded.bytes, ?_⟩
  · intro tx htx rootId
    rcases readIndex_outcome rootId hsound.holds hsound.bounded htx hsound.history with
      hfault | ⟨c', memory', found, hread, hreading⟩
    · exact Or.inl hfault
    · exact Or.inr ⟨c', memory', found, hread, hreading.visible⟩
  · intro x hx
    exact (preparedSearch_built hsound.holds (hsound.returned x hx)).2
  · intro rootId
    rw [← get_isSome, ← get_isSome, hsound.holds.keys]

end Transparency

/-! A root that is deleted and created again. -/

def plainDecode (encoded : Text) : Option (Decoded Unit Char) := some ⟨(), ['r'], encoded⟩

def published : Snapshot where
  objects key := if key = ⟨indexKind, ['r']⟩ then some ['a'] else none
  revisions rootId := if rootId = ['r'] then some 1 else none

def recreation : List Statement :=
  [.delete ⟨indexKind, ['r']⟩, .insert ⟨indexKind, ['r']⟩ ['b']]

theorem index_cache_transparent_recreated :
    ∃ w : World Unit Char ℕ, Reachable plainDecode List.length w ∧ w.history.length = 2 ∧
      w.context.indexCache.keys = [['r']] ∧ w.memory = [['a'], ['b']] ∧
      ReadsRow plainDecode (published.indexRow ['r'])
        (readIndex plainDecode w.context w.memory published ['r']) := by
  have hcold : Reachable plainDecode List.length ⟨[published], Context.fresh, [], []⟩ :=
    .start published
  have hread := hcold.step (.read ['r'] (List.mem_singleton_self _) rfl)
  have hwritten := hread.step (.commit recreation rfl rfl)
  have hreread := hwritten.step (.read ['r'] (List.mem_cons_self ..) rfl)
  refine ⟨_, hreread, rfl, rfl, rfl, ?_⟩
  exact (index_cache_transparent hreread).1 published (by simp) ['r']

end IndexCache
