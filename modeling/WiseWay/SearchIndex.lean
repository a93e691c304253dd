import Mathlib.Data.List.MinMax
import WiseWay.Search

/-! # Prepared postings

`search_index.py`: the token postings, marker chains and facets of one published generation.
A position is the place of an item in the corpus. -/
namespace SearchIndex

open Records SearchText Search

/-- Positions with their weights or scores; a `dict` whose order nothing depends on. -/
abbrev Scores := Std.ExtTreeMap ℕ ℕ

abbrev Chains (V : Type) := Std.ExtTreeMap (List Text) V

structure Prepared where
  items : List Item
  chains : Chains (List ℕ)
  facets : Chains Groups
  postings : Table Scores
  fields : List (List (ℕ × List Text))

variable (u : Library)

section Build

def addPosition (chains : Chains (List ℕ)) (chain : List Text) (position : ℕ) :
    Chains (List ℕ) :=
  chains.insert chain ((chains[chain]?).getD [] ++ [position])

/-- The loop over the markers of an item, which extends its chain. -/
def addMarkers (position : ℕ) : List Text → List Marker → Chains (List ℕ) × Chains Groups →
    Chains (List ℕ) × Chains Groups
  | _, [], found => found
  | chain, marker :: markers, (chains, facets) =>
    addMarkers position (chain ++ [marker.markerId]) markers
      (addPosition chains (chain ++ [marker.markerId]) position,
        facets.insert chain (tally ((facets[chain]?).getD []) marker))

def addToken (position weight : ℕ) (postings : Table Scores) (token : Text) : Table Scores :=
  let known := (postings[token]?).getD ∅
  postings.insert token (known.insert position (max weight ((known[position]?).getD 0)))

def addFields (position : ℕ) (fields : List (ℕ × List Text)) (postings : Table Scores) :
    Table Scores :=
  fields.foldl (fun postings stream =>
    stream.2.foldl (addToken position stream.1) postings) postings

def addItem (index : Prepared) (entry : Item × ℕ) : Prepared :=
  let found := addMarkers entry.2 [] entry.1.markers
    (addPosition index.chains [] entry.2, index.facets)
  { index with
    chains := found.1
    facets := found.2
    postings := addFields entry.2 (fieldStreams u entry.1) index.postings
    fields := index.fields ++ [fieldStreams u entry.1] }

/-- `SearchIndex.__init__`. -/
def prepare (items : List Item) : Prepared :=
  items.zipIdx.foldl (addItem u) ⟨items, ∅, ∅, ∅, []⟩

end Build

namespace Prepared

variable (index : Prepared)

def vocabulary : List Text := index.postings.keys

/-- `bisect_left` in a sorted list. -/
def bisectLeft {α : Type} [LT α] [DecidableLT α] (l : List α) (x : α) : ℕ :=
  (l.takeWhile (· < x)).length

/-- `_positions`. -/
def positions (selected : List Text) : Except SearchError (List ℕ) :=
  if ¬selected.Nodup then .error .invalidMarkerSelection
  else
    let found := (index.chains[selected]?).getD []
    if selected ≠ [] ∧ found = [] then .error .invalidMarkerSelection else .ok found

def itemsAt (positions : List ℕ) : List Item := positions.filterMap (index.items[·]?)

def selectedMarkers (selected : List Text) : Except SearchError (List Marker) := do
  let positions ← index.positions selected
  return leadingMarkers (index.itemsAt (positions.take 1)) selected

def nextFacet (selected : List Text) (facetPrefix : Text) : Except SearchError (Option Facet) := do
  let _ ← index.positions selected
  return facetFromGroups u ((index.facets[selected]?).getD []) facetPrefix

/-- `_term_postings`: the postings of every token that the term starts, exact ones twice. -/
def termPostings (term : Text) : List (ℕ × Scores) :=
  ((index.vocabulary.drop (bisectLeft index.vocabulary term)).takeWhile (term <+: ·)).map
    fun token => (if token = term then 2 else 1, (index.postings[token]?).getD ∅)

def allowed (positions : List ℕ) (selected : List Text) (position : ℕ) : Bool :=
  selected = [] ∨ positions[bisectLeft positions position]? = some position

/-- The positions that the loops go through: the smaller of two dictionaries. -/
def candidates (scores : Option Scores) (postings : Scores) : List ℕ :=
  match scores with
  | some scores => if scores.size < postings.size then scores.keys else postings.keys
  | none => postings.keys

/-- A position is still in question. -/
def open_ (admits : ℕ → Bool) (scores : Option Scores) (position : ℕ) : Bool :=
  match scores with
  | some scores => (scores[position]?).isSome
  | none => admits position

def scoreSoFar (scores : Option Scores) (position : ℕ) : ℕ :=
  (scores.bind (·[position]?)).getD 0

/-- What one posting list adds to the positions that match a term. -/
def matchPostings (admits : ℕ → Bool) (scores : Option Scores) (matched : Scores)
    (entry : ℕ × Scores) : Scores :=
  (candidates scores entry.2).foldl (fun matched position =>
    match entry.2[position]? with
    | some weight =>
      if open_ admits scores position then
        matched.insert position (max (weight * entry.1) ((matched[position]?).getD 0))
      else matched
    | none => matched) matched

/-- One term. No position is left where the loop returns at once. -/
def matchTerm (admits : ℕ → Bool) (scores : Option Scores) (postings : List (ℕ × Scores)) :
    Option (Option Scores) :=
  let matched := postings.foldl (matchPostings admits scores) ∅
  let next := matched.map fun position score => scoreSoFar scores position + score
  if next.isEmpty then none else some (some next)

/-- One phrase, from its rarest token; a phrase that was parsed has one. -/
def matchPhrase (admits : ℕ → Bool) (scores : Option Scores) (phrase : List Text) :
    Option (Option Scores) :=
  let smallest := ((phrase.map fun token => (index.postings[token]?).getD ∅).argmin
    Std.ExtTreeMap.size).getD ∅
  let next := (candidates scores smallest).foldl (fun (matched : Scores) position =>
    if (smallest[position]?).isNone ∨ open_ admits scores position = false then matched
    else
      let weights := (((index.fields[position]?).getD []).filter fun stream =>
        containsPhrase stream.2 phrase).map Prod.fst
      if weights = [] then matched
      else matched.insert position
        (scoreSoFar scores position + 2 * phrase.length * (weights.max?).getD 0)) ∅
  if next.isEmpty then none else some (some next)

def byRarity (a b : List (ℕ × Scores)) : Prop :=
  (a.map (·.2.size)).sum ≤ (b.map (·.2.size)).sum

instance : DecidableRel byRarity := fun a b =>
  inferInstanceAs (Decidable ((a.map (·.2.size)).sum ≤ (b.map (·.2.size)).sum))

def matchQuery (query : Query) (selected : List Text) : Except SearchError (List Row) := do
  let positions ← index.positions selected
  let admits := allowed positions selected
  let terms := (query.terms.map index.termPostings).insertionSort byRarity
  let scores := do
    let scores ← terms.foldlM (matchTerm admits) none
    query.phrases.foldlM (index.matchPhrase admits) scores
  return match scores with
    | none => []
    | some none => positions.filterMap fun position => (index.items[position]?).map (·, 0)
    | some (some scores) => scores.toList.filterMap fun entry =>
      (index.items[entry.1]?).map (·, entry.2)

/-! The selection of the first rows. -/

/-- `_path_ranks`. -/
def pathRank (item : Item) : ℕ := (sortBy .asc (pathTie u) index.items).idxOf item

/-- The loop that numbers the file names of sorted items, equal names alike. -/
def rankNames : Option NaturalKey → ℤ → List Item → List (Item × ℤ)
  | _, _, [] => []
  | previous, rank, row :: rows =>
    let key := naturalKey u.toUnicode row.filename
    let rank := if previous ≠ some key then rank + 1 else rank
    (row, rank) :: rankNames (some key) rank rows

/-- `_name_ranks`. -/
def nameRank (item : Item) : ℤ :=
  let ranks := rankNames u none (-1)
    (sortBy .asc (fun row : Item => naturalKey u.toUnicode row.filename) index.items)
  ((ranks.find? (·.1 = item)).map Prod.snd).getD 0

/-- `nlargest` or `nsmallest`. -/
def select {K : Type} [LinearOrder K] (direction : Direction) (limit : ℕ) (key : Row → K)
    (rows : List Row) : List Row := (sortBy direction key rows).take limit

/-- The rank of the path, the other way round where the rows are taken from the largest. -/
def tieRank (direction : Direction) (row : Row) : ℤ :=
  match direction with
  | .asc => index.pathRank u row.1
  | .desc => -index.pathRank u row.1

/-- `sort_rows`. -/
def sortRows (rows : List Row) (ordering : SearchSort) (limit : ℕ) :
    Except SearchError (List Item) :=
  if rows.length ≤ limit then Search.sortRows u rows ordering
  else do
    let _ ← Search.sortRows u [] ordering
    let direction := ordering.direction
    let tie := index.tieRank u direction
    return (match ordering.field with
      | .path => select direction limit (fun row => index.pathRank u row.1) rows
      | .relevance => select direction limit (fun row => toLex (row.2, tie row)) rows
      | .name => select direction limit (fun row => toLex (index.nameRank u row.1, tie row)) rows
      | .size => select direction limit (fun row => toLex (row.1.sizeBytes, tie row)) rows
      | .modifiedAt =>
        select direction limit (fun row => toLex (row.1.modifiedAt, tie row)) rows).map Prod.fst

end Prepared

end SearchIndex
