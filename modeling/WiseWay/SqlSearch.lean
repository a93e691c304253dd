import WiseWay.Groupings
import WiseWay.SearchTables

/-! # Queries over the SQLite search tables

`SqlSearchIndex` of `sqlite_search.py`. A query of the full-text index is an expression over the
words of the columns of one row; a grouped or a temporary table is a table of scores by row. `TEXT`
and `BLOB` values compare by their bytes. -/
namespace SqlSearch

open Records SearchText Search SearchTables
open Groupings (grouped)

inductive Column where
  | filename | project | company | markers | path
  deriving DecidableEq, Repr

/-- `_COLUMNS`. -/
def weightedColumns : List (Column × ℕ) :=
  [(.filename, 5), (.project, 4), (.company, 3), (.markers, 1), (.path, 1)]

def joinedClauseLimit : ℕ := 16

/-! Limits of SQLite: what a compound select, a statement and an expression may hold. -/

def compoundSelectLimit : ℕ := 500

def variableLimit : ℕ := 32766

def expressionDepthLimit : ℕ := 1000

/-- A `MATCH` expression. -/
inductive Expression (G : Type) where
  | generation (generation : G)
  | word (column : Column) (word : Text)
  | wordPrefix (column : Column) (stem : Text)
  | phrase (column : Column) (words : List Text)
  | both (a b : Expression G)
  | butNot (a b : Expression G)

/-- The words of a text: what blanks separate. -/
def words (text : Text) : List Text := (text.splitOn ' ').filter (· ≠ [])

def columnText (columns : Columns) : Column → Text
  | .filename => columns.filename
  | .project => columns.project
  | .company => columns.company
  | .markers => columns.markers
  | .path => columns.path

abbrev RowScores := Std.ExtTreeMap ℕ ℕ

section Queries

variable {G : Type} [DecidableEq G]

/-- The full-text index finds words, beginnings of words, and words that follow each other. -/
def Expression.holds (row : FtsRow G) : Expression G → Bool
  | .generation g => row.generation = g
  | .word column encoded => encoded ∈ words (columnText row.columns column)
  | .wordPrefix column stem => (words (columnText row.columns column)).any (stem <+: ·)
  | .phrase column encoded => containsPhrase (words (columnText row.columns column)) encoded
  | .both a b => a.holds row && b.holds row
  | .butNot a b => a.holds row && !b.holds row

/-- `SELECT rowid, ? AS score FROM search_fts WHERE search_fts MATCH ?`. -/
def scored (t : Tables G) (score : ℕ) (expression : Expression G) : List (ℕ × ℕ) :=
  (t.fts.filter expression.holds).map fun row => (row.rowId, score)

variable (t : Tables G) (g : G)

/-- `_match` of an encoded token. -/
def matchWord (column : Column) (encoded : Text) : Expression G :=
  .both (.generation g) (.word column encoded)

/-- `_match` of a quoted phrase. -/
def matchPhrase (column : Column) (encoded : List Text) : Expression G :=
  .both (.generation g) (.phrase column encoded)

/-- `_prefix_without_exact`. -/
def prefixWithoutExact (column : Column) (encoded : Text) : Expression G :=
  .both (.generation g) (.butNot (.wordPrefix column encoded) (.word column encoded))

/-- `_term_cte`. -/
def termCte (term : Text) : RowScores :=
  grouped max (weightedColumns.flatMap fun (column, weight) =>
    scored t (weight * 2) (matchWord g column (encodedToken term)) ++
      scored t weight (prefixWithoutExact g column (encodedToken term)))

/-- `_phrase_cte`. -/
def phraseCte (phrase : List Text) : RowScores :=
  grouped max (weightedColumns.flatMap fun (column, weight) =>
    scored t (2 * phrase.length * weight) (matchPhrase g column (phrase.map encodedToken)))

/-- `_filter_sql`. -/
def inChain (selected : List Text) (rowId : ℕ) : Bool :=
  selected.zipIdx.all fun (markerId, depth) => t.itemMarkers.any fun row =>
    row.generationId = g ∧ row.depth = depth ∧ row.markerId = markerId ∧ row.rowId = rowId

/-- `JOIN … USING(rowid)`. -/
def joinScores : List RowScores → List (ℕ × ℕ)
  | [] => []
  | first :: rest => first.toList.filterMap fun (rowId, score) =>
      (rest.mapM fun scores => scores[rowId]?).map fun more => (rowId, score + more.sum)

/-- `UNION ALL`, grouped by row: the sum of the scores where every clause has one. It is prepared
for no more clauses than `compoundSelectLimit`. -/
def combineScores (clauses : List RowScores) : List (ℕ × ℕ) :=
  (grouped (fun a b : ℕ × ℕ => (a.1 + b.1, a.2 + b.2))
    (clauses.flatMap fun scores => scores.toList.map fun (rowId, score) =>
      (rowId, (score, 1)))).toList.filterMap fun (rowId, (score, count)) =>
        if count = clauses.length then some (rowId, score) else none

def rowOf (rowId : ℕ) : Option (ItemRow G) := t.items.find? (·.rowId = rowId)

/-- `_candidates`. -/
def candidates (query : Query) (selected : List Text) : List (ℕ × ℕ) :=
  let clauses := query.terms.map (termCte t g) ++ query.phrases.map (phraseCte t g)
  let source := if clauses = [] then t.items.map fun row => (row.rowId, 0)
    else if clauses.length ≤ joinedClauseLimit then joinScores clauses
    else combineScores clauses
  source.filter fun (rowId, _) =>
    (rowOf t rowId).any fun row => row.generationId = g ∧ inChain t g selected rowId

/-- How deep the conditions of the statement are: each marker of the chain and each joined clause is
one conjunct more than the nine levels of the innermost ones. -/
def conditionDepth (clauses selected : ℕ) : ℕ :=
  selected + (if clauses ≤ joinedClauseLimit then clauses else 1) + 9

/-- Whether SQLite prepares the statement of `_candidates`. -/
def prepares (query : Query) (selected : List Text) : Bool :=
  let clauses := query.terms.length + query.phrases.length
  clauses ≤ compoundSelectLimit ∧ conditionDepth clauses selected.length ≤ expressionDepthLimit

/-- `_materialized_candidates`; a statement that is not prepared raises an `OperationalError`. -/
def materialized (query : Query) (selected : List Text) : Except SearchError RowScores :=
  if prepares query selected then
    .ok ((candidates t g query selected).foldl (fun table row => table.insert row.1 row.2) ∅)
  else .error .raised

/-! Order. -/

abbrev TieKey := List ℕ ×ₗ List ℕ ×ₗ List ℕ

/-- `path_key, relative_path, item_id`. -/
def tieKey (row : ItemRow G) : TieKey :=
  toLex (row.pathKey, toLex (encode row.item.location.relativePath, encode row.item.itemId))

/-- `ORDER BY` a column in some direction and the ascending tie. -/
def orderBy {K : Type} [LinearOrder K] (direction : Direction) (key : ItemRow G × ℕ → K)
    (rows : List (ItemRow G × ℕ)) : List (ItemRow G × ℕ) :=
  match direction with
  | .asc => sortBy .asc (fun row => (toLex (key row, tieKey row.1) : K ×ₗ TieKey)) rows
  | .desc => sortBy .asc
      (fun row => (toLex (OrderDual.toDual (key row), tieKey row.1) : Kᵒᵈ ×ₗ TieKey)) rows

/-- `_order`. -/
def order (sort : SearchSort) (rows : List (ItemRow G × ℕ)) :
    Except SearchError (List (ItemRow G × ℕ)) :=
  match sort.field with
  | .relevance =>
    match sort.direction with
    | .asc => .error .invalidQuery
    | .desc => .ok (orderBy .desc (fun row => row.2) rows)
  | .path => .ok (sortBy sort.direction (fun row => tieKey row.1) rows)
  | .name => .ok (orderBy sort.direction (fun row => row.1.filenameKey) rows)
  | .modifiedAt => .ok (orderBy sort.direction (fun row => encode row.1.modifiedKey) rows)
  | .size => .ok (orderBy sort.direction (fun row => row.1.item.sizeBytes) rows)

/-- The rows of `search_items` that a table of candidates is joined with. -/
def joinItems (table : RowScores) : List (ItemRow G × ℕ) :=
  table.toList.filterMap fun (rowId, score) => (rowOf t rowId).map fun row => (row, score)

/-- `_top_ids`; a limit is a number of 64 bits with a sign. -/
def topIds (table : RowScores) (sort : SearchSort) (limit : ℕ) : Except SearchError (List ℕ) := do
  let rows ← order sort (joinItems t table)
  if 2 ^ 63 ≤ limit then .error .raised
  return (rows.map fun row => row.1.rowId).take limit

/-- `_read_bodies`, with a variable for each row. -/
def readBodies (rowIds : List ℕ) : Except SearchError (List Item) :=
  if variableLimit < rowIds.length then .error .raised
  else .ok (rowIds.filterMap fun rowId => (rowOf t rowId).map (·.item))

/-! Facets. -/

/-- `_bytes_successor`. -/
def bytesSuccessor (bytes : List ℕ) : List ℕ :=
  match bytes.reverse.dropWhile (· = 0xFF) with
  | [] => bytes ++ [0x00]
  | byte :: before => before.reverse ++ [byte + 1]

section Unicode

variable (u : Library)

/-- The condition that a facet prefix adds. -/
def withFolded (facetPrefix : Text) (row : MarkerRow G) : Bool :=
  let folded := encode (casefold u.toUnicode facetPrefix)
  folded = [] ∨ (folded ≤ row.displayFolded ∧ row.displayFolded < bytesSuccessor folded)

def countMarker (groups : List (MarkerRow G × ℕ)) (row : MarkerRow G) : List (MarkerRow G × ℕ) :=
  if groups.any fun known => known.1.marker.markerId = row.marker.markerId then
    groups.map fun known =>
      if known.1.marker.markerId = row.marker.markerId then (known.1, known.2 + 1) else known
  else groups ++ [(row, 1)]

abbrev MarkerKey := Bool ×ₗ List ℕ ×ₗ List ℕ ×ₗ List ℕ

/-- `unrecognized, display_key, raw_value, marker_id`. -/
def markerKey (row : MarkerRow G) : MarkerKey :=
  toLex (row.unrecognized, toLex (row.displayKey,
    toLex (encode row.rawValue, encode row.marker.markerId)))

/-- The two queries of a facet: its first marker, and its markers with their counts. -/
def facetFrom (first : Option (MarkerRow G)) (rows : List (MarkerRow G)) (facetPrefix : Text) :
    Option Facet :=
  first.map fun row =>
    { levelId := row.marker.levelId
      levelName := row.marker.levelName
      options := (((rows.filter (withFolded u facetPrefix)).foldl countMarker []).insertionSort
        fun a b => markerKey a.1 ≤ markerKey b.1).map fun known => (known.1.marker, known.2) }

/-- `search_item_markers` with their rows of `search_markers`. -/
def joinMarkers (rows : List (ItemMarkerRow G)) : List (MarkerRow G) :=
  rows.flatMap fun row => t.markers.filter fun known =>
    known.generationId = row.generationId ∧ known.marker.markerId = row.markerId

/-- `_facet_table`. -/
def facetTable (table : RowScores) (selected : List Text) (facetPrefix : Text) : Option Facet :=
  let rows := joinMarkers t (table.toList.flatMap fun (rowId, _) => t.itemMarkers.filter fun row =>
    row.generationId = g ∧ row.rowId = rowId ∧ row.depth = selected.length)
  facetFrom u rows.head? rows facetPrefix

/-- `ORDER BY marker_id LIMIT 1`. -/
def firstMarker (rows : List (MarkerRow G)) : Option (MarkerRow G) :=
  (sortBy .asc (fun row : MarkerRow G => encode row.marker.markerId) rows).head?

/-- `_root_facet`. -/
def rootFacet (facetPrefix : Text) : Option Facet :=
  facetFrom u
    (firstMarker (t.markers.filter fun row =>
      row.generationId = g ∧ row.depth = 0 ∧ row.parentMarkerId = none))
    (joinMarkers t (t.itemMarkers.filter fun row => row.generationId = g ∧ row.depth = 0))
    facetPrefix

/-- `_selected_idle_facet`. -/
def selectedIdleFacet (selected : List Text) (parent facetPrefix : Text) : Option Facet :=
  facetFrom u
    (firstMarker (t.markers.filter fun row => row.generationId = g ∧
      row.parentMarkerId = some parent ∧ row.depth = selected.length))
    ((joinMarkers t (t.itemMarkers.filter fun row =>
      row.generationId = g ∧ row.depth = selected.length)).filter
        (·.parentMarkerId = some parent))
    facetPrefix

/-! Requests. -/

/-- The loop of `_selected` from a depth on. -/
def chainMarkers : ℕ → Option Text → List Text → Except SearchError (List Marker)
  | _, _, [] => .ok []
  | depth, parent, markerId :: rest =>
    match t.markers.find? fun row =>
      row.generationId = g ∧ row.marker.markerId = markerId ∧ row.depth = depth with
    | none => .error .invalidMarkerSelection
    | some row =>
      if row.parentMarkerId ≠ parent then .error .invalidMarkerSelection
      else do
        let markers ← chainMarkers (depth + 1) (some markerId) rest
        return row.marker :: markers

/-- `_selected`. -/
def selectedMarkers (selected : List Text) : Except SearchError (List Marker) :=
  if ¬selected.Nodup then .error .invalidMarkerSelection else chainMarkers t g 0 none selected

def idleFacet (selected : List Text) (facetPrefix : Text) : Option Facet :=
  match selected.getLast? with
  | some parent => selectedIdleFacet t g u selected parent facetPrefix
  | none => rootFacet t g u facetPrefix

/-- `SqlSearchIndex` and `_root`: a generation that can be read, and is of the root. -/
def readable (root : SearchRoot) : Except SearchError Unit :=
  match generationOf t g with
  | none => .error .raised
  | some row =>
    if row.state = .building then .error .raised
    else if root.rootId ≠ row.rootId then .error .raised
    else .ok ()

/-- `search`, within its deadline. -/
def search (root : SearchRoot) (request : SearchRequest) (limit : ℕ) :
    Except SearchError SearchResponse := do
  readable t g root
  validateContext root request.toFacetRequest
  if limit < 1 then .error .raised
  let query ← parseQuery u.toUnicode request.queryText
  let selected := request.selectedMarkerIds
  let markers ← selectedMarkers t g selected
  if request.sort.field = .relevance ∧ query.blank then .error .invalidQuery
  if selected = [] ∧ query.blank then
    return idleResponse root request.toFacetRequest limit (rootFacet t g u request.facetPrefix)
  let table ← materialized t g query selected
  let nextFacet := if query.blank then idleFacet t g u selected request.facetPrefix
    else facetTable t g u table selected request.facetPrefix
  let top ← topIds t table request.sort limit
  let items ← readBodies t top
  return resultsResponse root request.toFacetRequest limit query.appliedText markers table.size
    items nextFacet

/-- `facet`, within its deadline. -/
def facet (root : SearchRoot) (request : FacetRequest) : Except SearchError FacetResponse := do
  readable t g root
  validateContext root request
  let query ← parseQuery u.toUnicode request.queryText
  let selected := request.selectedMarkerIds
  let _ ← selectedMarkers t g selected
  if query.blank then
    return ⟨responseHead root request, idleFacet t g u selected request.facetPrefix⟩
  let table ← materialized t g query selected
  return ⟨responseHead root request, facetTable t g u table selected request.facetPrefix⟩

end Unicode

end Queries

end SqlSearch
