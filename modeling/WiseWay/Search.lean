import WiseWay.SearchText

/-! # Search over one published root

`search.py`: the items of an index, what matches them and how a response is made. An item is
built from the logical path of one file and the schema of its root. -/
namespace Search

open Records SearchText

structure Level where
  levelId : Text
  levelName : Text
  values : List Text
  optional : Bool := false
  deriving DecidableEq, Repr

structure Schema where
  schemaSetVersion : Text
  rootLevels : List Level
  tailByCompany : List (Text × List Level)
  deriving DecidableEq, Repr

inductive MarkerKind where
  | value | unrecognized
  deriving DecidableEq, Repr

structure Marker where
  markerId : Text
  levelId : Text
  levelName : Text
  rawValue : Option Text
  displayValue : Text
  kind : MarkerKind
  deriving DecidableEq, Repr

inductive IssueCode where
  | unexpectedDepth | missingRequiredLevel | invalidLevelValue
  deriving DecidableEq, Repr

structure Issue where
  levelId : Option Text
  levelName : Text
  code : IssueCode
  deriving DecidableEq, Repr

structure Location where
  rootId : Text
  relativePath : Text
  displayPath : Text
  deriving DecidableEq, Repr

/-- Its structure status is whether it has an issue. -/
structure Item where
  itemId : Text
  location : Location
  filename : Text
  markers : List Marker
  extension : Text
  sizeBytes : ℕ
  modifiedAt : Text
  structureIssue : Option Issue
  deriving DecidableEq, Repr

/-- Properties of characters, and the part of a hash that `_stable_id` keeps. -/
structure Library extends Unicode where
  digest : Text → Text

/-- `_stable_id`. -/
def Library.stableId (u : Library) (parts : List Text) : Text :=
  "marker-".toList ++ u.digest (joinWith ['\x1f'] parts)

section Build

variable (u : Library)

/-- The last entry of `tail_by_company` for a company, keys compared without case. The key of a
path that has no company level yet is `None`. -/
def tailOf (schema : Schema) (company : Option Text) : List Level :=
  let key := casefold u.toUnicode (company.getD "None".toList)
  ((schema.tailByCompany.reverse.find? fun entry =>
    casefold u.toUnicode entry.1 = key).map Prod.snd).getD []

/-- `_levels`. -/
def levels (schema : Schema) (parsedValues : List Text) : List Level :=
  schema.rootLevels ++ tailOf u schema parsedValues[1]?

def parentKey (parents : List Text) : Text := joinWith ['\x1e'] parents

def valueMarker (rootId schemaVersion : Text) (level : Level) (rawValue : Text)
    (parents : List Text) : Marker where
  markerId := u.stableId
    [rootId, schemaVersion, level.levelId, parentKey parents, rawValue, "value".toList]
  levelId := level.levelId
  levelName := level.levelName
  rawValue := some rawValue
  displayValue := rawValue
  kind := .value

def unrecognizedMarker (rootId schemaVersion : Text) (level : Level) (parents : List Text) :
    Marker where
  markerId := u.stableId
    [rootId, schemaVersion, level.levelId, parentKey parents, "unrecognized".toList]
  levelId := level.levelId
  levelName := level.levelName
  rawValue := none
  displayValue := "Не распознано".toList
  kind := .unrecognized

def extraDepth : Level := ⟨"level-extra-depth".toList, "Дополнительный уровень".toList, [], false⟩

def issue (level : Option Level) (code : IssueCode) : Issue where
  levelId := level.map (·.levelId)
  levelName := (level.map (·.levelName)).getD "Дополнительный уровень".toList
  code := code

def allows (level : Level) (value : Text) : Bool :=
  casefold u.toUnicode value ∈ level.values.map (casefold u.toUnicode)

/-- The loop of `build_item` over the directories that are left; its position is the number of
values parsed. A schema that gets shorter on the way ends it with an `IndexError`. -/
def parseDirectories (rootId : Text) (schema : Schema) (parsedValues : List Text) :
    List Text → Except SearchError (List Marker × Option Issue)
  | [] =>
    let expected := levels u schema parsedValues
    if parsedValues.length = expected.length then .ok ([], none)
    else
      match expected[parsedValues.length]? with
      | none => .error .raised
      | some level =>
        if level.optional then .ok ([], none)
        else .ok ([unrecognizedMarker u rootId schema.schemaSetVersion level parsedValues],
          some (issue level .missingRequiredLevel))
  | value :: directories =>
    let expected := levels u schema parsedValues
    if parsedValues.length = expected.length then
      .ok ([unrecognizedMarker u rootId schema.schemaSetVersion extraDepth parsedValues],
        some (issue none .unexpectedDepth))
    else
      match expected[parsedValues.length]? with
      | none => .error .raised
      | some level =>
        if allows u level value then do
          let (markers, found) ←
            parseDirectories rootId schema (parsedValues ++ [value]) directories
          return (valueMarker u rootId schema.schemaSetVersion level value parsedValues :: markers,
            found)
        else
          .ok ([unrecognizedMarker u rootId schema.schemaSetVersion level parsedValues],
            some (issue level .invalidLevelValue))

/-- `str.strip("/")` after the replacement of backslashes. -/
def cleanPath (relativePath : Text) : Text :=
  ((relativePath.map fun c => if c = '\\' then '/' else c).dropWhile (· = '/')).rdropWhile
    (· = '/')

def pathParts (path : Text) : List Text := (path.splitOn '/').filter (· ≠ [])

/-- What `build_item` reads of a file. -/
structure FileRecord where
  relativePath : Text
  sizeBytes : ℕ
  modifiedAt : Text
  identity : Text
  deriving DecidableEq, Repr

def buildItem (rootId displayPrefix : Text) (schema : Schema) (file : FileRecord) :
    Except SearchError Item :=
  let clean := cleanPath file.relativePath
  match (pathParts clean).getLast? with
  | none => .error .raised
  | some filename => do
    let (markers, found) ←
      parseDirectories u rootId schema [] (pathParts clean).dropLast
    return {
      itemId := file.identity
      location := {
        rootId := rootId
        relativePath := clean
        displayPath := if displayPrefix = [] then clean
          else displayPrefix.rdropWhile (· = '/') ++ '/' :: clean }
      filename := filename
      markers := markers
      extension := extension filename
      sizeBytes := file.sizeBytes
      modifiedAt := file.modifiedAt
      structureIssue := found }

end Build

section Matching

variable (u : Library)

def markerWeight (marker : Marker) : ℕ :=
  if marker.levelId = "level-project".toList then 4
  else if marker.levelId = "level-company".toList then 3
  else 1

/-- `_path_stream`. -/
def pathStream (item : Item) : List Text := tokens u.toUnicode item.location.relativePath

def markerStream (marker : Marker) : Option (ℕ × List Text) :=
  if marker.kind = .value then
    some (markerWeight marker, tokens u.toUnicode (marker.rawValue.getD []))
  else none

/-- `_field_streams`. -/
def fieldStreams (item : Item) : List (ℕ × List Text) :=
  ((5, tokens u.toUnicode item.filename) :: item.markers.filterMap (markerStream u) ++
    [(1, pathStream u item)]).filter (·.2 ≠ [])

/-- `_contains_phrase`. -/
def containsPhrase (stream phrase : List Text) : Bool :=
  (List.range (stream.length + 1 - phrase.length)).any fun offset =>
    (stream.drop offset).take phrase.length = phrase

theorem containsPhrase_iff {stream phrase : List Text} :
    containsPhrase stream phrase = true ↔ phrase <:+: stream := by
  unfold containsPhrase
  rw [List.any_eq_true]
  constructor
  · rintro ⟨offset, _, hfound⟩
    rw [← of_decide_eq_true hfound]
    exact (List.take_prefix _ _).isInfix.trans (List.drop_suffix _ _).isInfix
  · rintro ⟨before, after, rfl⟩
    refine ⟨before.length, ?_, ?_⟩
    · rw [List.mem_range]
      simp only [List.length_append]
      omega
    · simp

def termWeights (streams : List (ℕ × List Text)) (term : Text) : List ℕ :=
  streams.flatMap fun (weight, tokens) =>
    (tokens.filter (term <+: ·)).map fun token => weight * if token = term then 2 else 1

def termScore (streams : List (ℕ × List Text)) (term : Text) : Option ℕ :=
  (termWeights streams term).max?

def phraseScore (streams : List (ℕ × List Text)) (path phrase : List Text) : Option ℕ :=
  let sameField := (streams.filter fun stream => containsPhrase stream.2 phrase).map Prod.fst
  if sameField = [] ∧ containsPhrase path phrase = false then none
  else some (2 * phrase.length * (sameField.max?).getD 1)

/-- `_matches_and_score`. -/
def matchesAndScore (query : Query) (item : Item) : Option ℕ := do
  let streams := fieldStreams u item
  let terms ← query.terms.mapM (termScore streams)
  let phrases ← query.phrases.mapM (phraseScore streams (pathStream u item))
  return terms.sum + phrases.sum

def chainOf (item : Item) : List Text := item.markers.map (·.markerId)

/-- `_selected_chain`; the search for an unknown marker never finds one. -/
def selectedChain (items : List Item) (selected : List Text) : Except SearchError (List Item) :=
  if selected = [] then .ok items
  else if ¬selected.Nodup then .error .invalidMarkerSelection
  else
    let possible := items.filter fun item =>
      selected.length ≤ item.markers.length ∧ (chainOf item).take selected.length = selected
    if possible = [] then .error .invalidMarkerSelection
    else if ¬items.any fun item => selected.getLast?.any (· ∈ chainOf item) then
      .error .invalidMarkerSelection
    else .ok possible

end Matching

section Facets

variable (u : Library)

/-- The markers of a level with their counts, in the order in which they were found. -/
abbrev Groups := List (Marker × ℕ)

def tally (groups : Groups) (marker : Marker) : Groups :=
  if groups.any fun known => known.1.markerId = marker.markerId then
    groups.map fun known =>
      if known.1.markerId = marker.markerId then (known.1, known.2 + 1) else known
  else groups ++ [(marker, 1)]

structure Facet where
  levelId : Text
  levelName : Text
  options : Groups
  deriving DecidableEq, Repr

abbrev OptionKey := Bool ×ₗ NaturalKey ×ₗ Text ×ₗ Text

def optionKey (marker : Marker) : OptionKey :=
  toLex (decide (marker.kind = .unrecognized), toLex (naturalKey u.toUnicode marker.displayValue,
    toLex (marker.rawValue.getD [], marker.markerId)))

/-- `_facet_from_groups`. -/
def facetFromGroups (groups : Groups) (facetPrefix : Text) : Option Facet :=
  groups.head?.map fun first =>
    let choices := groups.filter fun known =>
      casefold u.toUnicode facetPrefix <+: casefold u.toUnicode known.1.displayValue
    { levelId := first.1.levelId
      levelName := first.1.levelName
      options := choices.insertionSort fun a b => optionKey u a.1 ≤ optionKey u b.1 }

def groupsAt (candidates : List Item) (depth : ℕ) : Groups :=
  (candidates.filterMap fun item => item.markers[depth]?).foldl tally []

/-- `_facet`. -/
def facetOf (candidates : List Item) (selectedLength : ℕ) (facetPrefix : Text) : Option Facet :=
  facetFromGroups u (groupsAt candidates selectedLength) facetPrefix

end Facets

section Responses

variable (u : Library)

inductive SortField where
  | relevance | path | name | modifiedAt | size
  deriving DecidableEq, Repr

inductive Direction where
  | asc | desc
  deriving DecidableEq, Repr

structure SearchSort where
  field : SortField
  direction : Direction
  deriving DecidableEq, Repr

abbrev PathTie := NaturalKey ×ₗ Text ×ₗ Text

/-- `_path_tie`. -/
def pathTie (item : Item) : PathTie :=
  toLex (naturalKey u.toUnicode item.location.relativePath,
    toLex (item.location.relativePath, item.itemId))

/-- `list.sort`, which keeps the order of equal rows, also when it is reversed. -/
def sortBy {α K : Type} [LinearOrder K] (direction : Direction) (key : α → K) (rows : List α) :
    List α :=
  match direction with
  | .asc => rows.insertionSort fun a b => key a ≤ key b
  | .desc => rows.insertionSort fun a b => key b ≤ key a

abbrev Row := Item × ℕ

/-- `_sort_rows`. -/
def sortRows (rows : List Row) (sort : SearchSort) : Except SearchError (List Item) :=
  let ties := sortBy .asc (fun row : Row => pathTie u row.1) rows
  match sort.field with
  | .relevance =>
    match sort.direction with
    | .asc => .error .invalidQuery
    | .desc => .ok ((sortBy .asc (fun row : Row => (toLex (OrderDual.toDual row.2,
        pathTie u row.1) : ℕᵒᵈ ×ₗ PathTie)) rows).map Prod.fst)
  | .path => .ok ((sortBy sort.direction (fun row : Row => pathTie u row.1) rows).map Prod.fst)
  | .name => .ok ((sortBy sort.direction
      (fun row : Row => naturalKey u.toUnicode row.1.filename) ties).map Prod.fst)
  | .modifiedAt => do
    let keyed ← ties.mapM fun row => do
      return (← instantSortKey u.toUnicode row.1.modifiedAt, row.1)
    return (sortBy sort.direction Prod.fst keyed).map Prod.snd
  | .size => .ok ((sortBy sort.direction (fun row : Row => row.1.sizeBytes) ties).map Prod.fst)

structure SearchRoot where
  rootId : Text
  displayPrefix : Text
  schemaSetVersion : Text
  indexGeneration : Text
  indexedAt : Text
  deriving DecidableEq, Repr

structure FacetRequest where
  requestStateId : Text
  rootId : Text
  schemaSetVersion : Text
  selectedMarkerIds : List Text
  queryText : Text
  facetPrefix : Text
  deriving DecidableEq, Repr

structure SearchRequest extends FacetRequest where
  sort : SearchSort
  deriving DecidableEq, Repr

inductive Mode where
  | idle | results
  deriving DecidableEq, Repr

/-- The fields that a response takes from its root and its request. -/
structure ResponseHead where
  requestStateId : Text
  rootId : Text
  schemaSetVersion : Text
  indexGeneration : Text
  deriving DecidableEq, Repr

/-- The count of the returned items is left to their list; the freshness is the time at which
the root was indexed. -/
structure SearchResponse extends ResponseHead where
  mode : Mode
  appliedQueryText : Text
  selectedMarkers : List Marker
  total : Option ℕ
  resultLimit : ℕ
  limited : Bool
  items : List Item
  nextFacet : Option Facet
  indexedAt : Text
  deriving DecidableEq, Repr

structure FacetResponse extends ResponseHead where
  facet : Option Facet
  deriving DecidableEq, Repr

def responseHead (root : SearchRoot) (request : FacetRequest) : ResponseHead :=
  ⟨request.requestStateId, root.rootId, root.schemaSetVersion, root.indexGeneration⟩

/-- `_validate_context`. -/
def validateContext (root : SearchRoot) (request : FacetRequest) : Except SearchError Unit :=
  if request.rootId ≠ root.rootId then .error .invalidMarkerSelection
  else if request.schemaSetVersion ≠ root.schemaSetVersion then .error .schemaVersionChanged
  else .ok ()

def idleResponse (root : SearchRoot) (request : FacetRequest) (limit : ℕ)
    (nextFacet : Option Facet) : SearchResponse where
  toResponseHead := responseHead root request
  mode := .idle
  appliedQueryText := []
  selectedMarkers := []
  total := none
  resultLimit := limit
  limited := false
  items := []
  nextFacet := nextFacet
  indexedAt := root.indexedAt

def resultsResponse (root : SearchRoot) (request : FacetRequest) (limit : ℕ)
    (appliedQueryText : Text) (selectedMarkers : List Marker) (total : ℕ) (items : List Item)
    (nextFacet : Option Facet) : SearchResponse where
  toResponseHead := responseHead root request
  mode := .results
  appliedQueryText := appliedQueryText
  selectedMarkers := selectedMarkers
  total := some total
  resultLimit := limit
  limited := decide (limit < total)
  items := items
  nextFacet := nextFacet
  indexedAt := root.indexedAt

/-- `candidates[0]["markers"][: len(selected)] if selected and candidates else []`. -/
def leadingMarkers (candidates : List Item) (selected : List Text) : List Marker :=
  if selected = [] then []
  else ((candidates.head?).map fun item => item.markers.take selected.length).getD []

def matchingRows (query : Query) (candidates : List Item) : List Row :=
  candidates.filterMap fun item => (matchesAndScore u query item).map fun score => (item, score)

/-- `search` without a prepared index. -/
def search (root : SearchRoot) (items : List Item) (request : SearchRequest) (limit : ℕ) :
    Except SearchError SearchResponse := do
  validateContext root request.toFacetRequest
  if limit < 1 then .error .raised
  let query ← parseQuery u.toUnicode request.queryText
  let selected := request.selectedMarkerIds
  let candidates ← selectedChain items selected
  if request.sort.field = .relevance ∧ query.blank then .error .invalidQuery
  if selected = [] ∧ query.blank then
    return idleResponse root request.toFacetRequest limit
      (facetOf u candidates selected.length request.facetPrefix)
  let matching := matchingRows u query candidates
  let returned ← sortRows u matching request.sort
  return resultsResponse root request.toFacetRequest limit query.appliedText
    (leadingMarkers candidates selected) matching.length (returned.take limit)
    (facetOf u (matching.map Prod.fst) selected.length request.facetPrefix)

/-- `facet` without a prepared index. -/
def facet (root : SearchRoot) (items : List Item) (request : FacetRequest) :
    Except SearchError FacetResponse := do
  validateContext root request
  let query ← parseQuery u.toUnicode request.queryText
  let selected := request.selectedMarkerIds
  let candidates ← selectedChain items selected
  let matching := candidates.filter fun item => (matchesAndScore u query item).isSome
  return { toResponseHead := responseHead root request
           facet := facetOf u matching selected.length request.facetPrefix }

end Responses

/-! A small root on ASCII text, whose marker identifiers keep what they would hash. -/

def plain : Library := { ascii with digest := id }

def smallSchema : Schema where
  schemaSetVersion := "v1".toList
  rootLevels := [⟨"level-section".toList, "Раздел".toList, ["Archive".toList], false⟩,
    ⟨"level-company".toList, "Компания".toList, ["Atlas".toList, "Nova".toList], false⟩]
  tailByCompany := [("Atlas".toList,
    [⟨"level-category".toList, "Категория".toList, ["Reports".toList], true⟩])]

def smallItem (relativePath : Text) (markers : List Marker) : Item where
  itemId := relativePath
  location := ⟨"archive".toList, relativePath, relativePath⟩
  filename := "a.txt".toList
  markers := markers
  extension := ".txt".toList
  sizeBytes := 3
  modifiedAt := "2024-01-01T00:00:00Z".toList
  structureIssue := none

example : buildItem plain "archive".toList [] smallSchema
    ⟨"Archive\\Atlas\\a.txt".toList, 3, "2024-01-01T00:00:00Z".toList,
      "Archive/Atlas/a.txt".toList⟩ =
    .ok (smallItem "Archive/Atlas/a.txt".toList
      [valueMarker plain "archive".toList "v1".toList
          ⟨"level-section".toList, "Раздел".toList, ["Archive".toList], false⟩
          "Archive".toList [],
        valueMarker plain "archive".toList "v1".toList
          ⟨"level-company".toList, "Компания".toList, ["Atlas".toList, "Nova".toList], false⟩
          "Atlas".toList ["Archive".toList]]) := by decide +kernel

end Search
