import WiseWay.NaturalBlob
import WiseWay.Search

/-! # The SQLite search tables

What `sqlite_search.py` stores of an item and how a generation of items is created, filled,
activated and deleted. Bytes are numbers; the order of a `BLOB` is that of its bytes. -/
namespace SearchTables

open Records SearchText Search

/-! Encodings. -/

/-- `str.encode`. -/
def encode (text : Text) : List ℕ := (NaturalBlob.utf8 text).map UInt8.toNat

/-- `_encoded_token`. -/
def encodedToken (token : Text) : Text := 'x' :: NaturalBlob.hex (NaturalBlob.utf8 token)

/-- `_encoded_stream`. -/
def encodedStream (tokens : List Text) : Text := joinWith [' '] (tokens.map encodedToken)

section Columns

variable (u : Library)

/-- `_natural_blob` of a value that has one: no run of its digits is too long for its length. -/
def naturalBlob (value : Text) : List ℕ :=
  ((NaturalBlob.naturalBlob u.toUnicode value).toOption.getD []).map UInt8.toNat

def sentinel : Text := ['s']

inductive Bucket where
  | project | company | markers
  deriving DecidableEq, Repr

def bucketOf (marker : Marker) : Bucket :=
  if marker.levelId = "level-project".toList then .project
  else if marker.levelId = "level-company".toList then .company
  else .markers

/-- The streams of the value markers that belong in a bucket. -/
def bucket (item : Item) (target : Bucket) : List Text :=
  ((item.markers.filter fun marker => marker.kind = .value ∧ bucketOf marker = target).map
    fun marker => encodedStream (tokens u.toUnicode (marker.rawValue.getD []))).filter (· ≠ [])

/-- A sentinel stands between two markers of one column. -/
def joined (item : Item) (target : Bucket) : Text :=
  joinWith (' ' :: sentinel ++ [' ']) (bucket u item target)

structure Columns where
  filename : Text
  project : Text
  company : Text
  markers : Text
  path : Text
  deriving DecidableEq, Repr

/-- `_columns`. -/
def columns (item : Item) : Columns where
  filename := encodedStream (tokens u.toUnicode item.filename)
  project := joined u item .project
  company := joined u item .company
  markers := joined u item .markers
  path := encodedStream (tokens u.toUnicode item.location.relativePath)

end Columns

/-! Tables. -/

inductive GenerationState where
  | building | ready | active
  deriving DecidableEq, Repr

structure GenerationRow (G : Type) where
  generationId : G
  rootId : Text
  state : GenerationState
  deriving DecidableEq, Repr

/-- A row of `search_items`; its body is the item. -/
structure ItemRow (G : Type) where
  rowId : ℕ
  generationId : G
  itemNo : ℕ
  item : Item
  filenameKey : List ℕ
  pathKey : List ℕ
  modifiedKey : Text
  deriving DecidableEq, Repr

structure ItemMarkerRow (G : Type) where
  generationId : G
  rowId : ℕ
  depth : ℕ
  markerId : Text
  deriving DecidableEq, Repr

/-- A row of `search_markers`; its JSON text is the marker. -/
structure MarkerRow (G : Type) where
  generationId : G
  parentMarkerId : Option Text
  depth : ℕ
  marker : Marker
  unrecognized : Bool
  displayFolded : List ℕ
  displayKey : List ℕ
  rawValue : Text
  deriving DecidableEq, Repr

/-- A row of the index `search_fts`; the token of a generation is the generation. -/
structure FtsRow (G : Type) where
  rowId : ℕ
  generation : G
  columns : Columns
  deriving DecidableEq, Repr

/-- The rows of a table stand in the order of their insertion. -/
structure Tables (G : Type) where
  generations : List (GenerationRow G) := []
  items : List (ItemRow G) := []
  itemMarkers : List (ItemMarkerRow G) := []
  markers : List (MarkerRow G) := []
  fts : List (FtsRow G) := []

/-- A `ValueError`, or an `sqlite3.IntegrityError`. -/
inductive TableError where
  | valueError | integrityError
  deriving DecidableEq, Repr

section Generations

variable (u : Library) {G : Type} [DecidableEq G]

def generationOf (t : Tables G) (generationId : G) : Option (GenerationRow G) :=
  t.generations.find? (·.generationId = generationId)

def createGeneration (t : Tables G) (rootId : Text) (generationId : G) :
    Except TableError (Tables G) :=
  if (generationOf t generationId).isSome then .error .integrityError
  else .ok { t with generations := t.generations ++ [⟨generationId, rootId, .building⟩] }

def nextRowId (t : Tables G) : ℕ := ((t.items.map (·.rowId)).max?).getD 0 + 1

/-- `COALESCE(MAX(item_no) + 1, 0)`. -/
def nextNo (t : Tables G) (generationId : G) : ℕ :=
  (((t.items.filter (·.generationId = generationId)).map (·.itemNo + 1)).max?).getD 0

def markerRow (generationId : G) (parent : Option Text) (depth : ℕ) (marker : Marker) :
    MarkerRow G where
  generationId := generationId
  parentMarkerId := parent
  depth := depth
  marker := marker
  unrecognized := marker.kind = .unrecognized
  displayFolded := encode (casefold u.toUnicode marker.displayValue)
  displayKey := naturalBlob u marker.displayValue
  rawValue := marker.rawValue.getD []

/-- The rows of the markers of an item, from a depth on. -/
def markerRows (generationId : G) : Option Text → ℕ → List Marker → List (MarkerRow G)
  | _, _, [] => []
  | parent, depth, marker :: markers =>
    markerRow u generationId parent depth marker ::
      markerRows generationId (some marker.markerId) (depth + 1) markers

/-- `INSERT OR IGNORE INTO search_markers`. -/
def insertMarker (rows : List (MarkerRow G)) (row : MarkerRow G) : List (MarkerRow G) :=
  if rows.any fun known =>
      known.generationId = row.generationId ∧ known.marker.markerId = row.marker.markerId then rows
  else rows ++ [row]

def itemMarkerRows (generationId : G) (rowId : ℕ) (markers : List Marker) :
    List (ItemMarkerRow G) :=
  markers.zipIdx.map fun (marker, depth) => ⟨generationId, rowId, depth, marker.markerId⟩

def itemRow (generationId : G) (rowId itemNo : ℕ) (item : Item) (modifiedKey : Text) :
    ItemRow G where
  rowId := rowId
  generationId := generationId
  itemNo := itemNo
  item := item
  filenameKey := naturalBlob u item.filename
  pathKey := naturalBlob u item.location.relativePath
  modifiedKey := modifiedKey

def ftsRow (row : ItemRow G) : FtsRow G := ⟨row.rowId, row.generationId, columns u row.item⟩

/-- One turn of the loop of `add_items`. -/
def addItem (generationId : G) (t : Tables G) (itemNo : ℕ) (item : Item) :
    Except TableError (Tables G) :=
  match instantSortKey u.toUnicode item.modifiedAt with
  | .error _ => .error .valueError
  | .ok modifiedKey =>
    if t.items.any fun row => row.generationId = generationId ∧
        (row.item.itemId = item.itemId ∨ row.itemNo = itemNo) then .error .integrityError
    else
      let row := itemRow u generationId (nextRowId t) itemNo item modifiedKey
      .ok { t with
        items := t.items ++ [row]
        itemMarkers := t.itemMarkers ++ itemMarkerRows generationId row.rowId item.markers
        markers := (markerRows u generationId none 0 item.markers).foldl insertMarker t.markers
        fts := t.fts ++ [ftsRow u row] }

def addItems (t : Tables G) (generationId : G) (rows : List Item) :
    Except TableError (Tables G) :=
  if (generationOf t generationId).any (·.state = .building) then
    (rows.zipIdx (nextNo t generationId)).foldlM
      (fun t (item, itemNo) => addItem u generationId t itemNo item) t
  else .error .valueError

/-- `UPDATE search_generations SET state=?`. -/
def setState (t : Tables G) (selected : GenerationRow G → Bool) (state : GenerationState) :
    Tables G :=
  { t with generations := t.generations.map fun row =>
      if selected row then { row with state := state } else row }

def finish (t : Tables G) (generationId : G) : Except TableError (Tables G) :=
  if (generationOf t generationId).any (·.state = .building) then
    .ok (setState t (fun row => row.generationId = generationId ∧ row.state = .building) .ready)
  else .error .valueError

def activateGeneration (t : Tables G) (generationId : G) : Except TableError (Tables G) :=
  match generationOf t generationId with
  | some row =>
    if row.state = .ready then
      .ok (setState (setState t (fun other => other.rootId = row.rootId ∧ other.state = .active)
        .ready) (·.generationId = generationId) .active)
    else .error .valueError
  | none => .error .valueError

/-- The rows of a generation that one call deletes. -/
def deletedRows (t : Tables G) (generationId : G) (batchSize : ℕ) : List (ItemRow G) :=
  (t.items.filter (·.generationId = generationId)).take batchSize

/-- `DELETE FROM search_items` with its markers, and the `delete` command of the index. -/
def deleteRows (t : Tables G) (rowIds : List ℕ) : Tables G :=
  { t with
    items := t.items.filter (·.rowId ∉ rowIds)
    itemMarkers := t.itemMarkers.filter (·.rowId ∉ rowIds)
    fts := t.fts.filter (·.rowId ∉ rowIds) }

/-- `DELETE FROM search_generations` and what refers to the generation. -/
def dropGeneration (t : Tables G) (generationId : G) : Tables G :=
  { t with
    generations := t.generations.filter (·.generationId ≠ generationId)
    items := t.items.filter (·.generationId ≠ generationId)
    itemMarkers := t.itemMarkers.filter (·.generationId ≠ generationId)
    markers := t.markers.filter (·.generationId ≠ generationId) }

/-- `delete_generation`; `pointed` are the generations of the published indexes. -/
def deleteGeneration (t : Tables G) (pointed : List G) (generationId : G) (batchSize : ℕ) :
    Except TableError (Bool × Tables G) :=
  if batchSize < 1 then .error .valueError
  else
    match generationOf t generationId with
    | none => .ok (true, t)
    | some row =>
      if row.state = .active then .error .valueError
      else if generationId ∈ pointed then .error .valueError
      else
        let rows := deletedRows t generationId batchSize
        if rows = [] then .ok (true, dropGeneration t generationId)
        else .ok (false, deleteRows t (rows.map (·.rowId)))

end Generations

end SearchTables
