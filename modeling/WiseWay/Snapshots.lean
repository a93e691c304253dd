import Mathlib.Data.List.Sort
import Mathlib.Data.List.Lex
import WiseWay.JsonTexts
import WiseWay.PosixPaths
import WiseWay.FileStores
import WiseWay.Sha256

/-! # Cold snapshots of an installation

Creating and restoring verified copies of the data and sandbox trees. Paths are given resolved
and nothing else writes in the meantime; SQLite is a parameter, which reads a database from the
bytes of its main file, write-ahead log and shared-memory file. -/
namespace Snapshots

open TextCodecs JsonTexts PosixPaths OrderedDicts FileStores Sha256

abbrev Name := {name : Str // ValidName name}

abbrev FilePath := List Name

abbrev Files := FileSystem Name Bytes

def maxManifestBytes : ℕ := 16 * 1024 * 1024
def maxFiles : ℕ := 100000
def maxNodes : ℕ := 100000
def maxDepth : ℕ := 128

def nameOf (name : Str) : Option Name := if h : ValidName name then some ⟨name, h⟩ else none

def dataName : Name := ⟨str "data", by decide⟩
def sandboxName : Name := ⟨str "sandbox", by decide⟩
def manifestName : Name := ⟨str "manifest.json", by decide⟩
def markerName : Name := ⟨str ".wiseway-sandbox.json", by decide⟩
def lockName : Name := ⟨str "archive-indexer.lock", by decide⟩
def databaseName : Name := ⟨str "wiseway.sqlite3", by decide⟩
def walName : Name := ⟨str "wiseway.sqlite3-wal", by decide⟩
def shmName : Name := ⟨str "wiseway.sqlite3-shm", by decide⟩

/-- What the source does to refuse: unless the condition holds, there is no result. -/
def ensure (p : Prop) [Decidable p] : Option Unit := if p then some () else none

theorem ensure_of {p : Prop} [Decidable p] (h : p) : ensure p = some () := if_pos h

theorem ensure_eq_some {p : Prop} [Decidable p] {u : Unit} : ensure p = some u ↔ p := by
  unfold ensure
  split
  · next h => simp [h]
  · next h => simp [h]

def check {σ : Type} (p : Prop) [Decidable p] : Run σ Unit := reads fun _ => ensure p

def fileAt (fs : Files) (path : FilePath) : Option Bytes :=
  match fs.get path with
  | some (.file content) => some content
  | _ => none

def requireDirectory (fs : Files) (path : FilePath) : Option Unit :=
  ensure (fs.get path = some .directory)

/-! ## Scanning -/

structure FileEntry where
  path : Str
  source : FilePath
  deriving DecidableEq

structure Found where
  files : List FileEntry
  directories : List Str
  deriving DecidableEq

def pathUnder (top : Str) (relative : List Name) : Str :=
  top ++ slash :: (PurePath.mk [] (relative.map Subtype.val)).asPosix

def visitEntry (fs : Files) (top : Str)
    (visit : FilePath → List Name → Found → Option Found) (directory : FilePath)
    (relative : List Name) (found : Found) (entry : Name) : Option Found :=
  let child := directory ++ [entry]
  let childRelative := relative ++ [entry]
  match fs.get child with
  | none => none
  | some details =>
    if maxDepth < childRelative.length then none
    else match details with
      | .directory =>
        visit child childRelative
          { found with directories := found.directories ++ [pathUnder top childRelative] }
      | .file _ =>
        let files := found.files ++ [⟨pathUnder top childRelative, child⟩]
        if maxFiles < files.length ∨ maxNodes < files.length + found.directories.length then none
        else some { found with files := files }
      | .other _ => none

def sortedNames (fs : Files) (directory : FilePath) : List Name :=
  (fs.names directory).insertionSort (· ≤ ·)

/-- The walk below a directory. The depth check ends it before the fuel does. -/
def visit (fs : Files) (top : Str) : ℕ → FilePath → List Name → Found → Option Found
  | 0, _, _, _ => none
  | fuel + 1, directory, relative, found =>
    if fs.get directory = some .directory then
      (sortedNames fs directory).foldlM (visitEntry fs top (visit fs top fuel) directory relative)
        found
    else none

def scanTree (fs : Files) (root : FilePath) (top : Str) : Option Found :=
  match visit fs top (maxDepth + 1) root [] ⟨[], [top]⟩ with
  | none => none
  | some found =>
    if maxNodes < found.files.length + found.directories.length then none else some found

/-! ## Copying -/

structure Entry where
  path : Str
  sha256 : Str
  sizeBytes : ℕ
  deriving DecidableEq

def hashAndCopy (source target : FilePath) : Run Files (Str × ℕ) := do
  let content ← reads fun fs => fileAt fs source
  createFile target content
  pure (hexdigest content, content.length)

def relativeTo (top path : Str) : Option (List Name) :=
  ((parsePath path).relativeTo (parsePath top)).bind fun names => names.mapM nameOf

/-- Directories by their number of slashes, then by their texts. -/
def shallower (a b : Str) : Prop :=
  a.count slash < b.count slash ∨ (a.count slash = b.count slash ∧ a ≤ b)

instance : DecidableRel shallower :=
  fun _ _ => inferInstanceAs (Decidable (_ ∨ (_ ∧ _)))

def copyDirectory (targetRoot : FilePath) (top directory : Str) : Run Files Unit := do
  let relative ← reads fun _ => relativeTo top directory
  if relative = [] then pure () else mkdir (targetRoot ++ relative)

def copyFile (targetRoot : FilePath) (top : Str) (item : FileEntry) : Run Files Entry := do
  let relative ← reads fun _ => relativeTo top item.path
  let (digest, size) ← hashAndCopy item.source (targetRoot ++ relative)
  pure ⟨item.path, digest, size⟩

def fsyncDirectory (path : FilePath) : Run Files Unit :=
  reads fun fs => ensure (fs.get path ≠ none)

def syncDirectory (targetRoot : FilePath) (top directory : Str) : Run Files Unit := do
  let relative ← reads fun _ => relativeTo top directory
  fsyncDirectory (targetRoot ++ relative)

def copyTree (files : List FileEntry) (targetRoot : FilePath) (top : Str)
    (directories : List Str) : Run Files (List Entry) := do
  let sorted := directories.insertionSort shallower
  sorted.forM (copyDirectory targetRoot top)
  let manifest ← files.mapM (copyFile targetRoot top)
  sorted.reverse.forM (syncDirectory targetRoot top)
  pure manifest

/-! ## The database -/

inductive Cell
  | text (s : Str)
  | blob (bytes : Bytes)
  | other

inductive WorkKind
  | batch
  | attempt
  | return_

structure Row where
  kind : WorkKind
  identifier : Str
  body : Cell

/-- What the queries on an open database return. -/
structure DatabaseView where
  integrityOk : Bool
  migrated : Bool
  bootstrap : Option Cell
  rows : List Row

abbrev ReadDatabase := Bytes → Option Bytes → Option Bytes → Option DatabaseView

abbrev Members := List (Str × Json)

def loadsCell : Cell → Option Json
  | .text s => loadsText s
  | .blob bytes => loads bytes
  | .other => none

def objectOf : Option Json → Option Members
  | some (.obj members) => some members
  | _ => none

def strOf : Option Json → Option Str
  | some (.str s) => some s
  | _ => none

def isTrue : Option Json → Bool
  | some (.bool true) => true
  | _ => false

structure DurableWork where
  batches : OrderedDict Str Members
  attempts : OrderedDict Str (List Members)

def readRow (work : DurableWork) (row : Row) : Option DurableWork :=
  match objectOf (loadsCell row.body) with
  | none => none
  | some body =>
    match row.kind with
    | .batch => some { work with batches := work.batches.set row.identifier body }
    | .attempt =>
      match strOf (Json.get body (str "phase")), strOf (Json.get body (str "batch_id")) with
      | some phase, some batchId =>
        if phase ≠ str "DONE" then none
        else
          let related := (work.attempts.get batchId).getD []
          some { work with attempts := work.attempts.set batchId (related ++ [body]) }
      | _, _ => none
    | .return_ =>
      let phase := strOf (Json.get body (str "phase"))
      if phase = some (str "DONE") ∨ phase = some (str "REJECTED") then some work else none

def batchIdOf (identifier : Str) (batch : Members) : Option Str :=
  match Json.get batch (str "batch_id") with
  | none => some identifier
  | some value => strOf (some value)

def checkBatch (work : DurableWork) (entry : Str × Members) : Option Unit :=
  match batchIdOf entry.1 entry.2, Json.get entry.2 (str "selected_count") with
  | some batchId, some (.int selectedCount) =>
    let related := (work.attempts.get batchId).getD []
    if selectedCount < 0 then none
    else if 0 < selectedCount ∧ (related.length : ℤ) < selectedCount then none
    else if strOf (Json.get entry.2 (str "status")) = some (str "RUNNING") then none
    else some ()
  | _, _ => none

def validateDatabaseCopy (view : DatabaseView) : Option Unit :=
  if ¬ view.integrityOk ∨ ¬ view.migrated then none
  else match view.bootstrap with
    | none => none
    | some bootstrap =>
      match objectOf (loadsCell bootstrap) with
      | none => none
      | some body =>
        if isTrue (Json.get body (str "complete")) then
          match view.rows.foldlM readRow ⟨.empty, .empty⟩ with
          | none => none
          | some work => work.batches.entries.forM (checkBatch work)
        else none

/-- A file that may be absent; a link that leads nowhere counts as absent. -/
def optionalFile (fs : Files) (path : FilePath) : Option (Option Bytes) :=
  match fs.get path with
  | none => some none
  | some (.file content) => some (some content)
  | some .directory => none
  | some (.other reached) => if reached then none else some none

def validateDatabase (readDatabase : ReadDatabase) (fs : Files) (dataDir : FilePath) :
    Option Unit := do
  let main ← fileAt fs (dataDir ++ [databaseName])
  let wal ← optionalFile fs (dataDir ++ [walName])
  let shm ← optionalFile fs (dataDir ++ [shmName])
  let view ← readDatabase main wal shm
  validateDatabaseCopy view

/-! ## The sandbox marker -/

def maxMarkerBytes : ℕ := 1024 * 1024

/-- Reading in text mode makes every kind of line end a newline. -/
def newlines : Str → Str
  | [] => []
  | 13 :: 10 :: rest => 10 :: newlines rest
  | 13 :: rest => 10 :: newlines rest
  | c :: rest => c :: newlines rest

def validMarker (payload : Members) : Prop :=
  strOf (Json.get payload (str "product")) = some (str "Wise Way") ∧
    isTrue (Json.get payload (str "synthetic")) ∧
    isTrue (Json.get payload (str "bootstrap_complete"))

instance (payload : Members) : Decidable (validMarker payload) :=
  inferInstanceAs (Decidable (_ ∧ _ ∧ _))

def validateMarker (fs : Files) (sandboxDir : FilePath) : Option Unit := do
  let content ← fileAt fs (sandboxDir ++ [markerName])
  ensure (content.length ≤ maxMarkerBytes)
  let text ← decodeUtf8 false content
  let payload ← objectOf (loadsText (newlines text))
  ensure (validMarker payload)

/-! ## The manifest -/

def format : Str := str "wiseway-offline-snapshot-v1"

def entryJson (entry : Entry) : Json :=
  .obj [(str "path", .str entry.path), (str "sha256", .str entry.sha256),
    (str "size_bytes", .int entry.sizeBytes)]

def manifestJson (entries : List Entry) (directories : List Str) : Json :=
  .obj [(str "format", .str format), (str "directories", .arr (directories.map Json.str)),
    (str "files", .arr (entries.map entryJson))]

def manifestBytes (entries : List Entry) (directories : List Str) : Option Bytes :=
  let payload := ascii (encode (manifestJson entries directories))
  if maxManifestBytes < payload.length then none else some payload

def validManifestPath (path : Str) (allowRoot : Bool) : Prop :=
  let pure := parsePath path
  ¬ pure.isAbsolute ∧ str ".." ∉ pure.parts ∧ pure.asPosix = path ∧
    if path = str "data" ∨ path = str "sandbox" then allowRoot = true
    else 2 ≤ pure.parts.length ∧ (str "data/" <+: path ∨ str "sandbox/" <+: path)

instance (path : Str) (allowRoot : Bool) : Decidable (validManifestPath path allowRoot) :=
  inferInstanceAs (Decidable (_ ∧ _ ∧ _ ∧ ite _ _ _))

def sizeField : Option Json → Option ℕ
  | some (.int i) => if i < 0 then none else some i.toNat
  | _ => none

def readEntry (seen : List Str) (entry : Json) : Option Entry := do
  let members ← objectOf (some entry)
  let path ← strOf (Json.get members (str "path"))
  let digest ← strOf (Json.get members (str "sha256"))
  let size ← sizeField (Json.get members (str "size_bytes"))
  if validManifestPath path false ∧ digest.length = 64 ∧ (∀ c ∈ digest, HexDigit c) ∧ path ∉ seen
  then some ⟨path, digest, size⟩
  else none

def appendEntry (entries : List Entry) (entry : Json) : Option (List Entry) := do
  let read ← readEntry (entries.map Entry.path) entry
  if maxFiles < entries.length + 1 then none else some (entries ++ [read])

def appendDirectory (files : List Str) (directories : List Str) (directory : Json) :
    Option (List Str) := do
  let path ← strOf (some directory)
  if validManifestPath path true ∧ path ∉ files ∧ path ∉ directories then
    some (directories ++ [path])
  else none

def itemsOf : Option Json → Option (List Json)
  | some (.arr items) => some items
  | _ => none

structure Manifest where
  raw : Bytes
  entries : List Entry
  directories : List Str
  deriving DecidableEq

def loadManifest (fs : Files) (snapshot : FilePath) : Option Manifest := do
  let raw ← fileAt fs (snapshot ++ [manifestName])
  ensure (raw.length ≤ maxManifestBytes)
  let parsed ← objectOf (loads raw)
  ensure (strOf (Json.get parsed (str "format")) = some format)
  let files ← itemsOf (Json.get parsed (str "files"))
  let listed ← itemsOf (Json.get parsed (str "directories"))
  let entries ← files.foldlM appendEntry []
  let directories ← listed.foldlM (appendDirectory (entries.map Entry.path)) []
  ensure (entries.length + directories.length ≤ maxNodes ∧ str "data" ∈ directories ∧
    str "sandbox" ∈ directories)
  some ⟨raw, entries, directories⟩

/-! ## Validating, creating and restoring -/

def sameSet {α : Type} [DecidableEq α] (xs ys : List α) : Prop :=
  (∀ x ∈ xs, x ∈ ys) ∧ ∀ y ∈ ys, y ∈ xs

instance {α : Type} [DecidableEq α] (xs ys : List α) : Decidable (sameSet xs ys) :=
  inferInstanceAs (Decidable (_ ∧ _))

def byPath (entries : List Entry) : OrderedDict Str Entry :=
  entries.foldl (fun declared entry => declared.set entry.path entry) .empty

def checkFile (fs : Files) (declared : OrderedDict Str Entry) (item : FileEntry) :
    Option Unit := do
  let content ← fileAt fs item.source
  let entry ← declared.get item.path
  ensure (hexdigest content = entry.sha256 ∧ content.length = entry.sizeBytes)

structure Validated where
  manifest : Manifest
  data : Found
  sandbox : Found

def validateSnapshot (readDatabase : ReadDatabase) (fs : Files) (snapshot : FilePath) :
    Option Validated := do
  requireDirectory fs snapshot
  ensure (sameSet (fs.names snapshot) [dataName, sandboxName, manifestName])
  requireDirectory fs (snapshot ++ [dataName])
  requireDirectory fs (snapshot ++ [sandboxName])
  let manifest ← loadManifest fs snapshot
  let data ← scanTree fs (snapshot ++ [dataName]) (str "data")
  let sandbox ← scanTree fs (snapshot ++ [sandboxName]) (str "sandbox")
  let actual := data.files ++ sandbox.files
  let declared := byPath manifest.entries
  ensure (sameSet declared.keys (actual.map FileEntry.path))
  ensure (sameSet manifest.directories (data.directories ++ sandbox.directories))
  actual.forM (checkFile fs declared)
  validateDatabase readDatabase fs (snapshot ++ [dataName])
  validateMarker fs (snapshot ++ [sandboxName])
  some ⟨manifest, data, sandbox⟩

def newDestination (destination : FilePath) (sources : List FilePath) : Run Files FilePath := do
  reads fun fs => ensure (fs.get destination = none)
  reads fun fs => requireDirectory fs destination.dropLast
  check (∀ source ∈ sources, ¬ source <+: destination ∧ ¬ destination <+: source)
  mkdir destination
  pure destination

/-- The lock file is created when it is not there, and stays. -/
def openLock (dataDir : FilePath) (fs : Files) : Option Files :=
  match fs.get (dataDir ++ [lockName]) with
  | none => fs.add (dataDir ++ [lockName]) (.file [])
  | some (.file _) => some fs
  | some _ => none

def entryLe (a b : Entry) : Prop := a.path ≤ b.path

instance : DecidableRel entryLe := fun a b => inferInstanceAs (Decidable (a.path ≤ b.path))

def copyTrees (data sandbox : Found) (target : FilePath) : Run Files (List Entry) := do
  mkdir (target ++ [dataName])
  mkdir (target ++ [sandboxName])
  let dataEntries ← copyTree data.files (target ++ [dataName]) (str "data") data.directories
  let sandboxEntries ←
    copyTree sandbox.files (target ++ [sandboxName]) (str "sandbox") sandbox.directories
  pure ((dataEntries ++ sandboxEntries).insertionSort entryLe)

def finishSnapshot (readDatabase : ReadDatabase) (target : FilePath) (content : Option Bytes) :
    Run Files FilePath := do
  reads fun fs => validateDatabase readDatabase fs (target ++ [dataName])
  reads fun fs => validateMarker fs (target ++ [sandboxName])
  let manifest ← reads fun _ => content
  createFile (target ++ [manifestName]) manifest
  fsyncDirectory target
  pure target

def createSnapshot (readDatabase : ReadDatabase) (data sandbox destination : FilePath) :
    Run Files FilePath := do
  reads fun fs => requireDirectory fs data
  reads fun fs => requireDirectory fs sandbox
  check (¬ data <+: sandbox ∧ ¬ sandbox <+: data)
  changes (openLock data)
  reads fun fs => validateDatabase readDatabase fs data
  reads fun fs => validateMarker fs sandbox
  let dataFound ← reads fun fs => scanTree fs data (str "data")
  let sandboxFound ← reads fun fs => scanTree fs sandbox (str "sandbox")
  check (dataFound.files.length + dataFound.directories.length + sandboxFound.files.length +
    sandboxFound.directories.length ≤ maxNodes)
  let target ← newDestination destination [data, sandbox]
  guarded target (do
    let entries ← copyTrees dataFound sandboxFound target
    finishSnapshot readDatabase target (manifestBytes entries
      ((dataFound.directories ++ sandboxFound.directories).insertionSort (· ≤ ·))))

def sameDict (a b : OrderedDict Str Entry) : Prop :=
  (∀ key ∈ a.keys, a.get key = b.get key) ∧ ∀ key ∈ b.keys, a.get key = b.get key

instance (a b : OrderedDict Str Entry) : Decidable (sameDict a b) :=
  inferInstanceAs (Decidable (_ ∧ _))

def restoreSnapshot (readDatabase : ReadDatabase) (snapshot destination : FilePath) :
    Run Files FilePath := do
  reads fun fs => requireDirectory fs snapshot
  let valid ← reads fun fs => validateSnapshot readDatabase fs snapshot
  let target ← newDestination destination [snapshot]
  guarded target (do
    let copied ← copyTrees valid.data valid.sandbox target
    check (sameDict (byPath copied) (byPath valid.manifest.entries))
    finishSnapshot readDatabase target (some valid.manifest.raw))

end Snapshots
