import WiseWay.PreparedSearch

/-! # The tokens of the path

A separator belongs to no token and marks no transition, so that the tokens of a path are those
of its components, one after the other. Everything an item is searched by is a component of its
path, which is why the path alone decides what matches. -/
namespace PathTokens

open Records SearchText Search

/-! ## Compiled schemas -/

structure CompiledLevel where
  levelId : Text
  levelName : Text
  foldedValues : List Text
  optional : Bool

structure CompiledSchema where
  schemaSetVersion : Text
  rootLevels : List CompiledLevel
  tailByCompany : List (Text × List CompiledLevel)

section Compiled

variable (u : Library)

def compileLevel (level : Level) : CompiledLevel :=
  ⟨level.levelId, level.levelName, level.values.map (casefold u.toUnicode), level.optional⟩

/-- `compile_schema`; of two companies with one folded name the later one stays. -/
def compileSchema (schema : Schema) : CompiledSchema where
  schemaSetVersion := schema.schemaSetVersion
  rootLevels := schema.rootLevels.map (compileLevel u)
  tailByCompany := schema.tailByCompany.map fun entry =>
    (casefold u.toUnicode entry.1, entry.2.map (compileLevel u))

def CompiledSchema.levels (compiled : CompiledSchema) (parsedValues : List Text) :
    List CompiledLevel :=
  let key := casefold u.toUnicode (parsedValues[1]?.getD "None".toList)
  compiled.rootLevels ++
    ((compiled.tailByCompany.reverse.find? fun entry => entry.1 = key).map Prod.snd).getD []

/-- A level as `_marker` and `_issue` read it. -/
def CompiledLevel.named (level : CompiledLevel) : Level :=
  ⟨level.levelId, level.levelName, [], level.optional⟩

/-- The loop of `build_item` with a compiled schema. -/
def parseCompiled (rootId : Text) (compiled : CompiledSchema) (parsedValues : List Text) :
    List Text → Except SearchError (List Marker × Option Issue)
  | [] =>
    let expected := compiled.levels u parsedValues
    if parsedValues.length = expected.length then .ok ([], none)
    else
      match expected[parsedValues.length]? with
      | none => .error .raised
      | some level =>
        if level.optional then .ok ([], none)
        else .ok ([unrecognizedMarker u rootId compiled.schemaSetVersion level.named parsedValues],
          some (issue level.named .missingRequiredLevel))
  | value :: directories =>
    let expected := compiled.levels u parsedValues
    if parsedValues.length = expected.length then
      .ok ([unrecognizedMarker u rootId compiled.schemaSetVersion extraDepth parsedValues],
        some (issue none .unexpectedDepth))
    else
      match expected[parsedValues.length]? with
      | none => .error .raised
      | some level =>
        if casefold u.toUnicode value ∈ level.foldedValues then do
          let (markers, found) ←
            parseCompiled rootId compiled (parsedValues ++ [value]) directories
          return (valueMarker u rootId compiled.schemaSetVersion level.named value parsedValues ::
            markers, found)
        else
          .ok ([unrecognizedMarker u rootId compiled.schemaSetVersion level.named parsedValues],
            some (issue level.named .invalidLevelValue))

def buildItemCompiled (rootId displayPrefix : Text) (compiled : CompiledSchema)
    (file : FileRecord) : Except SearchError Item :=
  let clean := cleanPath file.relativePath
  match (pathParts clean).getLast? with
  | none => .error .raised
  | some filename => do
    let (markers, found) ← parseCompiled u rootId compiled [] (pathParts clean).dropLast
    return {
      itemId := file.identity
      location := {
        rootId := rootId
        relativePath := clean
        displayPath := if displayPrefix = [] then clean
          else displayPrefix.rdropWhile (· = '/') ++ '/' :: clean }
      filename := filename
      markers := markers
      extension := extension filename
      sizeBytes := file.sizeBytes
      modifiedAt := file.modifiedAt
      structureIssue := found }

theorem compiled_levels (schema : Schema) (parsedValues : List Text) :
    (compileSchema u schema).levels u parsedValues =
      (levels u schema parsedValues).map (compileLevel u) := by
  have hfind : ∀ (key : Text) (entries : List (Text × List Level)),
      (((entries.map fun entry => (casefold u.toUnicode entry.1,
          entry.2.map (compileLevel u))).find? fun entry => entry.1 = key).map Prod.snd) =
        ((entries.find? fun entry => casefold u.toUnicode entry.1 = key).map Prod.snd).map
          (List.map (compileLevel u)) := by
    intro key entries
    rw [List.find?_map, Option.map_map, Option.map_map]
    rfl
  rw [CompiledSchema.levels, levels, tailOf, List.map_append]
  simp only [compileSchema, ← List.map_reverse, hfind]
  cases ((schema.tailByCompany.reverse.find? fun entry =>
    casefold u.toUnicode entry.1 =
      casefold u.toUnicode (parsedValues[1]?.getD "None".toList)).map Prod.snd) <;> rfl

theorem parseCompiled_eq (rootId : Text) (schema : Schema) (directories : List Text) :
    ∀ parsedValues, parseCompiled u rootId (compileSchema u schema) parsedValues directories =
      parseDirectories u rootId schema parsedValues directories := by
  induction directories with
  | nil =>
    intro parsedValues
    simp only [parseCompiled, parseDirectories, compiled_levels, List.length_map,
      List.getElem?_map]
    cases (levels u schema parsedValues)[parsedValues.length]? <;> rfl
  | cons value directories ih =>
    intro parsedValues
    simp only [parseCompiled, parseDirectories, compiled_levels, List.length_map,
      List.getElem?_map, ih]
    cases (levels u schema parsedValues)[parsedValues.length]? with
    | none => rfl
    | some level =>
      simp only [Option.map_some, compileLevel, allows, decide_eq_true_eq]
      rfl

theorem buildItem_compiled (rootId displayPrefix : Text) (schema : Schema) (file : FileRecord) :
    buildItemCompiled u rootId displayPrefix (compileSchema u schema) file =
      buildItem u rootId displayPrefix schema file := by
  cases hname : (pathParts (cleanPath file.relativePath)).getLast? with
  | none => simp only [buildItemCompiled, buildItem, hname]
  | some filename => simp only [buildItemCompiled, buildItem, hname, parseCompiled_eq]

end Compiled

/-! ## Separators -/

/-- No separator is a letter or a digit. -/
def Neutral (u : Unicode) : Prop :=
  ∀ c, isSeparator u c = true → isLetter u c = false ∧ isDecimal u c = false

section Tokens

variable {u : Unicode}

@[simp] theorem tokens_nil : tokens u [] = [] := by
  simp [tokens, separated]

theorem slash_separator : isSeparator u '/' = true := by
  simp [isSeparator]

theorem tokens_joined (hu : Neutral u) (parts : List Text) :
    tokens u (['/'].intercalate parts) = parts.flatMap (tokens u) := by
  induction parts with
  | nil => simp
  | cons part parts ih =>
    cases parts with
    | nil => simp
    | cons next rest =>
      rw [List.intercalate_cons_cons, List.append_assoc, List.singleton_append,
        tokens_separator hu slash_separator, ih]
      rfl

theorem tokens_path (hu : Neutral u) (path : Text) :
    tokens u path = (pathParts path).flatMap (tokens u) := by
  have hjoin : tokens u path = (path.splitOn '/').flatMap (tokens u) := by
    rw [← tokens_joined hu, List.intercalate_splitOn]
  rw [hjoin, pathParts]
  induction path.splitOn '/' with
  | nil => rfl
  | cons part parts ih =>
    rw [List.flatMap_cons, List.filter_cons, ih]
    by_cases hpart : part = []
    · simp [hpart]
    · simp [hpart]

end Tokens

/-! ## Components -/

variable {u : Library}

/-- All that an item is searched by is a component of its path. -/
structure Composed (item : Item) : Prop where
  filename : item.filename ∈ pathParts item.location.relativePath
  markers : ∀ marker ∈ item.markers, marker.kind = .value →
    ∃ part ∈ pathParts item.location.relativePath, marker.rawValue = some part

/-- The value markers of a list come from the given directories. -/
def TakenFrom (directories : List Text) (markers : List Marker) : Prop :=
  ∀ marker ∈ markers, marker.kind = .value → ∃ part ∈ directories, marker.rawValue = some part

theorem takenFrom_nil (directories : List Text) : TakenFrom directories [] := by
  intro marker h
  simp at h

theorem takenFrom_unrecognized (directories : List Text) (rootId version : Text) (level : Level)
    (parents : List Text) :
    TakenFrom directories [unrecognizedMarker u rootId version level parents] := by
  intro marker h hkind
  rw [List.mem_singleton.mp h] at hkind
  cases hkind

theorem takenFrom_value {directories : List Text} {markers : List Marker}
    (h : TakenFrom directories markers) (rootId version value : Text) (level : Level)
    (parents : List Text) : TakenFrom (value :: directories)
      (valueMarker u rootId version level value parents :: markers) := by
  intro marker hmem hkind
  rcases List.mem_cons.mp hmem with rfl | hmem
  · exact ⟨value, List.mem_cons_self, rfl⟩
  · obtain ⟨part, hpart, hraw⟩ := h marker hmem hkind
    exact ⟨part, List.mem_cons_of_mem _ hpart, hraw⟩

theorem parseCompiled_takenFrom {rootId : Text} {compiled : CompiledSchema} :
    ∀ {directories parsedValues : List Text} {markers : List Marker} {found : Option Issue},
      parseCompiled u rootId compiled parsedValues directories = .ok (markers, found) →
        TakenFrom directories markers
  | [], parsedValues, markers, found, h => by
    simp only [parseCompiled] at h
    split at h
    · cases h
      exact takenFrom_nil _
    · split at h
      · cases h
      · split at h
        · cases h
          exact takenFrom_nil _
        · cases h
          exact takenFrom_unrecognized _ _ _ _ _
  | value :: directories, parsedValues, markers, found, h => by
    simp only [parseCompiled] at h
    split at h
    · cases h
      exact takenFrom_unrecognized _ _ _ _ _
    · split at h
      · cases h
      · split at h
        · cases hrest : parseCompiled u rootId compiled (parsedValues ++ [value])
              directories with
          | error e =>
            rw [hrest] at h
            cases h
          | ok rest =>
            rw [hrest] at h
            cases h
            exact takenFrom_value (parseCompiled_takenFrom hrest) _ _ _ _ _
        · cases h
          exact takenFrom_unrecognized _ _ _ _ _

/-- An item of `build_item`, with or without a compiled schema. -/
def Built (u : Library) (item : Item) : Prop :=
  ∃ rootId displayPrefix file, (∃ schema, buildItem u rootId displayPrefix schema file = .ok item) ∨
    ∃ compiled, buildItemCompiled u rootId displayPrefix compiled file = .ok item

theorem composed_of_parts {item : Item} {clean : Text}
    (hpath : item.location.relativePath = clean)
    (hname : (pathParts clean).getLast? = some item.filename)
    (hmarkers : TakenFrom (pathParts clean).dropLast item.markers) : Composed item := by
  refine ⟨?_, ?_⟩
  · rw [hpath]
    exact List.mem_of_getLast? hname
  · intro marker hmem hkind
    obtain ⟨part, hpart, hraw⟩ := hmarkers marker hmem hkind
    rw [hpath]
    exact ⟨part, List.dropLast_subset _ hpart, hraw⟩

theorem built_compiled {item : Item} (h : Built u item) : ∃ rootId displayPrefix compiled file,
    buildItemCompiled u rootId displayPrefix compiled file = .ok item := by
  obtain ⟨rootId, displayPrefix, file, ⟨schema, h⟩ | ⟨compiled, h⟩⟩ := h
  · exact ⟨_, _, _, _, (buildItem_compiled u rootId displayPrefix schema file).trans h⟩
  · exact ⟨_, _, _, _, h⟩

theorem built_composed {item : Item} (h : Built u item) : Composed item := by
  obtain ⟨rootId, displayPrefix, compiled, file, h⟩ := built_compiled h
  unfold buildItemCompiled at h
  cases hname : (pathParts (cleanPath file.relativePath)).getLast? with
  | none =>
    simp only [hname] at h
    cases h
  | some filename =>
    simp only [hname] at h
    cases hparse : parseCompiled u rootId compiled []
        (pathParts (cleanPath file.relativePath)).dropLast with
    | error e =>
      rw [hparse] at h
      cases h
    | ok found =>
      rw [hparse] at h
      cases h
      exact composed_of_parts rfl hname (parseCompiled_takenFrom hparse)

/-! ## Membership -/

theorem infix_flatMap {α β : Type} {f : α → List β} {a : α} {l : List α} (h : a ∈ l) :
    f a <:+: l.flatMap f := by
  obtain ⟨before, after, rfl⟩ := List.append_of_mem h
  rw [List.flatMap_append, List.flatMap_cons]
  exact ⟨before.flatMap f, after.flatMap f, List.append_assoc _ _ _⟩

theorem field_in_path (hu : Neutral u.toUnicode) {item : Item} (h : Composed item)
    {stream : ℕ × List Text} (hstream : stream ∈ fieldStreams u item) :
    stream.2 <:+: pathStream u item := by
  have hpart : ∀ part ∈ pathParts item.location.relativePath,
      tokens u.toUnicode part <:+: pathStream u item := by
    intro part hmem
    rw [pathStream, tokens_path hu item.location.relativePath]
    exact infix_flatMap hmem
  have hfield := (List.mem_filter.mp hstream).1
  rcases List.mem_cons.mp hfield with rfl | hfield
  · exact hpart _ h.filename
  · rcases List.mem_append.mp hfield with hmarker | hpath
    · obtain ⟨marker, hmem, hsome⟩ := List.mem_filterMap.mp hmarker
      unfold markerStream at hsome
      split at hsome
      · next hkind =>
        cases hsome
        obtain ⟨part, hin, hraw⟩ := h.markers marker hmem hkind
        rw [hraw]
        exact hpart part hin
      · cases hsome
    · rw [List.mem_singleton.mp hpath]

theorem path_field {item : Item} (h : pathStream u item ≠ []) :
    (1, pathStream u item) ∈ fieldStreams u item := by
  apply List.mem_filter.mpr
  refine ⟨?_, decide_eq_true h⟩
  exact List.mem_cons_of_mem _ (List.mem_append_right _ (List.mem_singleton_self _))

theorem termScore_isSome {item : Item} (hu : Neutral u.toUnicode) (h : Composed item)
    (term : Text) : (termScore (fieldStreams u item) term).isSome = true ↔
      ∃ token ∈ pathStream u item, term <+: token := by
  rw [termScore, List.isSome_max?_iff]
  constructor
  · intro hne
    obtain ⟨score, hscore⟩ := List.exists_mem_of_ne_nil _ hne
    obtain ⟨weight, stream, token, hstream, htoken, hterm, -⟩ :=
      PreparedSearch.mem_termWeights.mp hscore
    exact ⟨token, (field_in_path hu h hstream).subset htoken, hterm⟩
  · rintro ⟨token, htoken, hterm⟩
    have hfield := path_field (List.ne_nil_of_mem htoken)
    exact List.ne_nil_of_mem
      (PreparedSearch.mem_termWeights.mpr ⟨1, _, token, hfield, htoken, hterm, rfl⟩)

theorem phraseScore_isSome {item : Item} (hu : Neutral u.toUnicode) (h : Composed item)
    (phrase : List Text) :
    (phraseScore (fieldStreams u item) (pathStream u item) phrase).isSome = true ↔
      phrase <:+: pathStream u item := by
  rw [← containsPhrase_iff]
  have hfields : containsPhrase (pathStream u item) phrase = false →
      ((fieldStreams u item).filter fun stream => containsPhrase stream.2 phrase) = [] := by
    intro hpath
    rw [List.filter_eq_nil_iff]
    intro stream hstream hfound
    have hin := (containsPhrase_iff.mp hfound).trans (field_in_path hu h hstream)
    rw [containsPhrase_iff.mpr hin] at hpath
    cases hpath
  cases hpath : containsPhrase (pathStream u item) phrase with
  | true => simp [phraseScore, hpath]
  | false => simp [phraseScore, hpath, hfields hpath]

theorem mapM_isSome {α β : Type} {f : α → Option β} {l : List α} :
    (l.mapM f).isSome = true ↔ ∀ a ∈ l, (f a).isSome = true := by
  induction l with
  | nil => simp
  | cons a l ih =>
    rw [List.mapM_cons, List.forall_mem_cons, ← ih]
    cases f a with
    | none => simp
    | some b =>
      cases l.mapM f with
      | none => simp
      | some bs => simp

theorem matches_isSome {item : Item} {query : Query} :
    (matchesAndScore u query item).isSome = true ↔
      (∀ term ∈ query.terms, (termScore (fieldStreams u item) term).isSome = true) ∧
      ∀ phrase ∈ query.phrases,
        (phraseScore (fieldStreams u item) (pathStream u item) phrase).isSome = true := by
  rw [← mapM_isSome, ← mapM_isSome, matchesAndScore]
  cases query.terms.mapM (termScore (fieldStreams u item)) with
  | none => simp
  | some terms =>
    cases query.phrases.mapM (phraseScore (fieldStreams u item) (pathStream u item)) with
    | none => simp
    | some phrases => simp

/-- A built item matches a query just when the tokens of its path have every term as a prefix
and every phrase in a row; and these are the tokens of its components. -/
theorem path_decides_match (hu : Neutral u.toUnicode) {item : Item} (hitem : Built u item)
    (query : Query) :
    ((matchesAndScore u query item).isSome = true ↔
        (∀ term ∈ query.terms, ∃ token ∈ pathStream u item, term <+: token) ∧
          ∀ phrase ∈ query.phrases, phrase <:+: pathStream u item) ∧
      pathStream u item =
        (pathParts item.location.relativePath).flatMap (tokens u.toUnicode) := by
  have hcomposed := built_composed hitem
  refine ⟨?_, tokens_path hu _⟩
  rw [matches_isSome]
  constructor
  · rintro ⟨hterms, hphrases⟩
    refine ⟨?_, ?_⟩
    · intro term hterm
      exact (termScore_isSome hu hcomposed term).mp (hterms term hterm)
    · intro phrase hphrase
      exact (phraseScore_isSome hu hcomposed phrase).mp (hphrases phrase hphrase)
  · rintro ⟨hterms, hphrases⟩
    refine ⟨?_, ?_⟩
    · intro term hterm
      exact (termScore_isSome hu hcomposed term).mpr (hterms term hterm)
    · intro phrase hphrase
      exact (phraseScore_isSome hu hcomposed phrase).mpr (hphrases phrase hphrase)

theorem neutral_ascii : Neutral plain.toUnicode := by
  intro c h
  have hcases : Char.isWhitespace c = true ∨ c = '-' ∨ c = '_' ∨ c = '.' ∨ c = '\\' ∨ c = '/' := by
    simpa [isSeparator, plain, ascii, or_assoc] using h
  rcases hcases with hspace | rfl | rfl | rfl | rfl | rfl
  · simp only [Char.isWhitespace, Bool.or_eq_true, decide_eq_true_eq] at hspace
    rcases hspace with ((rfl | rfl) | rfl) | rfl <;> decide
  all_goals decide

def namedItem : Item :=
  smallItem "Archive/Atlas/a.txt".toList
    [valueMarker plain "archive".toList "v1".toList
        ⟨"level-section".toList, "Раздел".toList, ["Archive".toList], false⟩ "Archive".toList [],
      valueMarker plain "archive".toList "v1".toList
        ⟨"level-company".toList, "Компания".toList, ["Atlas".toList, "Nova".toList], false⟩
        "Atlas".toList ["Archive".toList]]

/-- The phrase crosses from a marker to the file name. -/
theorem path_decides_match_crossing :
    (matchesAndScore plain ⟨["arch".toList], [["atlas".toList, "a".toList]], []⟩
        namedItem).isSome = true ∧
      pathStream plain namedItem =
        (pathParts "Archive/Atlas/a.txt".toList).flatMap (tokens plain.toUnicode) := by
  have hbuilt : Built plain namedItem := by
    refine ⟨"archive".toList, [], ⟨"Archive\\Atlas\\a.txt".toList, 3,
      "2024-01-01T00:00:00Z".toList, "Archive/Atlas/a.txt".toList⟩, Or.inl ⟨smallSchema, ?_⟩⟩
    decide +kernel
  obtain ⟨hmatch, htokens⟩ := path_decides_match neutral_ascii hbuilt
    ⟨["arch".toList], [["atlas".toList, "a".toList]], []⟩
  exact ⟨hmatch.mpr (by decide +kernel), htokens⟩

end PathTokens
