import WiseWay.NaturalBlob
import WiseWay.SqlSearch
import WiseWay.WordStreams

/-! # What the stored words say

A column of the full-text index holds the tokens of its fields in hexadecimal. A word, the
beginning of a word and a phrase of words stand in it just when the token, the beginning of a token
and the phrase of tokens stand in one of the fields. -/
namespace StoredWords

open Records SearchText Search SearchTables SqlSearch WordStreams

variable {u : Library}

/-! Hexadecimal words. -/

theorem utf8_prefix {a b : Text} : NaturalBlob.utf8 a <+: NaturalBlob.utf8 b ↔ a <+: b :=
  flatMap_prefix lt_trichotomy NaturalBlob.utf8_separates fun _ => String.utf8EncodeChar_ne_nil

theorem encode_prefix {a b : Text} : encode a <+: encode b ↔ a <+: b := by
  rw [encode, encode, List.prefix_map_iff_of_injective fun _ _ h => UInt8.toNat_inj.mp h,
    utf8_prefix]

theorem encodedToken_prefix {a b : Text} : encodedToken a <+: encodedToken b ↔ a <+: b := by
  rw [encodedToken, encodedToken, List.cons_prefix_cons, ← utf8_prefix (a := a)]
  have htotal : ∀ x y : UInt8, x < y ∨ x = y ∨ y < x := by
    intro x y
    rw [UInt8.lt_iff_toNat_lt, UInt8.lt_iff_toNat_lt, ← UInt8.toNat_inj]
    omega
  have hhex : NaturalBlob.hex (NaturalBlob.utf8 a) <+: NaturalBlob.hex (NaturalBlob.utf8 b) ↔
      NaturalBlob.utf8 a <+: NaturalBlob.utf8 b :=
    flatMap_prefix htotal NaturalBlob.hex_separates fun _ => List.cons_ne_nil _ _
  rw [hhex]
  exact ⟨And.right, fun h => ⟨rfl, h⟩⟩

theorem encodedToken_injective : Function.Injective encodedToken := by
  intro a b h
  have hab : a <+: b := encodedToken_prefix.mp (h ▸ List.prefix_rfl)
  have hba : b <+: a := encodedToken_prefix.mp (h ▸ List.prefix_rfl)
  exact hab.eq_of_length (Nat.le_antisymm hab.length_le hba.length_le)

theorem encodedToken_ne_sentinel (token : Text) : encodedToken token ≠ sentinel := by
  intro h
  rw [encodedToken, sentinel, List.cons.injEq] at h
  exact absurd h.1 (by decide)

theorem blank_not_mem (token : Text) : ' ' ∉ encodedToken token := by
  have hdigit : ∀ n < 16, Nat.digitChar n ≠ ' ' := by decide
  rw [encodedToken, List.mem_cons, NaturalBlob.hex, List.mem_flatMap]
  rintro (h | ⟨byte, _, h⟩)
  · exact absurd h (by decide)
  · have hbyte := byte.toNat_lt
    rcases List.mem_cons.mp h with h | h
    · exact hdigit (byte.toNat / 16) (by omega) h.symm
    · exact hdigit (byte.toNat % 16) (Nat.mod_lt _ (by decide)) (List.mem_singleton.mp h).symm

theorem encode_lt {text : Text} {byte : ℕ} (h : byte ∈ encode text) : byte < 255 := by
  obtain ⟨b, hb, rfl⟩ := List.mem_map.mp h
  obtain ⟨c, _, hbyte⟩ := List.mem_flatMap.mp hb
  have hmax : c.val.toNat < 1114112 := by
    have hvalid := c.valid
    simp only [UInt32.isValidChar, Nat.isValidChar] at hvalid
    omega
  unfold String.utf8EncodeChar at hbyte
  simp only at hbyte
  split_ifs at hbyte
  all_goals simp only [List.mem_cons, List.not_mem_nil, or_false] at hbyte
  · subst hbyte
    rw [UInt8.toNat_ofNat']
    omega
  · rcases hbyte with rfl | rfl <;> rw [UInt8.toNat_ofNat'] <;> omega
  · rcases hbyte with rfl | rfl | rfl <;> rw [UInt8.toNat_ofNat'] <;> omega
  · rcases hbyte with rfl | rfl | rfl | rfl <;> rw [UInt8.toNat_ofNat'] <;> omega

/-! Words. -/

theorem words_append (a b : Text) : words (a ++ ' ' :: b) = words a ++ words b := by
  rw [words, words, words, List.splitOn_eq_splitOnP, List.splitOn_eq_splitOnP,
    List.splitOn_eq_splitOnP, List.splitOnP_append_cons a b (by decide), List.filter_append]

theorem words_word {word : Text} (hne : word ≠ []) (hblank : ' ' ∉ word) : words word = [word] := by
  have hsingle : word.splitOnP (· == ' ') = [word] := by
    refine List.splitOnP_eq_singleton fun c hc => ?_
    rw [beq_eq_false_iff_ne]
    rintro rfl
    exact hblank hc
  rw [words, List.splitOn_eq_splitOnP, hsingle, List.filter_singleton]
  simp [hne]

theorem words_stream : ∀ tokens : List Text, words (encodedStream tokens) = tokens.map encodedToken
  | [] => rfl
  | [token] => by
    have hword : words (encodedToken token) = [encodedToken token] :=
      words_word (List.cons_ne_nil 'x' _) (blank_not_mem token)
    simpa [encodedStream, joinWith] using hword
  | token :: next :: tokens => by
    have hword := words_word (List.cons_ne_nil 'x' _) (blank_not_mem token)
    have hrest := words_stream (next :: tokens)
    rw [encodedStream, List.map_cons] at hrest
    rw [encodedStream, List.map_cons, List.map_cons, joinWith_cons _ _ (List.cons_ne_nil _ _),
      List.append_assoc, List.singleton_append, words_append, hrest]
    exact congrArg (· ++ _) hword

theorem words_streams : ∀ streams : List (List Text),
    words (joinWith (' ' :: sentinel ++ [' ']) (streams.map encodedStream)) =
      barred sentinel (streams.map (·.map encodedToken))
  | [] => rfl
  | [tokens] => by simpa [joinWith, barred] using words_stream tokens
  | tokens :: next :: streams => by
    have hrest := words_streams (next :: streams)
    rw [List.map_cons] at hrest
    rw [List.map_cons, List.map_cons, joinWith_cons _ _ (List.cons_ne_nil _ _), List.map_cons,
      List.map_cons, barred]
    rw [List.map_cons] at hrest
    rw [← hrest, List.append_assoc, ← words_stream tokens]
    have hsentinel : words sentinel = [sentinel] := words_word (by decide) (by decide)
    rw [show (' ' :: sentinel ++ [' '] : Text) ++ joinWith (' ' :: sentinel ++ [' '])
        (encodedStream next :: streams.map encodedStream) = ' ' :: (sentinel ++ ' ' ::
          joinWith (' ' :: sentinel ++ [' ']) (encodedStream next :: streams.map encodedStream))
      by simp, words_append, words_append, hsentinel, List.singleton_append]

/-! Columns. -/

/-- The tokens of the value markers that belong in a bucket. -/
def markerStreams (u : Library) (item : Item) (target : Bucket) : List (List Text) :=
  ((item.markers.filter fun marker => marker.kind = .value ∧ bucketOf marker = target).map
    fun marker => tokens u.toUnicode (marker.rawValue.getD [])).filter (· ≠ [])

def columnStreams (u : Library) (item : Item) : Column → List (List Text)
  | .filename => [tokens u.toUnicode item.filename].filter (· ≠ [])
  | .project => markerStreams u item .project
  | .company => markerStreams u item .company
  | .markers => markerStreams u item .markers
  | .path => [pathStream u item].filter (· ≠ [])

theorem encodedStream_eq_nil {tokens : List Text} : encodedStream tokens = [] ↔ tokens = [] := by
  constructor
  · intro h
    have hwords := words_stream tokens
    rw [h] at hwords
    exact List.map_eq_nil_iff.mp hwords.symm
  · rintro rfl
    rfl

theorem bucket_streams (item : Item) (target : Bucket) :
    bucket u item target = (markerStreams u item target).map encodedStream := by
  rw [bucket, markerStreams, List.filter_map, List.filter_map, List.map_map]
  congr 1
  refine List.filter_congr fun marker _ => ?_
  simp only [Function.comp_apply, ne_eq, encodedStream_eq_nil]

theorem words_column (item : Item) (column : Column) :
    words (columnText (columns u item) column) =
      barred sentinel ((columnStreams u item column).map (·.map encodedToken)) := by
  have hsingle : ∀ tokens : List Text, words (encodedStream tokens) =
      barred sentinel (([tokens].filter (· ≠ [])).map (·.map encodedToken)) := by
    intro tokens
    rw [words_stream]
    by_cases h : tokens = []
    · subst h
      rfl
    · simp [h, barred]
  have hbucket : ∀ target : Bucket, words (joined u item target) =
      barred sentinel ((markerStreams u item target).map (·.map encodedToken)) := by
    intro target
    rw [joined, bucket_streams, words_streams]
  cases column with
  | filename => exact hsingle _
  | project => exact hbucket .project
  | company => exact hbucket .company
  | markers => exact hbucket .markers
  | path => exact hsingle _

theorem streams_barred {word : Text} (hne : word ≠ sentinel) (item : Item) (column : Column) :
    word ∈ words (columnText (columns u item) column) ↔
      ∃ stream ∈ columnStreams u item column, ∃ token ∈ stream, encodedToken token = word := by
  rw [words_column, mem_barred hne]
  simp only [List.mem_map, exists_exists_and_eq_and]

theorem word_holds (term : Text) (item : Item) (column : Column) :
    encodedToken term ∈ words (columnText (columns u item) column) ↔
      ∃ stream ∈ columnStreams u item column, term ∈ stream := by
  rw [streams_barred (encodedToken_ne_sentinel term)]
  simp only [encodedToken_injective.eq_iff, exists_eq_right]

theorem prefix_holds (term : Text) (item : Item) (column : Column) :
    (words (columnText (columns u item) column)).any (encodedToken term <+: ·) = true ↔
      ∃ stream ∈ columnStreams u item column, ∃ token ∈ stream, term <+: token := by
  simp only [List.any_eq_true, decide_eq_true_eq]
  constructor
  · rintro ⟨word, hword, hbegins⟩
    have hne : word ≠ sentinel := by
      rintro rfl
      rw [encodedToken, sentinel, List.cons_prefix_cons] at hbegins
      exact absurd hbegins.1 (by decide)
    obtain ⟨stream, hstream, token, htoken, rfl⟩ := (streams_barred hne item column).mp hword
    exact ⟨stream, hstream, token, htoken, encodedToken_prefix.mp hbegins⟩
  · rintro ⟨stream, hstream, token, htoken, hbegins⟩
    refine ⟨encodedToken token, ?_, encodedToken_prefix.mpr hbegins⟩
    exact (word_holds token item column).mpr ⟨stream, hstream, htoken⟩

theorem phrase_holds {phrase : List Text} (hne : phrase ≠ []) (item : Item) (column : Column) :
    containsPhrase (words (columnText (columns u item) column)) (phrase.map encodedToken) = true ↔
      ∃ stream ∈ columnStreams u item column, containsPhrase stream phrase = true := by
  have hsentinel : sentinel ∉ phrase.map encodedToken := by
    intro h
    obtain ⟨token, _, heq⟩ := List.mem_map.mp h
    exact encodedToken_ne_sentinel token heq
  rw [containsPhrase_iff, words_column, infix_barred hsentinel (by simpa using hne)]
  simp only [List.mem_map, exists_exists_and_eq_and, containsPhrase_iff]
  refine exists_congr fun stream => and_congr_right fun _ => ?_
  rw [List.infix_map_iff]
  constructor
  · rintro ⟨l, hl, heq⟩
    rw [(List.map_injective_iff.mpr encodedToken_injective) heq]
    exact hl
  · intro h
    exact ⟨phrase, h, rfl⟩

/-! Weights. -/

theorem mem_markerStreams {item : Item} {target : Bucket} {stream : List Text} :
    stream ∈ markerStreams u item target ↔ stream ≠ [] ∧ ∃ marker ∈ item.markers,
      marker.kind = .value ∧ bucketOf marker = target ∧
        tokens u.toUnicode (marker.rawValue.getD []) = stream := by
  simp only [markerStreams, List.mem_filter, List.mem_map, decide_eq_true_eq]
  constructor
  · rintro ⟨⟨marker, ⟨hmem, hkind, hbucket⟩, rfl⟩, hne⟩
    exact ⟨hne, marker, hmem, hkind, hbucket, rfl⟩
  · rintro ⟨hne, marker, hmem, hkind, hbucket, rfl⟩
    exact ⟨⟨marker, ⟨hmem, hkind, hbucket⟩, rfl⟩, hne⟩

def bucketWeight : Bucket → ℕ
  | .project => 4
  | .company => 3
  | .markers => 1

theorem markerWeight_bucket (marker : Marker) :
    markerWeight marker = bucketWeight (bucketOf marker) := by
  unfold markerWeight bucketOf
  split
  · rfl
  · split <;> rfl

/-- The weighted columns hold the field streams of an item. -/
theorem mem_fieldStreams {item : Item} {weight : ℕ} {stream : List Text} :
    (weight, stream) ∈ fieldStreams u item ↔ ∃ column, (column, weight) ∈ weightedColumns ∧
      stream ∈ columnStreams u item column := by
  have hmarkers : (weight, stream) ∈ item.markers.filterMap (markerStream u) ∧ stream ≠ [] ↔
      ∃ target, bucketWeight target = weight ∧ stream ∈ markerStreams u item target := by
    simp only [List.mem_filterMap, mem_markerStreams]
    constructor
    · rintro ⟨⟨marker, hmem, hstream⟩, hne⟩
      unfold markerStream at hstream
      split at hstream
      · rename_i hkind
        rw [Option.some.injEq, Prod.mk.injEq] at hstream
        refine ⟨bucketOf marker, ?_, hne, marker, hmem, hkind, rfl, hstream.2⟩
        rw [← markerWeight_bucket]
        exact hstream.1
      · cases hstream
    · rintro ⟨target, rfl, hne, marker, hmem, hkind, rfl, rfl⟩
      refine ⟨⟨marker, hmem, ?_⟩, hne⟩
      rw [markerStream, if_pos hkind, markerWeight_bucket]
  have hsingle : ∀ tokens : List Text, stream ∈ [tokens].filter (· ≠ []) ↔
      stream = tokens ∧ stream ≠ [] := by
    intro tokens
    rw [List.mem_filter, List.mem_singleton, decide_eq_true_eq]
  have hsplit : (weight, stream) ∈ fieldStreams u item ↔
      (weight = 5 ∧ stream ∈ columnStreams u item .filename) ∨
        ((weight, stream) ∈ item.markers.filterMap (markerStream u) ∧ stream ≠ []) ∨
          (weight = 1 ∧ stream ∈ columnStreams u item .path) := by
    rw [columnStreams, columnStreams, hsingle, hsingle, fieldStreams, List.mem_filter,
      List.cons_append, List.mem_cons, List.mem_append, List.mem_singleton, decide_eq_true_eq,
      Prod.mk.injEq, Prod.mk.injEq]
    tauto
  rw [hsplit, hmarkers]
  constructor
  · rintro (⟨rfl, h⟩ | ⟨target, rfl, h⟩ | ⟨rfl, h⟩)
    · exact ⟨.filename, by decide, h⟩
    · cases target with
      | project => exact ⟨.project, by decide, h⟩
      | company => exact ⟨.company, by decide, h⟩
      | markers => exact ⟨.markers, by decide, h⟩
    · exact ⟨.path, by decide, h⟩
  · rintro ⟨column, hcolumn, h⟩
    simp only [weightedColumns, List.mem_cons, Prod.mk.injEq, List.not_mem_nil, or_false] at hcolumn
    rcases hcolumn with ⟨rfl, rfl⟩ | ⟨rfl, rfl⟩ | ⟨rfl, rfl⟩ | ⟨rfl, rfl⟩ | ⟨rfl, rfl⟩
    · exact .inl ⟨rfl, h⟩
    · exact .inr (.inl ⟨.project, rfl, h⟩)
    · exact .inr (.inl ⟨.company, rfl, h⟩)
    · exact .inr (.inl ⟨.markers, rfl, h⟩)
    · exact .inr (.inr ⟨rfl, h⟩)

end StoredWords
