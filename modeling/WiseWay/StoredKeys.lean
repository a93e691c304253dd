import WiseWay.StoredWords
import WiseWay.TopRows

/-! # The stored keys

The sort keys of the tables are bytes. They compare as the texts, the natural keys and the path
ties that they stand for. -/
namespace StoredKeys

open Records SearchText Search SearchTables SqlSearch OrderedCodes StoredWords

variable {u : Library}

theorem toNat_strict (x y : UInt8) (h : x < y) : x.toNat < y.toNat := UInt8.lt_iff_toNat_lt.mp h

/-! Bytes of texts and of natural keys. -/

theorem encode_alike (a b : Text) : Alike (encode a) (encode b) a b := by
  have hchar : Separates (fun _ : Char => True)
      fun c => (String.utf8EncodeChar c).map UInt8.toNat := fun _ _ h =>
    (NaturalBlob.utf8_separates trivial trivial h).map toNat_strict
  have hne : ∀ c : Char, True → (String.utf8EncodeChar c).map UInt8.toNat ≠ [] := by
    intro c _ h
    exact String.utf8EncodeChar_ne_nil (List.map_eq_nil_iff.mp h)
  have hlt : ∀ {k l : Text}, True → True → k < l → encode k < encode l := by
    intro k l _ _ h
    rw [encode, encode, NaturalBlob.utf8, NaturalBlob.utf8, List.map_flatMap, List.map_flatMap]
    exact flatMap_lt hchar hne (fun _ _ => trivial) (fun _ _ => trivial) h
  exact lt_iff_and_eq_iff (P := fun _ => True) hlt trivial trivial

theorem naturalBlob_bytes (hu : DecimalDigits u.toUnicode) {value : Text}
    (hruns : NaturalBlob.ShortRuns u.toUnicode value) : naturalBlob u value =
      ((naturalKey u.toUnicode value).flatMap NaturalBlob.partBlob).map UInt8.toNat := by
  rw [naturalBlob, (NaturalBlob.naturalBlob_eq hu hruns).1]
  rfl

theorem natural_alike (hu : DecimalDigits u.toUnicode) {a b : Text}
    (ha : NaturalBlob.ShortRuns u.toUnicode a) (hb : NaturalBlob.ShortRuns u.toUnicode b) :
    Alike (naturalBlob u a) (naturalBlob u b) (naturalKey u.toUnicode a)
      (naturalKey u.toUnicode b) := by
  have hpart : Separates NaturalBlob.Fits
      fun part => (NaturalBlob.partBlob part).map UInt8.toNat := fun hk hl h =>
    (NaturalBlob.partBlob_separates hk hl h).map toNat_strict
  have hne : ∀ part, NaturalBlob.Fits part →
      (NaturalBlob.partBlob part).map UInt8.toNat ≠ [] := by
    intro part _
    cases part with
    | inl _ => simp [NaturalBlob.partBlob]
    | inr _ => simp [NaturalBlob.partBlob]
  have hlt : ∀ {k l : NaturalKey}, (∀ part ∈ k, NaturalBlob.Fits part) →
      (∀ part ∈ l, NaturalBlob.Fits part) → k < l →
        k.flatMap (fun part => (NaturalBlob.partBlob part).map UInt8.toNat) <
          l.flatMap (fun part => (NaturalBlob.partBlob part).map UInt8.toNat) := fun hk hl h =>
    flatMap_lt hpart hne hk hl h
  rw [naturalBlob_bytes hu ha, naturalBlob_bytes hu hb, List.map_flatMap, List.map_flatMap]
  exact lt_iff_and_eq_iff hlt (NaturalBlob.naturalBlob_eq hu ha).2
    (NaturalBlob.naturalBlob_eq hu hb).2

/-! Rows. -/

/-- The texts of an item whose natural keys are stored have short runs of digits. -/
structure Sortable (u : Library) (item : Item) : Prop where
  filename : NaturalBlob.ShortRuns u.toUnicode item.filename
  path : NaturalBlob.ShortRuns u.toUnicode item.location.relativePath
  markers : ∀ marker ∈ item.markers, NaturalBlob.ShortRuns u.toUnicode marker.displayValue

variable {G : Type}

/-- A row that `add_items` has made of its item. -/
def Made (u : Library) (row : ItemRow G) : Prop :=
  ∃ key, instantSortKey u.toUnicode row.item.modifiedAt = .ok key ∧
    row = itemRow u row.generationId row.rowId row.itemNo row.item key

theorem Made.keys {row : ItemRow G} (h : Made u row) :
    row.filenameKey = naturalBlob u row.item.filename ∧
      row.pathKey = naturalBlob u row.item.location.relativePath ∧
        row.modifiedKey = TopRows.instant u row.item := by
  obtain ⟨key, hkey, heq⟩ := h
  have hinstant : TopRows.instant u row.item = key := by
    rw [TopRows.instant, hkey]
  rw [hinstant, heq]
  exact ⟨rfl, rfl, rfl⟩

theorem tie_alike (hu : DecimalDigits u.toUnicode) {a b : ItemRow G} (ha : Made u a)
    (hb : Made u b) (hsa : Sortable u a.item) (hsb : Sortable u b.item) :
    Alike (tieKey a) (tieKey b) (pathTie u a.item) (pathTie u b.item) := by
  unfold tieKey pathTie
  rw [ha.keys.2.1, hb.keys.2.1]
  exact (natural_alike hu hsa.path hsb.path).lex ((encode_alike _ _).lex (encode_alike _ _))

/-! The order of a response. -/

def found (row : ItemRow G × ℕ) : Row := (row.1.item, row.2)

/-- Rows of different items, made by `add_items`. -/
structure Rows (u : Library) (rows : List (ItemRow G × ℕ)) : Prop where
  digits : DecimalDigits u.toUnicode
  ids : (rows.map fun row => row.1.item.itemId).Nodup
  made : ∀ row ∈ rows, Made u row.1
  sortable : ∀ row ∈ rows, Sortable u row.1.item

variable {rows : List (ItemRow G × ℕ)}

theorem Rows.tie_alike (h : Rows u rows) {a b : ItemRow G × ℕ} (ha : a ∈ rows) (hb : b ∈ rows) :
    Alike (tieKey a.1) (tieKey b.1) (pathTie u a.1.item) (pathTie u b.1.item) :=
  StoredKeys.tie_alike h.digits (h.made a ha) (h.made b hb) (h.sortable a ha) (h.sortable b hb)

theorem Rows.ties (h : Rows u rows) : (rows.map fun row => tieKey row.1).Nodup := by
  refine List.Nodup.of_map (fun key : TieKey => (ofLex (ofLex key).2).2) ?_
  rw [List.map_map]
  refine List.pairwise_map.mpr ((List.pairwise_map.mp h.ids).imp fun hne heq => hne ?_)
  exact (encode_alike _ _).2.mp heq

theorem orderBy_sorted (h : Rows u rows) (direction : Direction) {K K' : Type} [LinearOrder K]
    [LinearOrder K'] {key : ItemRow G × ℕ → K} (key' : Row → K')
    (hkey : ∀ a ∈ rows, ∀ b ∈ rows, Alike (key a) (key b) (key' (found a)) (key' (found b))) :
    (orderBy direction key rows).Perm rows ∧ ((orderBy direction key rows).map found).Pairwise
      (TopRows.Precedes direction key' fun row => pathTie u row.1) := by
  cases direction with
  | asc =>
    have hperm := TopRows.sortBy_perm .asc
      (fun row => (toLex (key row, tieKey row.1) : K ×ₗ TieKey)) rows
    refine ⟨hperm, List.pairwise_map.mpr ?_⟩
    have hnodup : (rows.map fun row => (toLex (key row, tieKey row.1) : K ×ₗ TieKey)).Nodup := by
      refine List.Nodup.of_map (fun pair : K ×ₗ TieKey => (ofLex pair).2) ?_
      rw [List.map_map]
      exact h.ties
    refine (TopRows.sortBy_strict hnodup).imp_of_mem fun {a b} ha hb hlt => ?_
    have hain := hperm.mem_iff.mp ha
    have hbin := hperm.mem_iff.mp hb
    have hpair := ((hkey a hain b hbin).lex (h.tie_alike hain hbin)).1.mp hlt
    rcases Prod.Lex.toLex_lt_toLex.mp hpair with hlt | hlt
    · exact .inl ⟨rfl, hlt⟩
    · exact .inr (.inr hlt)
  | desc =>
    have hperm := TopRows.sortBy_perm .asc
      (fun row => (toLex (OrderDual.toDual (key row), tieKey row.1) : Kᵒᵈ ×ₗ TieKey)) rows
    refine ⟨hperm, List.pairwise_map.mpr ?_⟩
    have hnodup : (rows.map fun row =>
        (toLex (OrderDual.toDual (key row), tieKey row.1) : Kᵒᵈ ×ₗ TieKey)).Nodup := by
      refine List.Nodup.of_map (fun pair : Kᵒᵈ ×ₗ TieKey => (ofLex pair).2) ?_
      rw [List.map_map]
      exact h.ties
    refine (TopRows.sortBy_strict hnodup).imp_of_mem fun {a b} ha hb hlt => ?_
    have hain := hperm.mem_iff.mp ha
    have hbin := hperm.mem_iff.mp hb
    have hpair := ((hkey b hbin a hain).dual.lex (h.tie_alike hain hbin)).1.mp hlt
    rcases Prod.Lex.toLex_lt_toLex.mp hpair with hlt | ⟨heq, hlt⟩
    · exact .inr (.inl ⟨rfl, OrderDual.toDual_lt_toDual.mp hlt⟩)
    · exact .inr (.inr ⟨OrderDual.toDual_inj.mp heq, hlt⟩)

theorem sortBy_tie (h : Rows u rows) (direction : Direction) :
    (sortBy direction (fun row : ItemRow G × ℕ => tieKey row.1) rows).Perm rows ∧
      ((sortBy direction (fun row : ItemRow G × ℕ => tieKey row.1) rows).map found).Pairwise
        (TopRows.Precedes direction (fun row : Row => pathTie u row.1)
          fun row => pathTie u row.1) := by
  have hperm := TopRows.sortBy_perm direction (fun row : ItemRow G × ℕ => tieKey row.1) rows
  refine ⟨hperm, List.pairwise_map.mpr ?_⟩
  cases direction with
  | asc =>
    refine (TopRows.sortBy_strict h.ties).imp_of_mem fun {a b} ha hb hlt => .inl ⟨rfl, ?_⟩
    exact (h.tie_alike (hperm.mem_iff.mp ha) (hperm.mem_iff.mp hb)).1.mp hlt
  | desc =>
    have hdual : (rows.map fun row => OrderDual.toDual (tieKey row.1)).Nodup := h.ties
    refine (TopRows.sortBy_strict hdual).imp_of_mem fun {a b} ha hb hlt => .inr (.inl ⟨rfl, ?_⟩)
    exact (h.tie_alike (hperm.mem_iff.mp hb) (hperm.mem_iff.mp ha)).1.mp
      (OrderDual.toDual_lt_toDual.mp hlt)

/-- `ORDER BY` puts rows into the order of a response. -/
theorem order_sorted (h : Rows u rows) {ordering : SearchSort}
    (hvalid : ordering.field = .relevance → ordering.direction = .desc) :
    ∃ l, order ordering rows = .ok l ∧ l.Perm rows ∧
      (l.map found).Pairwise (TopRows.Before u (TopRows.instant u) ordering) := by
  obtain ⟨field, direction⟩ := ordering
  cases field with
  | relevance =>
    obtain rfl : direction = .desc := hvalid rfl
    exact ⟨_, rfl, orderBy_sorted h .desc (fun row : Row => row.2) fun a _ b _ => Alike.refl _ _⟩
  | path => exact ⟨_, rfl, sortBy_tie h direction⟩
  | name =>
    refine ⟨_, rfl, orderBy_sorted h direction
      (fun row : Row => naturalKey u.toUnicode row.1.filename) fun a ha b hb => ?_⟩
    rw [(h.made a ha).keys.1, (h.made b hb).keys.1]
    exact natural_alike h.digits (h.sortable a ha).filename (h.sortable b hb).filename
  | modifiedAt =>
    refine ⟨_, rfl, orderBy_sorted h direction
      (fun row : Row => TopRows.instant u row.1) fun a ha b hb => ?_⟩
    rw [(h.made a ha).keys.2.2, (h.made b hb).keys.2.2]
    exact encode_alike _ _
  | size =>
    exact ⟨_, rfl, orderBy_sorted h direction (fun row : Row => row.1.sizeBytes)
      fun a _ b _ => Alike.refl _ _⟩

theorem order_eq {items : List Item} (h : Rows u rows) (hlisted : TopRows.Listed items
    (rows.map found)) (htimes : ∀ item ∈ items, ∃ key,
      instantSortKey u.toUnicode item.modifiedAt = .ok key) (ordering : SearchSort) :
    (order ordering rows).map (fun l => l.map fun row => row.1.item) =
      sortRows u (rows.map found) ordering := by
  by_cases hvalid : ordering.field = .relevance → ordering.direction = .desc
  · obtain ⟨l, horder, hperm, hsorted⟩ := order_sorted h hvalid
    obtain ⟨m, hrows, hperm', hsorted'⟩ := TopRows.sortRows_sorted hlisted htimes hvalid
    have hsame : l.map found = m := StableSorting.eq_of_sorted TopRows.before_asymm hsorted hsorted'
      ((hperm.map found).trans hperm'.symm)
    rw [horder, hrows, ← hsame, List.map_map]
    rfl
  · obtain ⟨field, direction⟩ := ordering
    rw [Classical.not_imp] at hvalid
    obtain ⟨rfl, hdirection⟩ := hvalid
    cases direction with
    | asc => rfl
    | desc => exact absurd rfl hdirection

end StoredKeys
