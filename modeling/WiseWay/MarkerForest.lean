import WiseWay.MarkerTrails

/-! # The forest of markers

Names without separators are told by the identifiers of their markers. The markers of the items
of one schema are therefore a forest, in which an identifier has one place and one chain above
it. -/
namespace MarkerForest

open Records SearchText Search Fallible MarkerTrails

variable {u : Library}

/-! Parent keys. -/

/-- The name of a directory that holds neither the separator of parent keys nor that of ids. -/
structure Named (value : Text) : Prop where
  nonempty : value ≠ []
  key : '\x1e' ∉ value
  id : '\x1f' ∉ value

theorem parentKey_splitOn {values : List Text} (h : ∀ value ∈ values, Named value)
    (hne : values ≠ []) : (parentKey values).splitOn '\x1e' = values :=
  List.splitOn_intercalate '\x1e' (fun value hvalue => (h value hvalue).key) hne

theorem parentKey_injective {a b : List Text} (ha : ∀ value ∈ a, Named value)
    (hb : ∀ value ∈ b, Named value) (h : parentKey a = parentKey b) : a = b := by
  have hempty : ∀ values : List Text, (∀ value ∈ values, Named value) →
      parentKey values = parentKey [] → values = [] := by
    intro values hvalues heq
    by_contra hne
    have hsplit := parentKey_splitOn hvalues hne
    rw [heq] at hsplit
    have hmem : ([] : Text) ∈ values := by
      rw [← hsplit]
      exact List.mem_singleton_self _
    exact (hvalues [] hmem).nonempty rfl
  by_cases hnil : a = []
  · subst hnil
    exact (hempty b hb h.symm).symm
  · have hnil' : b ≠ [] := by
      rintro rfl
      exact hnil (hempty a ha h)
    rw [← parentKey_splitOn ha hnil, h, parentKey_splitOn hb hnil']

/-! Identifiers. -/

variable {rootId : Text} {schema : Schema}

theorem markerAt_injective (hinjective : Function.Injective u.digest) {a b : List Text}
    {v w : Option Text} (ha : ∀ value ∈ a, Named value) (hb : ∀ value ∈ b, Named value)
    (hv : ∀ value, v = some value → Named value) (hw : ∀ value, w = some value → Named value)
    (h : (markerAt u rootId schema a v).markerId = (markerAt u rootId schema b w).markerId) :
    a = b ∧ v = w := by
  have hjoined := markerAt_joined hinjective h
  have hfree : ∀ {values : List Text}, (∀ value ∈ values, Named value) →
      '\x1f' ∉ parentKey values := fun hvalues =>
    parentKey_free (by decide) fun value hvalue => (hvalues value hvalue).id
  cases v with
  | some value =>
    cases w with
    | none => cases isSome_of_joined hjoined
    | some other =>
      obtain ⟨hkey, hvalue⟩ := some_of_joined (hfree ha) (hfree hb) (hv value rfl).id
        (hw other rfl).id hjoined
      exact ⟨parentKey_injective ha hb hkey, congrArg some hvalue⟩
  | none =>
    cases w with
    | some other => cases isSome_of_joined hjoined
    | none =>
      have hkey := none_of_joined (hfree ha) (hfree hb) hjoined
      exact ⟨parentKey_injective ha hb hkey, rfl⟩

theorem markerAt_level (parents : List Text) (v : Option Text) :
    (markerAt u rootId schema parents v).levelId = (levelAt u schema parents).levelId ∧
      (markerAt u rootId schema parents v).levelName = (levelAt u schema parents).levelName := by
  cases v <;> exact ⟨rfl, rfl⟩

/-! Built items. -/

/-- The items of one schema: their markers are trails of names. -/
def Trailed (u : Library) (rootId : Text) (schema : Schema) (items : List Item) : Prop :=
  ∀ item ∈ items, ∃ values unrecognized, (∀ value ∈ values, Named value) ∧
    item.markers = trail u rootId schema [] values unrecognized

theorem built_trailed {displayPrefix : Text} {file : FileRecord} {item : Item}
    (h : buildItem u rootId displayPrefix schema file = .ok item)
    (hkey : '\x1e' ∉ file.relativePath) (hid : '\x1f' ∉ file.relativePath) :
    ∃ values unrecognized, (∀ value ∈ values, Named value) ∧
      item.markers = trail u rootId schema [] values unrecognized := by
  obtain ⟨values, unrecognized, hvalues, hmarkers⟩ := built_trail h
  refine ⟨values, unrecognized, fun value hvalue => ?_, hmarkers⟩
  have hpart := hvalues value hvalue
  exact ⟨part_ne_nil hpart, part_free (by decide) hkey hpart, part_free (by decide) hid hpart⟩

/-! Lengths. -/

theorem cleanPath_length (path : Text) : (cleanPath path).length ≤ path.length := by
  have hclean : (cleanPath path).Sublist (path.map fun c => if c = '\\' then '/' else c) :=
    (List.rdropWhile_prefix _ _).sublist.trans (List.dropWhile_suffix _).sublist
  exact hclean.length_le.trans_eq (List.length_map _)

theorem trail_display {unrecognized : Bool} {marker : Marker} : ∀ {values parents : List Text},
    marker ∈ trail u rootId schema parents values unrecognized →
      marker.displayValue ∈ values ∨ marker.displayValue = "Не распознано".toList
  | [], parents, h => by
    unfold trail at h
    split at h
    · rw [List.mem_singleton.mp h]
      exact .inr rfl
    · cases h
  | value :: values, parents, h => by
    unfold trail at h
    rcases List.mem_cons.mp h with rfl | h
    · exact .inl (List.mem_cons_self ..)
    · exact (trail_display h).imp_left (List.mem_cons_of_mem _)

theorem built_lengths {displayPrefix : Text} {file : FileRecord} {item : Item}
    (h : buildItem u rootId displayPrefix schema file = .ok item) :
    item.filename.length ≤ file.relativePath.length ∧
      item.location.relativePath.length ≤ file.relativePath.length ∧
        ∀ marker ∈ item.markers, marker.displayValue.length ≤ file.relativePath.length ∨
          marker.displayValue = "Не распознано".toList := by
  have hpart : ∀ part ∈ pathParts (cleanPath file.relativePath),
      part.length ≤ file.relativePath.length := fun part hmem =>
    (pathParts_sublist hmem).length_le.trans (cleanPath_length _)
  unfold buildItem at h
  dsimp only at h
  split at h
  · cases h
  · rename_i filename hfilename
    obtain ⟨found, hfound, h⟩ := bind_eq_ok.mp h
    cases h
    obtain ⟨values, unrecognized, hvalues, hmarkers⟩ := parse_trail _ _ hfound
    refine ⟨hpart _ (List.mem_of_getLast? hfilename), cleanPath_length _, fun marker hmarker => ?_⟩
    rw [show _ = trail u rootId schema [] values unrecognized from hmarkers] at hmarker
    refine (trail_display hmarker).imp_left fun hvalue => ?_
    exact hpart _ (List.dropLast_subset _ (hvalues.subset hvalue))

/-! The forest. -/

/-- An identifier has one place and one chain above it, and the markers below one chain are of one
level. -/
structure Forest (items : List Item) : Prop where
  chains : ∀ {a b : Item} {i j : ℕ} {m n : Marker}, a ∈ items → b ∈ items →
    a.markers[i]? = some m → b.markers[j]? = some n → m.markerId = n.markerId →
      i = j ∧ a.markers.take (i + 1) = b.markers.take (j + 1)
  levels : ∀ {a b : Item} {i : ℕ} {m n : Marker}, a ∈ items → b ∈ items →
    a.markers[i]? = some m → b.markers[i]? = some n →
      (chainOf a).take i = (chainOf b).take i →
        m.levelId = n.levelId ∧ m.levelName = n.levelName

/-- The values that lead to a marker of an item. -/
structure Leads (u : Library) (rootId : Text) (schema : Schema) (item : Item) (i : ℕ)
    (values : List Text) : Prop where
  named : ∀ value ∈ values, Named value
  deep : i ≤ values.length
  markers : ∀ k, k ≤ i →
    item.markers[k]? = some (markerAt u rootId schema (values.take k) values[k]?)

theorem Trailed.leads {items : List Item} (h : Trailed u rootId schema items) {item : Item}
    (hitem : item ∈ items) {i : ℕ} {marker : Marker} (hmarker : item.markers[i]? = some marker) :
    ∃ values, Leads u rootId schema item i values := by
  obtain ⟨values, unrecognized, hnamed, hmarkers⟩ := h item hitem
  obtain ⟨hi, _⟩ := List.getElem?_eq_some_iff.mp hmarker
  rw [hmarkers] at hi
  refine ⟨values, hnamed, (trail_get hi).1, fun k hk => ?_⟩
  rw [hmarkers]
  exact (trail_get (hk.trans_lt hi)).2

theorem Leads.same (hinjective : Function.Injective u.digest) {a b : Item} {i j : ℕ}
    {vs ws : List Text} (ha : Leads u rootId schema a i vs) (hb : Leads u rootId schema b j ws)
    (hid : (chainOf a)[i]? = (chainOf b)[j]?) :
    i = j ∧ vs.take i = ws.take j ∧ vs[i]? = ws[j]? := by
  rw [chainOf, chainOf, List.getElem?_map, List.getElem?_map, ha.markers i le_rfl,
    hb.markers j le_rfl, Option.map_some, Option.map_some, Option.some.injEq] at hid
  obtain ⟨htake, hlast⟩ := markerAt_injective hinjective
    (fun v hv => ha.named v (List.mem_of_mem_take hv))
    (fun w hw => hb.named w (List.mem_of_mem_take hw))
    (fun v hv => ha.named v (List.mem_of_getElem? hv))
    (fun w hw => hb.named w (List.mem_of_getElem? hw)) hid
  have hlength := congrArg List.length htake
  have hdeep := ha.deep
  have hdeep' := hb.deep
  rw [List.length_take, List.length_take] at hlength
  exact ⟨by omega, htake, hlast⟩

theorem Leads.take_eq {a b : Item} {i : ℕ} {vs ws : List Text} (ha : Leads u rootId schema a i vs)
    (hb : Leads u rootId schema b i ws) (htake : vs.take i = ws.take i) (hlast : vs[i]? = ws[i]?) :
    a.markers.take (i + 1) = b.markers.take (i + 1) := by
  refine List.ext_getElem? fun k => ?_
  rw [List.getElem?_take, List.getElem?_take]
  split
  · rename_i hk
    have hle : k ≤ i := Nat.lt_succ_iff.mp hk
    have htake' : vs.take k = ws.take k := by
      rw [← Nat.min_eq_left hle, ← List.take_take, htake, List.take_take]
    have hget : vs[k]? = ws[k]? := by
      rcases Nat.lt_or_eq_of_le hle with hlt | rfl
      · have heq := congrArg (·[k]?) htake
        simpa [List.getElem?_take, hlt] using heq
      · exact hlast
    rw [ha.markers k hle, hb.markers k hle, htake', hget]
  · rfl

theorem Trailed.forest (hinjective : Function.Injective u.digest) {items : List Item}
    (h : Trailed u rootId schema items) : Forest items := by
  constructor
  · intro a b i j m n ha hb hm hn hid
    obtain ⟨vs, hvs⟩ := h.leads ha hm
    obtain ⟨ws, hws⟩ := h.leads hb hn
    have hchain : (chainOf a)[i]? = (chainOf b)[j]? := by
      rw [chainOf, chainOf, List.getElem?_map, List.getElem?_map, hm, hn, Option.map_some,
        Option.map_some, hid]
    obtain ⟨rfl, htake, hlast⟩ := hvs.same hinjective hws hchain
    exact ⟨rfl, hvs.take_eq hws htake hlast⟩
  · intro a b i m n ha hb hm hn hchain
    obtain ⟨vs, hvs⟩ := h.leads ha hm
    obtain ⟨ws, hws⟩ := h.leads hb hn
    have htake : vs.take i = ws.take i := by
      cases i with
      | zero => rfl
      | succ i =>
        have hid : (chainOf a)[i]? = (chainOf b)[i]? := by
          have heq := congrArg (·[i]?) hchain
          simpa only [List.getElem?_take, Nat.lt_succ_self, if_true] using heq
        have hbefore : Leads u rootId schema a i vs :=
          ⟨hvs.named, Nat.le_of_succ_le hvs.deep, fun k hk => hvs.markers k (Nat.le_succ_of_le hk)⟩
        have hbefore' : Leads u rootId schema b i ws :=
          ⟨hws.named, Nat.le_of_succ_le hws.deep, fun k hk => hws.markers k (Nat.le_succ_of_le hk)⟩
        obtain ⟨_, htake, hlast⟩ := hbefore.same hinjective hbefore' hid
        rw [List.take_add_one, List.take_add_one, htake, hlast]
    have hmi := Option.some.inj (hm.symm.trans (hvs.markers i le_rfl))
    have hni := Option.some.inj (hn.symm.trans (hws.markers i le_rfl))
    rw [hmi, hni, htake]
    exact ⟨(markerAt_level _ _).1.trans (markerAt_level _ _).1.symm,
      (markerAt_level _ _).2.trans (markerAt_level _ _).2.symm⟩

end MarkerForest
