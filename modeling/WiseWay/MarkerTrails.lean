import WiseWay.Fallible
import WiseWay.Search

/-! # The trail of markers along a path

What `build_item` makes of the directories of a path is a trail: each marker is known by its level,
by the values that lead to it and by its own value. A stable id joins all these with one character.
Where no level has that character, or no value has it, the markers of one trail have different
ids; the ids of any trails of one schema tell their values where no value has either separator. -/
namespace MarkerTrails

open Records SearchText Search Fallible

variable {u : Library}

/-! Joined texts. -/

theorem split_first {c : Char} : ∀ {a b rest rest' : Text}, c ∉ a → c ∉ b →
    a ++ c :: rest = b ++ c :: rest' → a = b ∧ rest = rest'
  | [], [], _, _, _, _, h => ⟨rfl, (List.cons.inj h).2⟩
  | [], x :: b, _, _, _, hb, h => absurd (List.mem_cons.mpr (.inl (List.cons.inj h).1)) hb
  | x :: a, [], _, _, ha, _, h => absurd (List.mem_cons.mpr (.inl (List.cons.inj h).1.symm)) ha
  | x :: a, y :: b, _, _, ha, hb, h => by
    rw [List.cons_append, List.cons_append, List.cons.injEq] at h
    obtain ⟨rfl, hrest⟩ := split_first (mt (List.mem_cons_of_mem _) ha)
      (mt (List.mem_cons_of_mem _) hb) h.2
    exact ⟨by rw [h.1], hrest⟩

theorem split_last {c : Char} {a b rest rest' : Text} (ha : c ∉ rest) (hb : c ∉ rest')
    (h : a ++ c :: rest = b ++ c :: rest') : a = b ∧ rest = rest' := by
  have hreversed := congrArg List.reverse h
  simp only [List.reverse_append, List.reverse_cons, List.append_assoc, List.singleton_append]
    at hreversed
  obtain ⟨hrest, hfront⟩ := split_first (by simpa using ha) (by simpa using hb) hreversed
  exact ⟨List.reverse_injective hfront, List.reverse_injective hrest⟩

theorem parentKey_free {c : Char} (hc : c ≠ '\x1e') {values : List Text}
    (h : ∀ value ∈ values, c ∉ value) : c ∉ parentKey values := by
  induction values with
  | nil => simp [parentKey, joinWith]
  | cons a values ih =>
    have ha := h a (List.mem_cons_self ..)
    have hrest := ih fun value hvalue => h value (List.mem_cons_of_mem _ hvalue)
    by_cases hnil : values = []
    · subst hnil
      simpa [parentKey, joinWith] using ha
    · rw [parentKey, joinWith_cons _ _ hnil]
      rw [parentKey] at hrest
      simp [ha, hrest, hc]

/-! Trails. -/

section Trails

variable (u) (rootId : Text) (schema : Schema)

/-- The level that follows some values. -/
def levelAt (parents : List Text) : Level :=
  ((levels u schema parents)[parents.length]?).getD extraDepth

/-- The marker that follows some values: of a value of its own, or unrecognized. -/
def markerAt (parents : List Text) : Option Text → Marker
  | some value =>
    valueMarker u rootId schema.schemaSetVersion (levelAt u schema parents) value parents
  | none => unrecognizedMarker u rootId schema.schemaSetVersion (levelAt u schema parents) parents

/-- The markers of some values, and an unrecognized one after the last. -/
def trail (parents : List Text) : List Text → Bool → List Marker
  | [], unrecognized => if unrecognized then [markerAt u rootId schema parents none] else []
  | value :: values, unrecognized =>
    markerAt u rootId schema parents (some value) :: trail (parents ++ [value]) values unrecognized

end Trails

variable {rootId : Text} {schema : Schema}

theorem levelAt_some {parents : List Text} {level : Level}
    (h : (levels u schema parents)[parents.length]? = some level) :
    levelAt u schema parents = level := by
  rw [levelAt, h, Option.getD_some]

theorem levelAt_extra {parents : List Text}
    (h : parents.length = (levels u schema parents).length) :
    levelAt u schema parents = extraDepth := by
  rw [levelAt, List.getElem?_eq_none h.ge, Option.getD_none]

theorem parse_trail : ∀ (directories parents : List Text) {found : List Marker × Option Issue},
    parseDirectories u rootId schema parents directories = .ok found →
      ∃ values unrecognized, values <+: directories ∧
        found.1 = trail u rootId schema parents values unrecognized
  | [], parents, found, h => by
    unfold parseDirectories at h
    dsimp only at h
    split at h
    · cases h
      exact ⟨[], false, List.nil_prefix, rfl⟩
    · split at h
      · cases h
      · rename_i level hlevel
        split at h
        · cases h
          exact ⟨[], false, List.nil_prefix, rfl⟩
        · cases h
          refine ⟨[], true, List.nil_prefix, ?_⟩
          rw [trail, if_pos rfl, markerAt, levelAt_some hlevel]
  | value :: directories, parents, found, h => by
    unfold parseDirectories at h
    dsimp only at h
    split at h
    · rename_i hdepth
      cases h
      refine ⟨[], true, List.nil_prefix, ?_⟩
      rw [trail, if_pos rfl, markerAt, levelAt_extra hdepth]
    · split at h
      · cases h
      · rename_i level hlevel
        split at h
        · obtain ⟨rest, hrest, hfound⟩ := bind_eq_ok.mp h
          cases hfound
          obtain ⟨values, unrecognized, hvalues, hmarkers⟩ := parse_trail directories _ hrest
          refine ⟨value :: values, unrecognized, List.cons_prefix_cons.mpr ⟨rfl, hvalues⟩, ?_⟩
          rw [trail, markerAt, levelAt_some hlevel, ← hmarkers]
        · cases h
          refine ⟨[], true, List.nil_prefix, ?_⟩
          rw [trail, if_pos rfl, markerAt, levelAt_some hlevel]

theorem trail_get {unrecognized : Bool} : ∀ {values parents : List Text} {i : ℕ},
    i < (trail u rootId schema parents values unrecognized).length →
      i ≤ values.length ∧ (trail u rootId schema parents values unrecognized)[i]? =
        some (markerAt u rootId schema (parents ++ values.take i) values[i]?)
  | [], parents, i, h => by
    unfold trail at h ⊢
    cases unrecognized with
    | false => exact absurd h (Nat.not_lt_zero i)
    | true =>
      have hi : i = 0 := Nat.lt_one_iff.mp h
      subst hi
      exact ⟨le_rfl, by simp⟩
  | value :: values, parents, i, h => by
    cases i with
    | zero => exact ⟨Nat.zero_le _, by simp [trail]⟩
    | succ i =>
      rw [trail, List.length_cons, Nat.add_lt_add_iff_right] at h
      obtain ⟨hle, hget⟩ := trail_get h
      refine ⟨Nat.succ_le_succ hle, ?_⟩
      rw [trail, List.getElem?_cons_succ, hget, List.take_succ_cons, List.getElem?_cons_succ,
        List.append_assoc, List.singleton_append]

/-! Stable ids. -/

/-- What follows the level in the text that a stable id hashes. -/
def ending (parents : List Text) : Option Text → Text
  | some value => joinWith ['\x1f'] [parentKey parents, value, "value".toList]
  | none => joinWith ['\x1f'] [parentKey parents, "unrecognized".toList]

theorem ending_some (parents : List Text) (value : Text) : ending parents (some value) =
    parentKey parents ++ '\x1f' :: (value ++ '\x1f' :: "value".toList) := by
  rw [ending, joinWith_cons _ _ (List.cons_ne_nil _ _), joinWith_cons _ _ (List.cons_ne_nil _ _),
    joinWith_single]
  simp only [List.append_assoc, List.singleton_append]

theorem ending_none (parents : List Text) :
    ending parents none = parentKey parents ++ '\x1f' :: "unrecognized".toList := by
  rw [ending, joinWith_cons _ _ (List.cons_ne_nil _ _), joinWith_single, List.append_assoc,
    List.singleton_append]

theorem stableId_cons (rootId version levelId : Text) {parts : List Text} (h : parts ≠ []) :
    u.stableId (rootId :: version :: levelId :: parts) = "marker-".toList ++ u.digest
      (rootId ++ '\x1f' :: (version ++ '\x1f' :: (levelId ++ '\x1f' ::
        joinWith ['\x1f'] parts))) := by
  have hjoined : joinWith ['\x1f'] (rootId :: version :: levelId :: parts) = rootId ++ '\x1f' ::
      (version ++ '\x1f' :: (levelId ++ '\x1f' :: joinWith ['\x1f'] parts)) := by
    rw [joinWith_cons _ _ (List.cons_ne_nil _ _), joinWith_cons _ _ (List.cons_ne_nil _ _),
      joinWith_cons _ _ h]
    simp only [List.append_assoc, List.singleton_append]
  exact congrArg (fun text => "marker-".toList ++ u.digest text) hjoined

theorem markerAt_id (parents : List Text) (v : Option Text) :
    (markerAt u rootId schema parents v).markerId = "marker-".toList ++ u.digest
      (rootId ++ '\x1f' :: (schema.schemaSetVersion ++ '\x1f' ::
        ((levelAt u schema parents).levelId ++ '\x1f' :: ending parents v))) := by
  cases v with
  | some value => exact stableId_cons _ _ _ (List.cons_ne_nil _ _)
  | none => exact stableId_cons _ _ _ (List.cons_ne_nil _ _)

theorem markerAt_joined (hinjective : Function.Injective u.digest) {a b : List Text}
    {v w : Option Text}
    (h : (markerAt u rootId schema a v).markerId = (markerAt u rootId schema b w).markerId) :
    (levelAt u schema a).levelId ++ '\x1f' :: ending a v =
      (levelAt u schema b).levelId ++ '\x1f' :: ending b w := by
  rw [markerAt_id, markerAt_id] at h
  have hjoined := hinjective (List.append_cancel_left h)
  exact (List.cons.inj (List.append_cancel_left
    (List.cons.inj (List.append_cancel_left hjoined)).2)).2

theorem getLast?_separated {c : Char} (a : Text) {b : Text} (h : b ≠ []) :
    (a ++ c :: b).getLast? = b.getLast? := by
  obtain ⟨last, hlast⟩ := Option.isSome_iff_exists.mp (List.getLast?_isSome.mpr h)
  rw [List.getLast?_append, List.getLast?_cons, hlast]
  rfl

theorem ending_last (parents : List Text) (v : Option Text) :
    (ending parents v).getLast? = some (if v.isSome then 'e' else 'd') := by
  cases v with
  | some value =>
    rw [ending_some, getLast?_separated _ (by simp), getLast?_separated _ (by decide)]
    rfl
  | none =>
    rw [ending_none, getLast?_separated _ (by decide)]
    rfl

theorem isSome_of_joined {l m : Text} {a b : List Text} {v w : Option Text}
    (h : l ++ '\x1f' :: ending a v = m ++ '\x1f' :: ending b w) : v.isSome = w.isSome := by
  have hlast := congrArg List.getLast? h
  simp only [List.getLast?_append, List.getLast?_cons, ending_last] at hlast
  cases v <;> cases w <;> simp_all

theorem some_of_joined {l m v w : Text} {a b : List Text} (ha : '\x1f' ∉ parentKey a)
    (hb : '\x1f' ∉ parentKey b) (hv : '\x1f' ∉ v) (hw : '\x1f' ∉ w)
    (h : l ++ '\x1f' :: ending a (some v) = m ++ '\x1f' :: ending b (some w)) :
    parentKey a = parentKey b ∧ v = w := by
  have hregroup : ∀ l k x : Text, l ++ '\x1f' :: (k ++ '\x1f' :: (x ++ '\x1f' :: "value".toList)) =
      ((l ++ '\x1f' :: k) ++ '\x1f' :: x) ++ '\x1f' :: "value".toList := by
    intro l k x
    simp only [List.append_assoc, List.cons_append]
  rw [ending_some, ending_some, hregroup, hregroup] at h
  obtain ⟨hkeys, hvalues⟩ := split_last hv hw (List.append_cancel_right h)
  exact ⟨(split_last ha hb hkeys).2, hvalues⟩

theorem none_of_joined {l m : Text} {a b : List Text} (ha : '\x1f' ∉ parentKey a)
    (hb : '\x1f' ∉ parentKey b)
    (h : l ++ '\x1f' :: ending a none = m ++ '\x1f' :: ending b none) :
    parentKey a = parentKey b := by
  have hregroup : ∀ l k : Text, l ++ '\x1f' :: (k ++ '\x1f' :: "unrecognized".toList) =
      (l ++ '\x1f' :: k) ++ '\x1f' :: "unrecognized".toList := by
    intro l k
    simp only [List.append_assoc, List.cons_append]
  rw [ending_none, ending_none, hregroup, hregroup] at h
  exact (split_last ha hb (List.append_cancel_right h)).2

theorem cleanPath_mem {path : Text} {c : Char} (h : c ∈ cleanPath path) : c ∈ path ∨ c = '/' := by
  have hmem := (List.dropWhile_suffix _).subset ((List.rdropWhile_prefix _ _).subset h)
  obtain ⟨d, hd, rfl⟩ := List.mem_map.mp hmem
  split
  · exact .inr rfl
  · exact .inl hd

theorem part_sublist {separator : Char} {part : Text} : ∀ {parts : List Text}, part ∈ parts →
    part.Sublist ([separator].intercalate parts)
  | [only], h => by
    rw [List.mem_singleton.mp h]
    simp [List.intercalate]
  | first :: next :: parts, h => by
    have hcons : [separator].intercalate (first :: next :: parts) =
        first ++ [separator] ++ [separator].intercalate (next :: parts) := by
      simp [List.intercalate]
    rw [hcons]
    rcases List.mem_cons.mp h with rfl | h
    · rw [List.append_assoc]
      exact List.sublist_append_left ..
    · exact (part_sublist h).trans (List.sublist_append_right ..)

theorem pathParts_sublist {path part : Text} (h : part ∈ pathParts path) : part.Sublist path := by
  have hjoined : ['/'].intercalate (path.splitOn '/') = path := List.intercalate_splitOn '/'
  have hpart : part.Sublist (['/'].intercalate (path.splitOn '/')) :=
    part_sublist (List.mem_filter.mp h).1
  rwa [hjoined] at hpart

theorem built_trail {displayPrefix : Text} {file : FileRecord} {item : Item}
    (h : buildItem u rootId displayPrefix schema file = .ok item) : ∃ values unrecognized,
      (∀ value ∈ values, value ∈ pathParts (cleanPath file.relativePath)) ∧
        item.markers = trail u rootId schema [] values unrecognized := by
  unfold buildItem at h
  dsimp only at h
  split at h
  · cases h
  · obtain ⟨found, hfound, h⟩ := bind_eq_ok.mp h
    cases h
    obtain ⟨values, unrecognized, hvalues, hmarkers⟩ := parse_trail _ _ hfound
    exact ⟨values, unrecognized, fun value hvalue =>
      List.dropLast_subset _ (hvalues.subset hvalue), hmarkers⟩

theorem part_ne_nil {path part : Text} (h : part ∈ pathParts path) : part ≠ [] :=
  of_decide_eq_true (List.mem_filter.mp h).2

theorem part_free {path part : Text} {c : Char} (hc : c ≠ '/') (hpath : c ∉ path)
    (h : part ∈ pathParts (cleanPath path)) : c ∉ part := by
  intro hmem
  rcases cleanPath_mem ((pathParts_sublist h).subset hmem) with hin | heq
  · exact hpath hin
  · exact hc heq

end MarkerTrails
