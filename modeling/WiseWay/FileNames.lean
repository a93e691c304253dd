import WiseWay.DictionaryService
import WiseWay.Lookups

/-! # Names of files

The names that a walk can meet, the suffix that a file keeps, and the names that files get
from rules that were accepted. -/
namespace FileNames

open Records Services Rules Lookups DictionaryService
open Fallible (bind_eq_ok)

/-! Names of a walk. -/

/-- A path of names that directories can hold; the walk does not list `.` and `..`. -/
structure Walked (path : Text) : Prop where
  nul : '\x00' ∉ path
  components : ∀ part ∈ path.splitOn '/', badComponent part = false

theorem clean_iff_walked {path : Text} : Clean path ↔ Walked path ∧ '\\' ∉ path :=
  ⟨fun h => ⟨⟨h.nul, h.components⟩, h.backslash⟩, fun h => ⟨h.2, h.1.nul, h.1.components⟩⟩

theorem slash_not_mem_leaf (path : Text) : '/' ∉ leaf path := by
  intro h
  have := List.mem_rtakeWhile_imp h
  simp at this

theorem leaf_suffix (path : Text) : leaf path <:+ path := List.rtakeWhile_suffix ..

theorem leaf_mem_parts (path : Text) : leaf path ∈ path.splitOn '/' := by
  have hleaf : (leaf path).splitOn '/' = [leaf path] :=
    List.splitOn_eq_singleton (slash_not_mem_leaf path)
  have hsplit : path.rdropWhile (· ≠ '/') ++ leaf path = path :=
    List.rdropWhile_append_rtakeWhile
  by_cases hfront : path.rdropWhile (· ≠ '/') = []
  · rw [hfront, List.nil_append] at hsplit
    rw [hsplit] at hleaf
    rw [hsplit, hleaf]
    exact List.mem_singleton_self _
  · have hlast := List.rdropWhile_last_not _ _ hfront
    have hslash : (path.rdropWhile (· ≠ '/')).getLast hfront = '/' := by simpa using hlast
    have hpath : path = (path.rdropWhile (· ≠ '/')).dropLast ++ '/' :: leaf path := by
      conv_lhs => rw [← hsplit, ← List.dropLast_append_getLast hfront, hslash]
      simp
    rw [hpath, List.splitOn_append_cons_self, ← hpath, hleaf]
    exact List.mem_append_right _ (List.mem_singleton_self _)

theorem Walked.leaf {path : Text} (h : Walked path) :
    badComponent (leaf path) = false ∧ '\x00' ∉ Rules.leaf path :=
  ⟨h.components _ (leaf_mem_parts path), fun hnul => h.nul ((leaf_suffix path).subset hnul)⟩

/-! The suffix that a file keeps. -/

/-- It begins with the last dot, if there is something before it and behind it. -/
inductive Suffix (filename : Text) : Text → Prop where
  | dotted {stem rest} : filename = stem ++ '.' :: rest → '.' ∉ rest → stem ≠ [] → rest ≠ [] →
      Suffix filename ('.' :: rest)
  | bare : (∀ stem rest, filename = stem ++ '.' :: rest → '.' ∉ rest → stem = [] ∨ rest = []) →
      Suffix filename []

theorem last_dot_unique {a b c d : Text} (h : a ++ '.' :: b = c ++ '.' :: d) (hb : '.' ∉ b)
    (hd : '.' ∉ d) : a = c ∧ b = d := by
  rcases List.append_eq_append_iff.mp h with ⟨e, rfl, he⟩ | ⟨e, rfl, he⟩
  · cases e with
    | nil => simp_all
    | cons x e =>
      rw [List.cons_append, List.cons.injEq] at he
      exact absurd (he.2 ▸ List.mem_append_right e (List.mem_cons_self ..)) hb
  · cases e with
    | nil => simp_all
    | cons x e =>
      rw [List.cons_append, List.cons.injEq] at he
      exact absurd (he.2 ▸ List.mem_append_right e (List.mem_cons_self ..)) hd

theorem Suffix.unique {filename a b : Text} (ha : Suffix filename a) (hb : Suffix filename b) :
    a = b := by
  cases ha with
  | @dotted stem rest heq hrest hstem hne =>
    cases hb with
    | dotted heq' hrest' _ _ =>
      rw [(last_dot_unique (heq.symm.trans heq') hrest hrest').2]
    | bare hbare => exact absurd (hbare stem rest heq hrest) (by simp [hstem, hne])
  | bare hbare =>
    cases hb with
    | @dotted stem rest heq hrest hstem hne =>
      exact absurd (hbare stem rest heq hrest) (by simp [hstem, hne])
    | bare _ => rfl

theorem rfind_append {c : Char} {front rest : Text} (h : c ∉ rest) :
    rfind c (front ++ c :: rest) = some front.length := by
  have hnone : rest.reverse.findIdx? (· = c) = none := by
    refine List.findIdx?_eq_none_iff.mpr fun x hx => ?_
    rw [decide_eq_false_iff_not]
    rintro rfl
    exact h (List.mem_reverse.mp hx)
  have hfound : (front ++ c :: rest).reverse.findIdx? (· = c) = some rest.length := by
    rw [List.reverse_append, List.reverse_cons, List.append_assoc, List.findIdx?_append, hnone]
    simp [List.findIdx?_cons]
  unfold rfind
  rw [hfound]
  dsimp only
  rw [List.length_append, List.length_cons]
  congr 1
  omega

theorem rfind_none {c : Char} {s : Text} (h : c ∉ s) : rfind c s = none := by
  have hnone : s.reverse.findIdx? (· = c) = none := by
    refine List.findIdx?_eq_none_iff.mpr fun x hx => ?_
    rw [decide_eq_false_iff_not]
    rintro rfl
    exact h (List.mem_reverse.mp hx)
  unfold rfind
  rw [hnone]

theorem last_occurrence {c : Char} {s : Text} (h : c ∈ s) :
    ∃ front rest, s = front ++ c :: rest ∧ c ∉ rest := by
  obtain ⟨as, bs, heq, has⟩ := List.eq_append_cons_of_mem (List.mem_reverse.mpr h)
  refine ⟨bs.reverse, as.reverse, ?_, fun hc => has (List.mem_reverse.mp hc)⟩
  rw [← List.reverse_reverse s, heq]
  simp

theorem extension_suffix (filename : Text) : Suffix filename (extension filename) := by
  by_cases hdot : '.' ∈ filename
  · obtain ⟨front, rest, rfl, hrest⟩ := last_occurrence hdot
    unfold extension
    rw [rfind_append hrest]
    dsimp only
    split
    · rename_i hedge
      refine .bare fun stem rest' heq hrest' => ?_
      obtain ⟨rfl, rfl⟩ := last_dot_unique heq hrest hrest'
      rcases hedge with hfirst | hlast
      · exact .inl (List.length_eq_zero_iff.mp hfirst)
      · rw [List.length_append, List.length_cons] at hlast
        exact .inr (List.length_eq_zero_iff.mp (by omega))
    · rename_i hinner
      obtain ⟨hfirst, hlast⟩ := not_or.mp hinner
      rw [List.drop_left]
      refine .dotted rfl hrest (fun hnil => hfirst (by rw [hnil]; rfl)) fun hnil => hlast ?_
      rw [hnil, List.length_append]
      rfl
  · unfold extension
    rw [rfind_none hdot]
    refine .bare fun stem rest heq _ => absurd ?_ hdot
    rw [heq]
    exact List.mem_append_right _ (List.mem_cons_self ..)

theorem Suffix.subset {filename suffix : Text} (h : Suffix filename suffix) :
    suffix ⊆ filename := by
  cases h with
  | dotted heq _ _ _ =>
    rw [heq]
    exact List.subset_append_right ..
  | bare _ => exact List.nil_subset _

/-! Rules that were accepted. -/

/-- A rule of a list that `_validate_rules` let into a dictionary of some company. -/
def Accepted (layout : Layout) (rule : RuleBody) : Prop :=
  ∃ tree companyId rules, validateRules layout tree companyId rules = .ok () ∧ rule ∈ rules

structure Stem (stem : Text) : Prop where
  nonempty : stem ≠ []
  characters : stem.length ≤ 200
  bytes : (stem.map Char.utf8Size).sum ≤ 255
  current : stem ≠ ['.']
  parent : stem ≠ ['.', '.']
  slash : '/' ∉ stem
  backslash : '\\' ∉ stem
  nul : '\x00' ∉ stem

theorem badStem_eq_false {stem : Text} (h : badStem stem = false) : Stem stem := by
  unfold badStem at h
  simp only [decide_eq_false_iff_not, not_or] at h
  obtain ⟨hne, hlength, hbytes, hdot, hdots, hany, _⟩ := h
  have hchar : ∀ c ∈ stem, ¬(c = '/' ∨ c = '\\' ∨ c = '\x00') := by
    intro c hc hbad
    exact hany (List.any_eq_true.mpr ⟨c, hc, by simpa using hbad⟩)
  exact ⟨hne, not_lt.mp hlength, not_lt.mp hbytes, hdot, hdots,
    fun hc => hchar _ hc (.inl rfl), fun hc => hchar _ hc (.inr (.inl rfl)),
    fun hc => hchar _ hc (.inr (.inr rfl))⟩

theorem validateRule_ok {known : List TargetDirectory} {seen next : List Text} {rule : RuleBody}
    (h : validateRule known seen rule = .ok next) :
    rule.target ∈ known ∧ badStem rule.targetStem = false := by
  unfold validateRule at h
  split at h
  · cases h
  split at h
  · cases h
  rename_i hknown
  split at h
  · cases h
  · rename_i hstem
    exact ⟨not_not.mp hknown, Bool.eq_false_iff.mpr hstem⟩

theorem validated {known : List TargetDirectory} :
    ∀ {rules : List RuleBody} {seen last : List Text},
    rules.foldlM (validateRule known) seen = .ok last →
      ∀ rule ∈ rules, rule.target ∈ known ∧ badStem rule.targetStem = false
  | [], _, _, _ => by simp
  | first :: rules, seen, last, h => by
    rw [List.foldlM_cons] at h
    obtain ⟨next, hfirst, h⟩ := bind_eq_ok.mp h
    intro rule hrule
    rcases List.mem_cons.mp hrule with rfl | hrule
    · exact validateRule_ok hfirst
    · exact validated h rule hrule

theorem filterAuxM_ok {α : Type} {f : α → Except Exn Bool} : ∀ {l acc r : List α},
    List.filterAuxM f l acc = .ok r → ∀ a ∈ r, a ∈ acc ∨ f a = .ok true
  | [], acc, r, h => by
    cases h
    exact fun a ha => .inl ha
  | b :: l, acc, r, h => by
    obtain ⟨keep, hkeep, h⟩ := bind_eq_ok.mp h
    intro a ha
    rcases filterAuxM_ok h a ha with hmem | ha
    · cases keep with
      | true =>
        rcases List.mem_cons.mp hmem with rfl | hmem
        · exact .inr hkeep
        · exact .inl hmem
      | false => exact .inl hmem
    · exact .inr ha

theorem filterM_ok {α : Type} {f : α → Except Exn Bool} {l r : List α}
    (h : l.filterM f = .ok r) : ∀ a ∈ r, f a = .ok true := by
  obtain ⟨reversed, hreversed, h⟩ := bind_eq_ok.mp h
  cases h
  intro a ha
  exact (filterAuxM_ok hreversed a (List.mem_reverse.mp ha)).resolve_left (by simp)

theorem accepted_spec {layout : Layout} {rule : RuleBody} (h : Accepted layout rule) :
    Stem rule.targetStem ∧ ∃ root, layout.root rule.target.rootId = some root ∧
      Clean (below root rule.target.relativeDirectory) := by
  obtain ⟨tree, companyId, rules, hrules, hrule⟩ := h
  obtain ⟨known, hknown, hrules⟩ := bind_eq_ok.mp hrules
  obtain ⟨last, hlast, _⟩ := bind_eq_ok.mp hrules
  obtain ⟨company, _, hknown⟩ := bind_eq_ok.mp hknown
  obtain ⟨htarget, hstem⟩ := validated hlast rule hrule
  refine ⟨badStem_eq_false hstem, ?_⟩
  obtain ⟨loc, hloc, hcheck⟩ := bind_eq_ok.mp (filterM_ok hknown _ htarget)
  obtain ⟨path, hpath, hcheck⟩ := bind_eq_ok.mp hcheck
  obtain ⟨l, hparts, _⟩ := bind_eq_ok.mp hcheck
  obtain ⟨root, hroot, _, _, rfl⟩ := location_eq_ok.mp hloc
  obtain ⟨_, root', hroot', rfl⟩ := physical_eq_ok.mp hpath
  obtain rfl : root = root' := Option.some.inj (hroot.symm.trans hroot')
  exact ⟨root, hroot, (parts_eq_ok.mp hparts).1⟩

/-! The name that a rule gives a file. -/

def targetName (stem filename : Text) : Text := stem ++ extension filename

theorem targetName_clean {stem filename : Text} (h : Stem stem) (hslash : '/' ∉ filename)
    (hback : '\\' ∉ filename) (hnul : '\x00' ∉ filename) :
    '/' ∉ targetName stem filename ∧ Clean (targetName stem filename) := by
  have hsuffix := extension_suffix filename
  have hsubset := hsuffix.subset
  have hname : '/' ∉ targetName stem filename := by
    intro hmem
    rcases List.mem_append.mp hmem with hmem | hmem
    · exact h.slash hmem
    · exact hslash (hsubset hmem)
  refine ⟨hname, (clean_component hname).mpr ⟨?_, ?_, ?_⟩⟩
  · intro hmem
    rcases List.mem_append.mp hmem with hmem | hmem
    · exact h.backslash hmem
    · exact hback (hsubset hmem)
  · intro hmem
    rcases List.mem_append.mp hmem with hmem | hmem
    · exact h.nul hmem
    · exact hnul (hsubset hmem)
  · rw [badComponent_eq_false]
    unfold targetName
    revert hsuffix
    generalize extension filename = suffix
    intro hsuffix
    have hstem := List.length_pos_iff.mpr h.nonempty
    cases hsuffix with
    | @dotted front rest _ _ _ hrest =>
      have hrest := List.length_pos_iff.mpr hrest
      have hlong : 3 ≤ (stem ++ '.' :: rest).length := by
        rw [List.length_append, List.length_cons]
        omega
      refine ⟨?_, ?_, ?_⟩ <;> intro heq <;> rw [heq] at hlong <;> simp at hlong
    | bare _ =>
      rw [List.append_nil]
      exact ⟨h.nonempty, h.current, h.parent⟩

theorem target_clean {layout : Layout} {rule : RuleBody} (h : Accepted layout rule)
    {filename : Text} (hslash : '/' ∉ filename) (hback : '\\' ∉ filename)
    (hnul : '\x00' ∉ filename) :
    ∃ root, layout.root rule.target.rootId = some root ∧
      (targetTuple rule.target rule.targetStem filename).1 = rule.target.rootId ∧
      (targetTuple rule.target rule.targetStem filename).2 =
        rule.target.relativeDirectory ++ '/' :: targetName rule.targetStem filename ∧
      Clean (targetTuple rule.target rule.targetStem filename).2 := by
  obtain ⟨hstem, root, hroot, hbelow⟩ := accepted_spec h
  have hdirectory := clean_of_below hbelow
  have hpath : (targetTuple rule.target rule.targetStem filename).2 =
      rule.target.relativeDirectory ++ '/' :: targetName rule.targetStem filename :=
    join_clean hdirectory _
  refine ⟨root, hroot, rfl, hpath, ?_⟩
  rw [hpath]
  exact clean_append.mpr ⟨hdirectory, (targetName_clean hstem hslash hback hnul).2⟩

end FileNames
