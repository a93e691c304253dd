import Mathlib.Data.List.Chain
import WiseWay.Fallible
import WiseWay.SearchText

/-! # The query language

A query is a sequence of words and quoted phrases. Its normal form is put together out of the
tokens, so it is read back as the same query only if the tokens stay what they are. -/
namespace QueryLanguage

open Records SearchText
open Fallible (bind_eq_ok)

/-- What `str` and `re` promise of characters: case folding is idempotent and makes no quote, and
no separator is a letter or a digit. -/
structure Lawful (u : Unicode) : Prop where
  fold_nonempty : ∀ c, u.fold c ≠ []
  fold_idempotent : ∀ c, casefold u (u.fold c) = u.fold c
  fold_quote : ∀ c, '"' ∈ u.fold c → c = '"'
  space : u.isSpace ' ' = true
  quote : isSeparator u '"' = false
  neutral : ∀ c, isSeparator u c = true → isLetter u c = false ∧ isDecimal u c = false

variable {u : Unicode}

theorem isSeparator_of_isSpace {c : Char} (h : u.isSpace c = true) : isSeparator u c = true := by
  simp [isSeparator, h]

theorem Lawful.separator (hu : Lawful u) : isSeparator u ' ' = true :=
  isSeparator_of_isSpace hu.space

/-! Stretches without a transition. -/

/-- No separator and no transition between letters and digits. -/
structure Whole (u : Unicode) (w : Text) : Prop where
  plain : ∀ c ∈ w, isSeparator u c = false
  chain : w.IsChain fun a b => letterDigitBoundary u a b = false

theorem Whole.of_part {w t : Text} (h : Whole u t) (hw : w <:+: t) : Whole u w :=
  ⟨fun c hc => h.plain c (hw.subset hc), h.chain.infix hw⟩

theorem whole_nil : Whole u [] := ⟨by simp, List.isChain_nil⟩

/-- The runs between separators and transitions, the empty ones included. -/
def runs (u : Unicode) (text : Text) : List Text :=
  (separated u text).splitOnP (isSeparator u)

theorem runs_nil : runs u [] = [[]] := by
  unfold runs separated
  exact List.splitOnP_nil

theorem runs_one (c : Char) :
    runs u [c] = if isSeparator u c then [[], []] else [[c]] := by
  unfold runs separated
  rw [List.splitOnP_cons_eq_if_modifyHead, List.splitOnP_nil]
  rfl

theorem runs_cons (hu : Lawful u) (a b : Char) (rest : Text) : runs u (a :: b :: rest) =
    if isSeparator u a then [] :: runs u (b :: rest)
    else if letterDigitBoundary u a b then [a] :: runs u (b :: rest)
    else (runs u (b :: rest)).modifyHead (a :: ·) := by
  unfold runs
  rw [separated]
  by_cases hboundary : letterDigitBoundary u a b = true
  · have hplain : isSeparator u a = false := by
      by_contra hsep
      rw [boundary_left hu.neutral (by simpa using hsep)] at hboundary
      cases hboundary
    rw [if_pos hboundary, List.splitOnP_cons_eq_if_modifyHead, hplain,
      List.splitOnP_cons_eq_if_modifyHead, hu.separator]
    simp [hboundary]
  · rw [if_neg hboundary, List.splitOnP_cons_eq_if_modifyHead, if_neg hboundary]

/-- The runs are whole, lie in the text, and every whole stretch of it lies in one of them. -/
structure Runs (u : Unicode) (text first : Text) (others : List Text) : Prop where
  runs : runs u text = first :: others
  front : first <+: text
  sound : ∀ p ∈ first :: others, Whole u p ∧ p <:+: text
  covered_front : ∀ w, Whole u w → w <+: text → w <+: first
  covered : ∀ w, Whole u w → w <:+: text → ∃ p ∈ first :: others, w <:+: p

theorem whole_cons {a : Char} {w : Text} (ha : isSeparator u a = false) (hw : Whole u w)
    (hboundary : ∀ b, w.head? = some b → letterDigitBoundary u a b = false) :
    Whole u (a :: w) := by
  refine ⟨fun c hc => ?_, ?_⟩
  · rcases List.mem_cons.mp hc with rfl | hc
    · exact ha
    · exact hw.plain c hc
  · cases w with
    | nil => exact List.isChain_singleton _
    | cons b rest => exact List.isChain_cons_cons.mpr ⟨hboundary b rfl, hw.chain⟩

theorem runs_step (hu : Lawful u) {a b : Char} {rest first : Text} {others : List Text}
    (h : Runs u (b :: rest) first others) :
    ∃ first' others', Runs u (a :: b :: rest) first' others' := by
  have hlater : ∀ w, w <:+: a :: b :: rest → w <+: a :: b :: rest ∨ w <:+: b :: rest :=
    fun w hw => List.infix_cons_iff.mp hw
  have hwiden : ∀ {p : Text}, p <:+: b :: rest → p <:+: a :: b :: rest :=
    fun hp => hp.trans (List.suffix_cons ..).isInfix
  have hruns := runs_cons hu a b rest
  cases hsep : isSeparator u a with
  | true =>
    rw [hsep, if_pos rfl, h.runs] at hruns
    have hempty : ∀ w, Whole u w → w <+: a :: b :: rest → w = [] := by
      intro w hw hprefix
      cases w with
      | nil => rfl
      | cons c w =>
        obtain ⟨rfl, _⟩ := List.cons_prefix_cons.mp hprefix
        have := hw.plain c (List.mem_cons_self ..)
        rw [hsep] at this
        cases this
    refine ⟨[], first :: others, hruns, List.nil_prefix, ?_, ?_, ?_⟩
    · intro p hp
      rcases List.mem_cons.mp hp with rfl | hp
      · exact ⟨whole_nil, List.nil_infix⟩
      · obtain ⟨hwhole, hinfix⟩ := h.sound p hp
        exact ⟨hwhole, hwiden hinfix⟩
    · intro w hw hprefix
      rw [hempty w hw hprefix]
    · intro w hw hinfix
      rcases hlater w hinfix with hprefix | hinfix
      · rw [hempty w hw hprefix]
        exact ⟨[], List.mem_cons_self .., List.nil_infix⟩
      · obtain ⟨p, hp, hwp⟩ := h.covered w hw hinfix
        exact ⟨p, List.mem_cons_of_mem _ hp, hwp⟩
  | false =>
    rw [hsep, if_neg (by simp)] at hruns
    cases hboundary : letterDigitBoundary u a b with
    | true =>
      rw [hboundary, if_pos rfl, h.runs] at hruns
      have hshort : ∀ w, Whole u w → w <+: a :: b :: rest → w <+: [a] := by
        intro w hw hprefix
        cases w with
        | nil => exact List.nil_prefix
        | cons c w =>
          obtain ⟨rfl, htail⟩ := List.cons_prefix_cons.mp hprefix
          cases w with
          | nil => exact List.prefix_rfl
          | cons d w =>
            obtain ⟨rfl, _⟩ := List.cons_prefix_cons.mp htail
            have := (List.isChain_cons_cons.mp hw.chain).1
            rw [hboundary] at this
            cases this
      refine ⟨[a], first :: others, hruns, ?_, ?_, hshort, ?_⟩
      · exact List.cons_prefix_cons.mpr ⟨rfl, List.nil_prefix⟩
      · intro p hp
        rcases List.mem_cons.mp hp with rfl | hp
        · refine ⟨whole_cons hsep whole_nil (by simp), ?_⟩
          exact (List.cons_prefix_cons.mpr ⟨rfl, List.nil_prefix⟩).isInfix
        · obtain ⟨hwhole, hinfix⟩ := h.sound p hp
          exact ⟨hwhole, hwiden hinfix⟩
      · intro w hw hinfix
        rcases hlater w hinfix with hprefix | hinfix
        · exact ⟨[a], List.mem_cons_self .., (hshort w hw hprefix).isInfix⟩
        · obtain ⟨p, hp, hwp⟩ := h.covered w hw hinfix
          exact ⟨p, List.mem_cons_of_mem _ hp, hwp⟩
    | false =>
      rw [hboundary, if_neg (by simp), h.runs, List.modifyHead_cons] at hruns
      have hfront : a :: first <+: a :: b :: rest := List.cons_prefix_cons.mpr ⟨rfl, h.front⟩
      have hlonger : ∀ w, Whole u w → w <+: a :: b :: rest → w <+: a :: first := by
        intro w hw hprefix
        cases w with
        | nil => exact List.nil_prefix
        | cons c w =>
          obtain ⟨rfl, htail⟩ := List.cons_prefix_cons.mp hprefix
          refine List.cons_prefix_cons.mpr ⟨rfl, h.covered_front w ?_ htail⟩
          exact hw.of_part (List.suffix_cons ..).isInfix
      have hwhole : Whole u (a :: first) := by
        refine whole_cons hsep (h.sound first (List.mem_cons_self ..)).1 fun d hd => ?_
        obtain ⟨tail, rfl⟩ := List.head?_eq_some_iff.mp hd
        obtain ⟨rfl, _⟩ := List.cons_prefix_cons.mp h.front
        exact hboundary
      refine ⟨a :: first, others, hruns, hfront, ?_, hlonger, ?_⟩
      · intro p hp
        rcases List.mem_cons.mp hp with rfl | hp
        · exact ⟨hwhole, hfront.isInfix⟩
        · obtain ⟨hp, hinfix⟩ := h.sound p (List.mem_cons_of_mem _ hp)
          exact ⟨hp, hwiden hinfix⟩
      · intro w hw hinfix
        rcases hlater w hinfix with hprefix | hinfix
        · exact ⟨a :: first, List.mem_cons_self .., (hlonger w hw hprefix).isInfix⟩
        · obtain ⟨p, hp, hwp⟩ := h.covered w hw hinfix
          rcases List.mem_cons.mp hp with rfl | hp
          · exact ⟨a :: p, List.mem_cons_self .., hwp.trans (List.suffix_cons ..).isInfix⟩
          · exact ⟨p, List.mem_cons_of_mem _ hp, hwp⟩

theorem runs_spec (hu : Lawful u) : ∀ text : Text, ∃ first others, Runs u text first others
  | [] => by
    refine ⟨[], [], runs_nil, List.nil_prefix, ?_, fun w _ h => h, ?_⟩
    · intro p hp
      rw [List.mem_singleton.mp hp]
      exact ⟨whole_nil, List.nil_infix⟩
    · exact fun w _ h => ⟨[], List.mem_cons_self .., h⟩
  | [a] => by
    have hone : ∀ w, w <:+: [a] → w = [] ∨ w = [a] := by
      intro w hw
      rcases List.infix_cons_iff.mp hw with hprefix | hinfix
      · rcases List.prefix_cons_iff.mp hprefix with rfl | ⟨t, rfl, ht⟩
        · exact .inl rfl
        · rw [List.prefix_nil.mp ht]
          exact .inr rfl
      · exact .inl (List.infix_nil.mp hinfix)
    have hruns := runs_one (u := u) a
    cases hsep : isSeparator u a with
    | true =>
      rw [hsep, if_pos rfl] at hruns
      have hempty : ∀ w, Whole u w → w <:+: [a] → w = [] := by
        intro w hw hinfix
        refine (hone w hinfix).resolve_right fun heq => ?_
        have := hw.plain a (heq ▸ List.mem_cons_self ..)
        rw [hsep] at this
        cases this
      refine ⟨[], [[]], hruns, List.nil_prefix, ?_, ?_, ?_⟩
      · intro p hp
        have hp : p = [] := by simpa using hp
        rw [hp]
        exact ⟨whole_nil, List.nil_infix⟩
      · intro w hw hprefix
        rw [hempty w hw hprefix.isInfix]
      · intro w hw hinfix
        rw [hempty w hw hinfix]
        exact ⟨[], List.mem_cons_self .., List.nil_infix⟩
    | false =>
      rw [hsep, if_neg (by simp)] at hruns
      refine ⟨[a], [], hruns, List.prefix_rfl, ?_, fun w _ h => h, ?_⟩
      · intro p hp
        rw [List.mem_singleton.mp hp]
        exact ⟨whole_cons hsep whole_nil (by simp), List.infix_rfl⟩
      · exact fun w _ h => ⟨[a], List.mem_cons_self .., h⟩
  | a :: b :: rest => by
    obtain ⟨first, others, h⟩ := runs_spec hu (b :: rest)
    exact runs_step hu h

/-! Tokens. -/

theorem mem_tokens {text t : Text} :
    t ∈ tokens u text ↔ ∃ p ∈ runs u text, p ≠ [] ∧ casefold u p = t := by
  unfold tokens runs
  simp only [List.mem_map, List.mem_filter, decide_eq_true_eq, and_assoc]

theorem token_sound (hu : Lawful u) {text t : Text} (h : t ∈ tokens u text) :
    ∃ p, Whole u p ∧ p <:+: text ∧ p ≠ [] ∧ casefold u p = t := by
  obtain ⟨p, hp, hne, rfl⟩ := mem_tokens.mp h
  obtain ⟨first, others, hruns⟩ := runs_spec hu text
  rw [hruns.runs] at hp
  obtain ⟨hwhole, hinfix⟩ := hruns.sound p hp
  exact ⟨p, hwhole, hinfix, hne, rfl⟩

theorem casefold_append (a b : Text) : casefold u (a ++ b) = casefold u a ++ casefold u b :=
  List.flatMap_append

theorem casefold_infix {w p : Text} (h : w <:+: p) : casefold u w <:+: casefold u p := by
  obtain ⟨front, back, rfl⟩ := h
  rw [casefold_append, casefold_append]
  exact ⟨casefold u front, casefold u back, rfl⟩

theorem token_covers (hu : Lawful u) {text w : Text} (hw : Whole u w) (hne : w ≠ [])
    (h : w <:+: text) : ∃ t ∈ tokens u text, casefold u w <:+: t := by
  obtain ⟨first, others, hruns⟩ := runs_spec hu text
  obtain ⟨p, hp, hwp⟩ := hruns.covered w hw h
  refine ⟨casefold u p, mem_tokens.mpr ⟨p, hruns.runs ▸ hp, ?_, rfl⟩, casefold_infix hwp⟩
  rintro rfl
  exact hne (List.infix_nil.mp hwp)

theorem casefold_ne_nil (hu : Lawful u) {p : Text} (h : p ≠ []) : casefold u p ≠ [] := by
  obtain ⟨c, p, rfl⟩ := List.exists_cons_of_ne_nil h
  intro hnil
  exact hu.fold_nonempty c (List.append_eq_nil_iff.mp hnil).1

theorem casefold_casefold (hu : Lawful u) (p : Text) :
    casefold u (casefold u p) = casefold u p := by
  induction p with
  | nil => rfl
  | cons c p ih =>
    have hcons : casefold u (c :: p) = u.fold c ++ casefold u p := List.flatMap_cons
    rw [hcons, casefold_append, ih, hu.fold_idempotent]

theorem fold_fixed (hu : Lawful u) : ∀ {p : Text}, casefold u p = p → ∀ c ∈ p, u.fold c = [c]
  | [], _ => by simp
  | c :: p, h => by
    have hlength : ∀ q : Text, q.length ≤ (casefold u q).length := by
      intro q
      induction q with
      | nil => exact le_rfl
      | cons d q ih =>
        have := List.length_pos_iff.mpr (hu.fold_nonempty d)
        have hcons : casefold u (d :: q) = u.fold d ++ casefold u q := List.flatMap_cons
        rw [hcons, List.length_append, List.length_cons]
        omega
    have hcons : casefold u (c :: p) = u.fold c ++ casefold u p := List.flatMap_cons
    rw [hcons] at h
    obtain ⟨d, rest, hfold⟩ := List.exists_cons_of_ne_nil (hu.fold_nonempty c)
    rw [hfold, List.cons_append, List.cons.injEq] at h
    obtain ⟨rfl, hrest⟩ := h
    have hnil : rest = [] := by
      have hsum := congrArg List.length hrest
      have := hlength p
      rw [List.length_append] at hsum
      exact List.length_eq_zero_iff.mp (by omega)
    rw [hnil, List.nil_append] at hrest
    intro e he
    rcases List.mem_cons.mp he with rfl | he
    · rw [hfold, hnil]
    · exact fold_fixed hu hrest e he

theorem casefold_fixed {p : Text} (h : ∀ c ∈ p, u.fold c = [c]) : casefold u p = p := by
  induction p with
  | nil => rfl
  | cons c p ih =>
    have hcons : casefold u (c :: p) = u.fold c ++ casefold u p := List.flatMap_cons
    rw [hcons, h c (List.mem_cons_self ..), ih fun d hd => h d (List.mem_cons_of_mem _ hd)]
    rfl

structure Atomic (u : Unicode) (t : Text) : Prop where
  nonempty : t ≠ []
  whole : Whole u t
  unquoted : '"' ∉ t
  folded : casefold u t = t

theorem separated_whole {t : Text} (h : t.IsChain fun a b => letterDigitBoundary u a b = false) :
    separated u t = t := by
  induction t with
  | nil => rfl
  | cons a t ih =>
    cases t with
    | nil => rfl
    | cons b t =>
      obtain ⟨hboundary, hrest⟩ := List.isChain_cons_cons.mp h
      rw [separated, if_neg (by simp [hboundary]), ih hrest]

theorem tokens_atomic {t : Text} (h : Atomic u t) : tokens u t = [t] := by
  have hruns : (separated u t).splitOnP (isSeparator u) = [t] := by
    rw [separated_whole h.whole.chain]
    exact List.splitOnP_eq_singleton h.whole.plain
  unfold tokens
  rw [hruns]
  simp [h.nonempty, h.folded]

theorem tokens_join (hu : Lawful u) : ∀ {ts : List Text}, (∀ t ∈ ts, Atomic u t) →
    tokens u (joinWith [' '] ts) = ts
  | [], _ => by
    unfold tokens
    simp [joinWith, separated]
  | t :: ts, h => by
    have hfirst := tokens_atomic (h t (List.mem_cons_self ..))
    by_cases hrest : ts = []
    · rw [hrest]
      simpa [joinWith] using hfirst
    · have ih := tokens_join hu fun t' ht' => h t' (List.mem_cons_of_mem _ ht')
      rw [joinWith_cons _ _ hrest, List.append_assoc, List.singleton_append,
        tokens_separator hu.neutral hu.separator, hfirst, ih]
      rfl

/-! Written queries. -/

inductive Part where
  | word (content : Text)
  | phrase (content : Text)

namespace Part

def quoted : Part → Bool
  | word _ => false
  | phrase _ => true

def content : Part → Text
  | word content => content
  | phrase content => content

def text : Part → Text
  | word content => content
  | phrase content => '"' :: content ++ ['"']

/-- A word is a run without spaces and quotes; a phrase has no quote inside. -/
def Formed (u : Unicode) : Part → Prop
  | word content => content ≠ [] ∧ ∀ c ∈ content, u.isSpace c = false ∧ c ≠ '"'
  | phrase content => '"' ∉ content

def chunk (u : Unicode) (p : Part) : Chunk := (p.quoted, tokens u p.content)

end Part

inductive Written (u : Unicode) : Text → List Part → Prop where
  | empty : Written u [] []
  | space {c s parts} : u.isSpace c = true → Written u s parts → Written u (c :: s) parts
  | part {p : Part} {rest parts} : p.Formed u →
      (∀ c, rest.head? = some c → u.isSpace c = true) → Written u rest parts →
      Written u (p.text ++ rest) (p :: parts)

structure Legal (u : Unicode) (s : Text) (parts : List Part) : Prop where
  written : Written u s parts
  tokens : ∀ p ∈ parts, tokens u p.content ≠ []

theorem Lawful.quote_space (hu : Lawful u) : u.isSpace '"' = false := by
  by_contra hspace
  have := isSeparator_of_isSpace (by simpa using hspace)
  rw [hu.quote] at this
  cases this

theorem Part.Formed.head (hu : Lawful u) {p : Part} (h : p.Formed u) :
    ∃ c rest, p.text = c :: rest ∧ u.isSpace c = false := by
  cases p with
  | word content =>
    obtain ⟨hne, hall⟩ := h
    obtain ⟨c, rest, rfl⟩ := List.exists_cons_of_ne_nil hne
    exact ⟨c, rest, rfl, (hall c (List.mem_cons_self ..)).1⟩
  | phrase content => exact ⟨'"', content ++ ['"'], rfl, hu.quote_space⟩

/-! The scanner. -/

theorem parse_empty (n : ℕ) : parseChunks u n [] = .ok [] := by
  cases n <;> rfl

theorem parse_space {n : ℕ} {c : Char} {rest : Text} (h : u.isSpace c = true) :
    parseChunks u (n + 1) (c :: rest) = parseChunks u n rest := by
  rw [parseChunks, if_pos h]

def proceed (u : Unicode) (p : Part) (rest : Text) (later : Except SearchError (List Chunk)) :
    Except SearchError (List Chunk) :=
  if rest.head?.any (!u.isSpace ·) then .error .invalidQuery
  else if tokens u p.content = [] then .error .invalidQuery
  else later.map (p.chunk u :: ·)

theorem parse_phrase (hu : Lawful u) {n : ℕ} {content rest : Text} (h : '"' ∉ content) :
    parseChunks u (n + 1) ((Part.phrase content).text ++ rest) =
      proceed u (.phrase content) rest (parseChunks u n rest) := by
  have htake : (content ++ '"' :: rest).takeWhile (fun c => decide (c ≠ '"')) = content := by
    rw [List.takeWhile_append_of_pos fun c hc => ?_]
    · simp
    · have hne : c ≠ '"' := fun heq => h (heq ▸ hc)
      simpa using hne
  have htext : (Part.phrase content).text ++ rest = '"' :: (content ++ '"' :: rest) := by
    simp [Part.text]
  rw [htext, parseChunks, if_neg (by simp [hu.quote_space]), if_pos rfl]
  dsimp only
  rw [htake, List.drop_left]
  dsimp only
  unfold proceed
  split
  · rfl
  · split
    · rename_i _ hempty
      exact (if_pos hempty).symm
    · rename_i _ hne
      refine Eq.trans ?_ (if_neg hne).symm
      cases parseChunks u n rest <;> rfl

theorem parse_open (hu : Lawful u) {n : ℕ} {rest : Text} (h : '"' ∉ rest) :
    parseChunks u (n + 1) ('"' :: rest) = .error .invalidQuery := by
  have htake : rest.takeWhile (fun c => decide (c ≠ '"')) = rest := by
    refine List.takeWhile_eq_self_iff.mpr fun c hc => ?_
    have hne : c ≠ '"' := fun heq => h (heq ▸ hc)
    simpa using hne
  rw [parseChunks, if_neg (by simp [hu.quote_space]), if_pos rfl]
  dsimp only
  rw [htake, List.drop_length]

theorem parse_word {n : ℕ} {content rest : Text} (h : (Part.word content).Formed u)
    (hrest : ∀ c, rest.head? = some c → u.isSpace c = true) :
    parseChunks u (n + 1) ((Part.word content).text ++ rest) =
      proceed u (.word content) rest (parseChunks u n rest) := by
  obtain ⟨hne, hall⟩ := h
  have htake : (content ++ rest).takeWhile (fun c => !u.isSpace c) = content := by
    rw [List.takeWhile_append_of_pos fun c hc => by simp [(hall c hc).1]]
    cases rest with
    | nil => simp
    | cons d rest => simp [hrest d rfl]
  obtain ⟨c, content, rfl⟩ := List.exists_cons_of_ne_nil hne
  obtain ⟨hspace, hquote⟩ := hall c (List.mem_cons_self ..)
  have hunquoted : '"' ∉ c :: content := fun hmem => (hall _ hmem).2 rfl
  have hend : rest.head?.any (!u.isSpace ·) = false := by
    cases rest with
    | nil => rfl
    | cons d rest => simp [hrest d rfl]
  rw [show (Part.word (c :: content)).text ++ rest = c :: (content ++ rest) from rfl, parseChunks,
    if_neg (by simp [hspace]), if_neg hquote]
  dsimp only
  rw [List.cons_append] at htake
  rw [htake, if_neg hunquoted, ← List.cons_append, List.drop_left]
  unfold proceed
  rw [hend, if_neg Bool.false_ne_true]
  split
  · rename_i hempty
    exact (if_pos hempty).symm
  · rename_i hnonempty
    refine Eq.trans ?_ (if_neg hnonempty).symm
    cases parseChunks u n rest <;> rfl

theorem parse_mixed {n : ℕ} {c : Char} {rest : Text} (hspace : u.isSpace c = false)
    (hquote : c ≠ '"') (h : '"' ∈ (c :: rest).takeWhile (fun c => !u.isSpace c)) :
    parseChunks u (n + 1) (c :: rest) = .error .invalidQuery := by
  rw [parseChunks, if_neg (by simp [hspace]), if_neg hquote]
  dsimp only
  rw [if_pos h]
  rfl

/-- Every text that begins with no space begins with a part, or with an error. -/
theorem first_part (hu : Lawful u) (n : ℕ) {c : Char} (rest : Text)
    (hspace : u.isSpace c = false) :
    parseChunks u (n + 1) (c :: rest) = .error .invalidQuery ∨
      ∃ (p : Part) (after : Text), p.Formed u ∧ c :: rest = p.text ++ after ∧
        after.length ≤ rest.length ∧
        parseChunks u (n + 1) (c :: rest) = proceed u p after (parseChunks u n after) := by
  by_cases hquote : c = '"'
  · rw [hquote]
    by_cases hclosed : '"' ∈ rest
    · obtain ⟨content, after, rfl, hcontent⟩ := List.eq_append_cons_of_mem hclosed
      have htext : '"' :: (content ++ '"' :: after) = (Part.phrase content).text ++ after := by
        simp [Part.text]
      refine .inr ⟨.phrase content, after, hcontent, htext, ?_, ?_⟩
      · rw [List.length_append, List.length_cons]
        omega
      · rw [htext]
        exact parse_phrase hu hcontent
    · exact .inl (parse_open hu hclosed)
  · by_cases hmixed : '"' ∈ (c :: rest).takeWhile (fun c => !u.isSpace c)
    · exact .inl (parse_mixed hspace hquote hmixed)
    · have hsplit := List.takeWhile_append_dropWhile (p := fun c => !u.isSpace c) (l := c :: rest)
      have hformed : (Part.word ((c :: rest).takeWhile (fun c => !u.isSpace c))).Formed u := by
        refine ⟨?_, fun d hd => ⟨?_, ?_⟩⟩
        · rw [List.takeWhile_cons_of_pos (by simp [hspace])]
          simp
        · simpa using List.mem_takeWhile_imp hd
        · rintro rfl
          exact hmixed hd
      have hafter : ∀ d, ((c :: rest).dropWhile (fun c => !u.isSpace c)).head? = some d →
          u.isSpace d = true := by
        intro d hd
        have := List.head?_dropWhile_not (fun c => !u.isSpace c) (c :: rest)
        rw [hd] at this
        simpa using this
      refine .inr ⟨_, _, hformed, hsplit.symm, ?_, ?_⟩
      · have hdrop : (c :: rest).dropWhile (fun c => !u.isSpace c) =
            rest.dropWhile (fun c => !u.isSpace c) :=
          List.dropWhile_cons_of_pos (by simp [hspace])
        rw [hdrop]
        exact (List.dropWhile_sublist _).length_le
      · conv_lhs => rw [← hsplit]
        exact parse_word hformed hafter

/-! What is accepted. -/

theorem proceed_eq_ok {p : Part} {rest : Text} {later : Except SearchError (List Chunk)}
    {chunks : List Chunk} : proceed u p rest later = .ok chunks ↔
      (∀ c, rest.head? = some c → u.isSpace c = true) ∧ tokens u p.content ≠ [] ∧
        ∃ others, later = .ok others ∧ chunks = p.chunk u :: others := by
  unfold proceed
  constructor
  · intro h
    split at h
    · cases h
    rename_i hend
    split at h
    · cases h
    rename_i hne
    obtain ⟨others, hothers, rfl⟩ := Fallible.map_eq_ok.mp h
    refine ⟨fun c hc => ?_, hne, others, hothers, rfl⟩
    rw [hc] at hend
    simpa using hend
  · rintro ⟨hend, hne, others, rfl, rfl⟩
    have hhead : ¬rest.head?.any (!u.isSpace ·) = true := by
      cases hrest : rest.head? with
      | none => simp
      | some c => simp [hend c hrest]
    rw [if_neg hhead, if_neg hne]
    rfl

theorem part_legal {p : Part} {rest : Text} {parts : List Part} (hp : p.Formed u)
    (hrest : ∀ c, rest.head? = some c → u.isSpace c = true) (hne : tokens u p.content ≠ [])
    (h : Legal u rest parts) : Legal u (p.text ++ rest) (p :: parts) := by
  refine ⟨.part hp hrest h.written, fun q hq => ?_⟩
  rcases List.mem_cons.mp hq with rfl | hq
  · exact hne
  · exact h.tokens q hq

theorem parse_sound (hu : Lawful u) : ∀ (n : ℕ) (s : Text) (chunks : List Chunk), s.length ≤ n →
    parseChunks u n s = .ok chunks → ∃ parts, Legal u s parts ∧ chunks = parts.map (·.chunk u) := by
  intro n
  induction n with
  | zero =>
    intro s chunks hs h
    obtain rfl := List.length_eq_zero_iff.mp (Nat.le_zero.mp hs)
    cases h
    exact ⟨[], ⟨.empty, by simp⟩, rfl⟩
  | succ n ih =>
    intro s chunks hs h
    cases s with
    | nil =>
      rw [parse_empty] at h
      cases h
      exact ⟨[], ⟨.empty, by simp⟩, rfl⟩
    | cons c rest =>
      rw [List.length_cons] at hs
      cases hspace : u.isSpace c with
      | true =>
        rw [parse_space hspace] at h
        obtain ⟨parts, hlegal, heq⟩ := ih rest chunks (by omega) h
        exact ⟨parts, ⟨.space hspace hlegal.written, hlegal.tokens⟩, heq⟩
      | false =>
        rcases first_part hu n rest hspace with herror |
          ⟨p, after, hp, htext, hlength, hparse⟩
        · rw [herror] at h
          cases h
        · rw [hparse] at h
          obtain ⟨hafter, hne, others, hothers, rfl⟩ := proceed_eq_ok.mp h
          obtain ⟨parts, hlegal, rfl⟩ := ih after others (by omega) hothers
          refine ⟨p :: parts, ?_, rfl⟩
          rw [htext]
          exact part_legal hp hafter hne hlegal

theorem parse_complete (hu : Lawful u) {s : Text} {parts : List Part} (h : Written u s parts) :
    (∀ p ∈ parts, tokens u p.content ≠ []) → ∀ n, s.length ≤ n →
      parseChunks u n s = .ok (parts.map (·.chunk u)) := by
  induction h with
  | empty => exact fun _ n _ => parse_empty n
  | @space c s parts hspace _ ih =>
    intro htokens n hn
    obtain ⟨n, rfl⟩ := Nat.exists_eq_add_one.mpr (lt_of_lt_of_le (Nat.succ_pos _) hn)
    rw [parse_space hspace]
    exact ih htokens n (Nat.le_of_succ_le_succ hn)
  | @part p rest parts hp hrest _ ih =>
    intro htokens n hn
    obtain ⟨c, tail, hhead, _⟩ := hp.head hu
    have hlength : rest.length < n := by
      rw [List.length_append, hhead, List.length_cons] at hn
      omega
    obtain ⟨n, rfl⟩ := Nat.exists_eq_add_one.mpr (lt_of_le_of_lt (Nat.zero_le _) hlength)
    have hlater := ih (fun q hq => htokens q (List.mem_cons_of_mem _ hq)) n (by omega)
    have hproceed : proceed u p rest (parseChunks u n rest) =
        .ok ((p :: parts).map (·.chunk u)) :=
      proceed_eq_ok.mpr ⟨hrest, htokens p (List.mem_cons_self ..), _, hlater, rfl⟩
    cases p with
    | word content =>
      rw [parse_word hp hrest]
      exact hproceed
    | phrase content =>
      rw [parse_phrase hu hp]
      exact hproceed

theorem parse_error (hu : Lawful u) : ∀ (n : ℕ) (s : Text) (e : SearchError),
    parseChunks u n s = .error e → e = .invalidQuery := by
  intro n
  induction n with
  | zero =>
    intro s e h
    cases s <;> cases h
  | succ n ih =>
    intro s e h
    cases s with
    | nil => cases h
    | cons c rest =>
      cases hspace : u.isSpace c with
      | true =>
        rw [parse_space hspace] at h
        exact ih rest e h
      | false =>
        rcases first_part hu n rest hspace with herror |
          ⟨p, after, _, _, _, hparse⟩
        · rw [herror] at h
          cases h
          rfl
        · rw [hparse] at h
          unfold proceed at h
          split at h
          · cases h
            rfl
          split at h
          · cases h
            rfl
          · cases hlater : parseChunks u n after with
            | error e' =>
              rw [hlater] at h
              cases h
              exact ih after e hlater
            | ok others =>
              rw [hlater] at h
              cases h

/-! The query of a text. -/

theorem foldl_appendOnce {α : Type} [DecidableEq α] [BEq α] [LawfulBEq α] (l acc : List α) :
    l.foldl appendOnce acc = acc ++ (l.filter (· ∉ acc)).eraseDups := by
  induction l generalizing acc with
  | nil => simp
  | cons a l ih =>
    rw [List.foldl_cons, ih]
    unfold appendOnce
    by_cases ha : a ∈ acc
    · rw [if_pos ha, List.filter_cons_of_neg (by simpa using ha)]
    · rw [if_neg ha, List.filter_cons_of_pos (by simpa using ha), List.eraseDups_cons,
        List.filter_filter, List.append_assoc, List.singleton_append]
      congr 3
      refine List.filter_congr fun b _ => ?_
      rw [Bool.eq_iff_iff]
      simp [and_comm]

namespace Part

def terms (u : Unicode) : Part → List Text
  | word content => SearchText.tokens u content
  | phrase _ => []

def phrases (u : Unicode) : Part → List (List Text)
  | word _ => []
  | phrase content => [SearchText.tokens u content]

end Part

def applied (u : Unicode) (parts : List Part) : Text :=
  joinWith [' '] (parts.map fun p => appliedPart (p.chunk u))

/-- The distinct tokens of the words and the distinct phrases, in the order of their first
appearance. -/
def queryOf (u : Unicode) (parts : List Part) : Query where
  terms := (parts.flatMap (·.terms u)).eraseDups
  phrases := (parts.flatMap (·.phrases u)).eraseDups
  appliedText := applied u parts

theorem foldl_addTerms (parts : List Part) (acc : List Text) :
    (parts.map (·.chunk u)).foldl addTerms acc =
      (parts.flatMap (·.terms u)).foldl appendOnce acc := by
  induction parts generalizing acc with
  | nil => rfl
  | cons p parts ih =>
    rw [List.map_cons, List.foldl_cons, ih, List.flatMap_cons, List.foldl_append]
    cases p <;> rfl

theorem foldl_addPhrase (parts : List Part) (acc : List (List Text)) :
    (parts.map (·.chunk u)).foldl addPhrase acc =
      (parts.flatMap (·.phrases u)).foldl appendOnce acc := by
  induction parts generalizing acc with
  | nil => rfl
  | cons p parts ih =>
    rw [List.map_cons, List.foldl_cons, ih, List.flatMap_cons, List.foldl_append]
    cases p <;> rfl

theorem parseQuery_eq_ok {s : Text} {q : Query} : parseQuery u s = .ok q ↔
    ∃ chunks, parseChunks u s.length s = .ok chunks ∧
      q = ⟨chunks.foldl addTerms [], chunks.foldl addPhrase [],
        joinWith [' '] (chunks.map appliedPart)⟩ := by
  unfold parseQuery
  cases parseChunks u s.length s with
  | error e => constructor <;> simp [bind, Except.bind]
  | ok chunks => simp [bind, Except.bind, pure, Except.pure, eq_comm]

theorem queryOf_chunks (parts : List Part) :
    (⟨(parts.map (·.chunk u)).foldl addTerms [], (parts.map (·.chunk u)).foldl addPhrase [],
      joinWith [' '] ((parts.map (·.chunk u)).map appliedPart)⟩ : Query) = queryOf u parts := by
  rw [foldl_addTerms, foldl_addPhrase, foldl_appendOnce, foldl_appendOnce, List.map_map]
  simp [queryOf, applied, Function.comp_def]

theorem parseQuery_iff (hu : Lawful u) {s : Text} {q : Query} :
    parseQuery u s = .ok q ↔ ∃ parts, Legal u s parts ∧ q = queryOf u parts := by
  rw [parseQuery_eq_ok]
  constructor
  · rintro ⟨chunks, hchunks, rfl⟩
    obtain ⟨parts, hlegal, rfl⟩ := parse_sound hu _ _ _ le_rfl hchunks
    exact ⟨parts, hlegal, queryOf_chunks parts⟩
  · rintro ⟨parts, hlegal, rfl⟩
    refine ⟨_, parse_complete hu hlegal.written hlegal.tokens _ le_rfl, ?_⟩
    exact (queryOf_chunks parts).symm

theorem parseQuery_error (hu : Lawful u) {s : Text} :
    parseQuery u s = .error .invalidQuery ↔ ¬∃ parts, Legal u s parts := by
  constructor
  · rintro herror ⟨parts, hlegal⟩
    have hok := (parseQuery_iff hu).mpr ⟨parts, hlegal, rfl⟩
    rw [herror] at hok
    cases hok
  · intro hnone
    cases hparse : parseQuery u s with
    | ok q =>
      obtain ⟨parts, hlegal, _⟩ := (parseQuery_iff hu).mp hparse
      exact absurd ⟨parts, hlegal⟩ hnone
    | error e =>
      unfold parseQuery at hparse
      cases hchunks : parseChunks u s.length s with
      | ok chunks =>
        rw [hchunks] at hparse
        cases hparse
      | error e' =>
        rw [hchunks] at hparse
        cases hparse
        rw [parse_error hu _ _ _ hchunks]

/-! Texts whose words stay words. -/

/-- Case folding leaves every stretch of the text without separators and transitions one. -/
def Steady (u : Unicode) (s : Text) : Prop :=
  ∀ w, w <:+: s → '"' ∉ w → Whole u w → Whole u (casefold u w)

theorem written_part {s : Text} {parts : List Part} (h : Written u s parts) :
    ∀ p ∈ parts, p.Formed u ∧ p.content <:+: s := by
  induction h with
  | empty => simp
  | space _ _ ih =>
    intro p hp
    obtain ⟨hformed, hinfix⟩ := ih p hp
    exact ⟨hformed, hinfix.trans (List.suffix_cons ..).isInfix⟩
  | @part p rest parts hformed _ _ ih =>
    intro q hq
    rcases List.mem_cons.mp hq with rfl | hq
    · refine ⟨hformed, List.IsInfix.trans ?_ (List.prefix_append ..).isInfix⟩
      cases q with
      | word content => exact List.infix_rfl
      | phrase content => exact ⟨['"'], ['"'], rfl⟩
    · obtain ⟨hformed, hinfix⟩ := ih q hq
      exact ⟨hformed, hinfix.trans (List.suffix_append ..).isInfix⟩

theorem Part.Formed.unquoted {p : Part} (h : p.Formed u) : '"' ∉ p.content := by
  cases p with
  | word content => exact fun hmem => (h.2 _ hmem).2 rfl
  | phrase content => exact h

theorem tokens_steady (hu : Lawful u) {s : Text} {parts : List Part} (h : Written u s parts)
    (hs : Steady u s) {p : Part} (hp : p ∈ parts) : ∀ t ∈ tokens u p.content, Atomic u t := by
  intro t ht
  obtain ⟨hformed, hinfix⟩ := written_part h p hp
  obtain ⟨w, hw, hin, hne, rfl⟩ := token_sound hu ht
  have hunquoted : '"' ∉ w := fun hmem => hformed.unquoted (hin.subset hmem)
  refine ⟨casefold_ne_nil hu hne, hs w (hin.trans hinfix) hunquoted hw, ?_, ?_⟩
  · intro hmem
    obtain ⟨c, hc, hquote⟩ := List.mem_flatMap.mp hmem
    exact hunquoted (hu.fold_quote c hquote ▸ hc)
  · exact casefold_casefold hu w

def Part.expand (u : Unicode) : Part → List Part
  | word content => (SearchText.tokens u content).map word
  | phrase content => [phrase (joinWith [' '] (SearchText.tokens u content))]

theorem mem_joinWith {separator : Text} {c : Char} : ∀ {parts : List Text},
    c ∈ joinWith separator parts → c ∈ separator ∨ ∃ p ∈ parts, c ∈ p
  | [], h => by simp [joinWith] at h
  | [p], h => .inr ⟨p, List.mem_cons_self .., by simpa [joinWith] using h⟩
  | p :: q :: parts, h => by
    rw [joinWith_cons _ _ (List.cons_ne_nil q parts), List.mem_append, List.mem_append] at h
    rcases h with (h | h) | h
    · exact .inr ⟨p, List.mem_cons_self .., h⟩
    · exact .inl h
    · rcases mem_joinWith h with hsep | ⟨r, hr, hc⟩
      · exact .inl hsep
      · exact .inr ⟨r, List.mem_cons_of_mem _ hr, hc⟩

theorem joinWith_append (separator : Text) : ∀ {a b : List Text}, a ≠ [] → b ≠ [] →
    joinWith separator (a ++ b) = joinWith separator a ++ separator ++ joinWith separator b
  | [], _, ha, _ => absurd rfl ha
  | [p], b, _, hb => by
    rw [List.singleton_append, joinWith_cons _ _ hb]
    simp [joinWith]
  | p :: q :: a, b, _, hb => by
    have ih := joinWith_append separator (List.cons_ne_nil q a) hb
    rw [List.cons_append, joinWith_cons _ _ (by simp), ih, joinWith_cons _ _ (List.cons_ne_nil q a)]
    simp only [List.append_assoc]

theorem joinWith_flatMap {α : Type} (separator : Text) (f : α → List Text) :
    ∀ {l : List α}, (∀ a ∈ l, f a ≠ []) →
      joinWith separator (l.map fun a => joinWith separator (f a)) =
        joinWith separator (l.flatMap f)
  | [], _ => rfl
  | [a], _ => by simp [joinWith]
  | a :: b :: l, h => by
    have ih := joinWith_flatMap separator f fun x hx => h x (List.mem_cons_of_mem _ hx)
    have hrest : (b :: l).flatMap f ≠ [] := by
      rw [List.flatMap_cons]
      exact List.append_ne_nil_of_left_ne_nil (h b (by simp)) _
    have hsplit : (a :: b :: l).flatMap f = f a ++ (b :: l).flatMap f := List.flatMap_cons
    rw [List.map_cons, joinWith_cons _ _ (by simp), ih, hsplit,
      joinWith_append _ (h a (List.mem_cons_self ..)) hrest]

theorem written_join (hu : Lawful u) : ∀ {parts : List Part}, (∀ p ∈ parts, p.Formed u) →
    Written u (joinWith [' '] (parts.map (·.text))) parts
  | [], _ => .empty
  | [p], h => by
    have hone := Written.part (h p (List.mem_cons_self ..)) (by simp) Written.empty
    simpa [joinWith] using hone
  | p :: q :: parts, h => by
    have ih := written_join hu fun r hr => h r (List.mem_cons_of_mem _ hr)
    rw [List.map_cons, joinWith_cons _ _ (by simp), List.append_assoc]
    refine .part (h p (List.mem_cons_self ..)) ?_ (.space hu.space ih)
    rintro c hc
    cases hc
    exact hu.space

section Steady

variable {p : Part}

theorem expand_formed (h : ∀ t ∈ tokens u p.content, Atomic u t) :
    ∀ q ∈ p.expand u, q.Formed u := by
  intro q hq
  cases p with
  | word content =>
    obtain ⟨t, ht, rfl⟩ := List.mem_map.mp hq
    have hatomic := h t ht
    refine ⟨hatomic.nonempty, fun c hc => ⟨?_, ?_⟩⟩
    · by_contra hspace
      have hsep := isSeparator_of_isSpace (by simpa using hspace)
      rw [hatomic.whole.plain c hc] at hsep
      cases hsep
    · rintro rfl
      exact hatomic.unquoted hc
  | phrase content =>
    obtain rfl := List.mem_singleton.mp hq
    intro hmem
    rcases mem_joinWith hmem with hspace | ⟨t, ht, hquote⟩
    · cases List.mem_singleton.mp hspace
    · exact (h t ht).unquoted hquote

theorem expand_tokens (hu : Lawful u) (h : ∀ t ∈ tokens u p.content, Atomic u t) :
    ((p.expand u).flatMap (·.terms u), (p.expand u).flatMap (·.phrases u)) =
      (p.terms u, p.phrases u) := by
  cases p with
  | word content =>
    have hsame : ∀ t ∈ tokens u content, tokens u t = [t] := fun t ht => tokens_atomic (h t ht)
    simp only [Part.expand, List.flatMap_map, Part.terms, Part.phrases, Prod.mk.injEq]
    constructor
    · rw [List.flatMap_congr hsame]
      exact List.flatMap_singleton' _
    · simp
  | phrase content =>
    have hjoin := tokens_join hu h
    simp only [Part.content] at hjoin
    simp [Part.expand, Part.terms, Part.phrases, hjoin]

theorem expand_text (hu : Lawful u) (h : ∀ t ∈ tokens u p.content, Atomic u t)
    (hne : tokens u p.content ≠ []) :
    ∀ q ∈ p.expand u, appliedPart (q.chunk u) = q.text ∧ tokens u q.content ≠ [] := by
  intro q hq
  cases p with
  | word content =>
    obtain ⟨t, ht, rfl⟩ := List.mem_map.mp hq
    have hsame : tokens u t = [t] := tokens_atomic (h t ht)
    simp [appliedPart, Part.chunk, Part.quoted, Part.content, Part.text, joinWith, hsame]
  | phrase content =>
    obtain rfl := List.mem_singleton.mp hq
    have hjoin := tokens_join hu h
    simp only [Part.content] at hjoin hne ⊢
    simp [appliedPart, Part.chunk, Part.quoted, Part.content, Part.text, hjoin, hne]

theorem expand_nonempty (hne : tokens u p.content ≠ []) : p.expand u ≠ [] := by
  cases p with
  | word content => exact fun hnil => hne (List.map_eq_nil_iff.mp hnil)
  | phrase content => exact List.cons_ne_nil _ _

theorem appliedPart_chunk :
    appliedPart (p.chunk u) = joinWith [' '] ((p.expand u).map (·.text)) := by
  cases p with
  | word content =>
    simp [appliedPart, Part.chunk, Part.quoted, Part.content, Part.expand, Part.text,
      Function.comp_def]
  | phrase content =>
    simp [appliedPart, Part.chunk, Part.quoted, Part.content, Part.expand, Part.text, joinWith]

end Steady

theorem applied_eq {parts : List Part} (h : ∀ p ∈ parts, tokens u p.content ≠ []) :
    applied u parts = joinWith [' '] ((parts.flatMap (·.expand u)).map (·.text)) := by
  have hnonempty : ∀ p ∈ parts, (p.expand u).map (·.text) ≠ [] := fun p hp => by
    simpa using expand_nonempty (h p hp)
  rw [List.map_flatMap, ← joinWith_flatMap _ _ hnonempty]
  unfold applied
  congr 1
  exact List.map_congr_left fun p _ => appliedPart_chunk

theorem applied_legal (hu : Lawful u) {s : Text} {parts : List Part} (h : Legal u s parts)
    (hs : Steady u s) : Legal u (applied u parts) (parts.flatMap (·.expand u)) := by
  constructor
  · rw [applied_eq h.tokens]
    refine written_join hu fun q hq => ?_
    obtain ⟨p, hp, hq⟩ := List.mem_flatMap.mp hq
    exact expand_formed (tokens_steady hu h.written hs hp) q hq
  · intro q hq
    obtain ⟨p, hp, hq⟩ := List.mem_flatMap.mp hq
    exact (expand_text hu (tokens_steady hu h.written hs hp) (h.tokens p hp) q hq).2

theorem queryOf_expand (hu : Lawful u) {s : Text} {parts : List Part} (h : Legal u s parts)
    (hs : Steady u s) : queryOf u (parts.flatMap (·.expand u)) = queryOf u parts := by
  have htokens : ∀ p ∈ parts,
      ((p.expand u).flatMap (·.terms u), (p.expand u).flatMap (·.phrases u)) =
        (p.terms u, p.phrases u) :=
    fun p hp => expand_tokens hu (tokens_steady hu h.written hs hp)
  have hterms : (parts.flatMap (·.expand u)).flatMap (·.terms u) = parts.flatMap (·.terms u) := by
    rw [List.flatMap_assoc]
    exact List.flatMap_congr fun p hp => congrArg Prod.fst (htokens p hp)
  have hphrases : (parts.flatMap (·.expand u)).flatMap (·.phrases u) =
      parts.flatMap (·.phrases u) := by
    rw [List.flatMap_assoc]
    exact List.flatMap_congr fun p hp => congrArg Prod.snd (htokens p hp)
  have happlied : applied u (parts.flatMap (·.expand u)) = applied u parts := by
    rw [applied_eq h.tokens]
    unfold applied
    congr 1
    refine List.map_congr_left fun q hq => ?_
    obtain ⟨p, hp, hq⟩ := List.mem_flatMap.mp hq
    exact (expand_text hu (tokens_steady hu h.written hs hp) (h.tokens p hp) q hq).1
  unfold queryOf
  rw [hterms, hphrases, happlied]

/-! The tokens of a query that is read back. -/

/-- A stretch without spaces and quotes lies in one part. -/
theorem written_covers {s : Text} {parts : List Part} (h : Written u s parts) :
    ∀ w, w ≠ [] → w <:+: s → (∀ c ∈ w, u.isSpace c = false ∧ c ≠ '"') →
      ∃ p ∈ parts, w <:+: p.content := by
  induction h with
  | empty => exact fun w hne hin => absurd (List.infix_nil.mp hin) hne
  | @space c s parts hspace _ ih =>
    intro w hne hin hw
    rcases List.infix_cons_iff.mp hin with hfront | hin
    · obtain ⟨d, w, rfl⟩ := List.exists_cons_of_ne_nil hne
      obtain ⟨rfl, _⟩ := List.cons_prefix_cons.mp hfront
      rw [(hw d (List.mem_cons_self ..)).1] at hspace
      cases hspace
    · exact ih w hne hin hw
  | @part p rest parts _ hrest _ ih =>
    intro w hne hin hw
    rcases List.infix_append_iff_ne_nil.mp hin with hin | hin | ⟨a, b, _, hb, rfl, _, hfront⟩
    · refine ⟨p, List.mem_cons_self .., ?_⟩
      cases p with
      | word content => exact hin
      | phrase content =>
        have hquote : '"' ∉ w := fun hmem => (hw _ hmem).2 rfl
        rcases List.infix_cons_iff.mp hin with hfront | hin
        · obtain ⟨d, w, rfl⟩ := List.exists_cons_of_ne_nil hne
          obtain ⟨rfl, _⟩ := List.cons_prefix_cons.mp hfront
          exact absurd (List.mem_cons_self ..) hquote
        · rcases List.infix_concat_iff.mp hin with hback | hin
          · rcases List.suffix_concat_iff.mp hback with rfl | ⟨t, rfl, _⟩
            · exact absurd rfl hne
            · exact absurd (by simp) hquote
          · exact hin
    · obtain ⟨q, hq, hin⟩ := ih w hne hin hw
      exact ⟨q, List.mem_cons_of_mem _ hq, hin⟩
    · obtain ⟨d, b, rfl⟩ := List.exists_cons_of_ne_nil hb
      obtain ⟨tail, rfl⟩ := hfront
      have hspace := hrest d rfl
      rw [(hw d (by simp)).1] at hspace
      cases hspace

theorem applied_folded (hu : Lawful u) {parts : List Part} {c : Char}
    (hc : c ∈ applied u parts) : c = ' ' ∨ c = '"' ∨ u.fold c = [c] := by
  have htoken : ∀ p : Part, ∀ t ∈ tokens u p.content, ∀ d ∈ t, u.fold d = [d] := by
    intro p t ht
    obtain ⟨w, _, _, _, rfl⟩ := token_sound hu ht
    exact fold_fixed hu (casefold_casefold hu w)
  have hjoined : ∀ p : Part, c ∈ joinWith [' '] (tokens u p.content) →
      c = ' ' ∨ c = '"' ∨ u.fold c = [c] := by
    intro p hc
    rcases mem_joinWith hc with hspace | ⟨t, ht, hc⟩
    · exact .inl (List.mem_singleton.mp hspace)
    · exact .inr (.inr (htoken p t ht c hc))
  rcases mem_joinWith hc with hspace | ⟨part, hpart, hc⟩
  · exact .inl (List.mem_singleton.mp hspace)
  obtain ⟨p, _, rfl⟩ := List.mem_map.mp hpart
  cases p with
  | word content => exact hjoined (.word content) hc
  | phrase content =>
    rcases List.mem_append.mp hc with hc | hquote
    · rcases List.mem_cons.mp hc with hquote | hc
      · exact .inr (.inl hquote)
      · exact hjoined (.phrase content) hc
    · exact .inr (.inl (List.mem_singleton.mp hquote))

theorem applied_whole (hu : Lawful u) {parts again : List Part}
    (h : Written u (applied u parts) again) {p : Part} (hp : p ∈ again) :
    ∀ t ∈ tokens u p.content, Whole u t := by
  intro t ht
  obtain ⟨w, hw, hin, _, rfl⟩ := token_sound hu ht
  obtain ⟨hformed, hcontent⟩ := written_part h p hp
  have hfixed : casefold u w = w := by
    refine casefold_fixed fun c hc => ?_
    rcases applied_folded hu ((hin.trans hcontent).subset hc) with rfl | rfl | hfold
    · have := hw.plain _ hc
      rw [hu.separator] at this
      cases this
    · exact absurd (hin.subset hc) hformed.unquoted
    · exact hfold
  rw [hfixed]
  exact hw

theorem mem_queryOf {parts : List Part} {t : Text} :
    (∃ p ∈ parts, t ∈ tokens u p.content) ↔ t ∈ (queryOf u parts).terms ∨
      ∃ ts ∈ (queryOf u parts).phrases, t ∈ ts := by
  simp only [queryOf, List.mem_eraseDups, List.mem_flatMap]
  constructor
  · rintro ⟨p, hp, ht⟩
    cases p with
    | word content => exact .inl ⟨_, hp, ht⟩
    | phrase content => exact .inr ⟨_, ⟨_, hp, List.mem_singleton_self _⟩, ht⟩
  · rintro (⟨p, hp, ht⟩ | ⟨ts, ⟨p, hp, hts⟩, ht⟩)
    · refine ⟨p, hp, ?_⟩
      cases p with
      | word content => exact ht
      | phrase content => cases ht
    · refine ⟨p, hp, ?_⟩
      cases p with
      | word content => cases hts
      | phrase content =>
        obtain rfl := List.mem_singleton.mp hts
        exact ht

theorem steady_of_again (hu : Lawful u) {s : Text} {parts : List Part} (h : Legal u s parts)
    (hagain : parseQuery u (applied u parts) = .ok (queryOf u parts)) : Steady u s := by
  intro w hin hquote hw
  by_cases hne : w = []
  · rw [hne]
    exact whole_nil
  have hplain : ∀ c ∈ w, u.isSpace c = false ∧ c ≠ '"' := by
    intro c hc
    constructor
    · by_contra hspace
      have hsep := isSeparator_of_isSpace (by simpa using hspace)
      rw [hw.plain c hc] at hsep
      cases hsep
    · rintro rfl
      exact hquote hc
  obtain ⟨p, hp, hcontent⟩ := written_covers h.written w hne hin hplain
  obtain ⟨t, ht, hfold⟩ := token_covers hu hw hne hcontent
  -- the token that holds the stretch is a token of what is read again
  obtain ⟨again, hlegal, heq⟩ := (parseQuery_iff hu).mp hagain
  have hmem := mem_queryOf.mp ⟨p, hp, ht⟩
  rw [heq] at hmem
  obtain ⟨q, hq, ht⟩ := mem_queryOf.mpr hmem
  exact (applied_whole hu hlegal.written hq t ht).of_part hfold

/-- What the query language promises of a text. -/
structure Normal (u : Unicode) (s : Text) : Prop where
  refused : parseQuery u s = .error .invalidQuery ↔ ¬∃ parts, Legal u s parts
  read : ∀ parts, Legal u s parts → parseQuery u s = .ok (queryOf u parts)
  again : ∀ q, parseQuery u s = .ok q → parseQuery u q.appliedText = .ok q

/-- A query is read as its parts say; its normal form is read as the same query exactly if case
folding puts no transition between letters and digits into one of its words. -/
theorem query_normal_form (hu : Lawful u) (s : Text) :
    Normal u s ↔ ((∃ parts, Legal u s parts) → Steady u s) := by
  constructor
  · rintro hnormal ⟨parts, hlegal⟩
    exact steady_of_again hu hlegal (hnormal.again _ (hnormal.read parts hlegal))
  · intro hsteady
    refine ⟨parseQuery_error hu, fun parts hlegal => ?_, fun q hq => ?_⟩
    · exact (parseQuery_iff hu).mpr ⟨parts, hlegal, rfl⟩
    · obtain ⟨parts, hlegal, rfl⟩ := (parseQuery_iff hu).mp hq
      have hs := hsteady ⟨parts, hlegal⟩
      refine (parseQuery_iff hu).mpr ⟨_, applied_legal hu hlegal hs, ?_⟩
      exact (queryOf_expand hu hlegal hs).symm

/-- A text whose characters fold to characters of their own kind is steady. -/
theorem steady_of_kind {s : Text} (f : Char → Char) (h : ∀ c ∈ s, u.fold c = [f c] ∧
    isSeparator u (f c) = isSeparator u c ∧ isLetter u (f c) = isLetter u c ∧
      isDecimal u (f c) = isDecimal u c) : Steady u s := by
  have hwhole : ∀ w : Text, (∀ c ∈ w, c ∈ s) → Whole u w → Whole u (w.map f) := by
    intro w
    induction w with
    | nil => exact fun _ _ => whole_nil
    | cons c w ih =>
      intro hmem hw
      obtain ⟨_, hsep, hletter, hdigit⟩ := h c (hmem c (List.mem_cons_self ..))
      have htail : ∀ d ∈ w, d ∈ s := fun d hd => hmem d (List.mem_cons_of_mem _ hd)
      have hrest := ih htail (hw.of_part (List.suffix_cons ..).isInfix)
      refine whole_cons (hsep.trans (hw.plain c (List.mem_cons_self ..))) hrest fun b hb => ?_
      cases w with
      | nil => cases hb
      | cons d w =>
        cases hb
        obtain ⟨_, _, hletter', hdigit'⟩ := h d (htail d (List.mem_cons_self ..))
        have hboundary := (List.isChain_cons_cons.mp hw.chain).1
        unfold letterDigitBoundary at hboundary ⊢
        rw [hletter, hdigit, hletter', hdigit']
        exact hboundary
  have hfold : ∀ w : Text, (∀ c ∈ w, c ∈ s) → casefold u w = w.map f := by
    intro w
    induction w with
    | nil => exact fun _ => rfl
    | cons c w ih =>
      intro hmem
      have hcons : casefold u (c :: w) = u.fold c ++ casefold u w := List.flatMap_cons
      rw [hcons, (h c (hmem c (List.mem_cons_self ..))).1,
        ih fun d hd => hmem d (List.mem_cons_of_mem _ hd)]
      rfl
  intro w hin _ hw
  rw [hfold w fun c hc => hin.subset hc]
  exact hwhole w (fun c hc => hin.subset hc) hw

/-! Greek letters. -/

/-- ASCII and the iota below a vowel, a mark that folds to a letter. -/
def greek : Unicode where
  fold c := if c = '\u0345' then ['ι'] else [c.toLower]
  isSpace := Char.isWhitespace
  isAlnum c := c.isAlphanum || c = 'ι'
  decimal := ascii.decimal

theorem toLower_plain {c : Char} (h : c.isUpper = false) : c.toLower = c := by
  unfold Char.isUpper at h
  exact dif_neg (by simpa using h)

theorem isLower_toLower {c : Char} (h : c.isUpper = true) : c.toLower.isLower = true := by
  unfold Char.isUpper at h
  unfold Char.isLower Char.toLower
  simp only [Bool.and_eq_true, decide_eq_true_eq] at h ⊢
  rw [dif_pos h]
  simp only [ge_iff_le, UInt32.le_iff_toNat_le, UInt32.toNat_add] at h ⊢
  simp at h ⊢
  omega

theorem isUpper_of_isLower {c : Char} (h : c.isLower = true) : c.isUpper = false := by
  unfold Char.isLower at h
  unfold Char.isUpper
  simp [UInt32.le_iff_toNat_le] at h ⊢
  omega

theorem toLower_toLower (c : Char) : c.toLower.toLower = c.toLower := by
  cases hupper : c.isUpper with
  | false => rw [toLower_plain hupper, toLower_plain hupper]
  | true => exact toLower_plain (isUpper_of_isLower (isLower_toLower hupper))

theorem toLower_mark {c d : Char} (hd : d.isLower = false) (h : d = c.toLower) : c = d := by
  cases hupper : c.isUpper with
  | false => rw [h, toLower_plain hupper]
  | true =>
    rw [h, isLower_toLower hupper] at hd
    cases hd

theorem lawful_greek : Lawful greek where
  fold_nonempty c := by
    simp only [greek]
    split <;> simp
  fold_idempotent c := by
    simp only [greek, casefold]
    split
    · decide
    · rename_i hne
      have hmark : c.toLower ≠ '\u0345' := fun h => hne (toLower_mark (by decide) h.symm)
      rw [List.flatMap_singleton, if_neg hmark, toLower_toLower]
  fold_quote c h := by
    simp only [greek] at h
    split at h
    · cases List.mem_singleton.mp h
    · exact toLower_mark (by decide) (List.mem_singleton.mp h)
  space := by decide
  quote := by decide
  neutral c h := by
    simp only [isSeparator, greek, Char.isWhitespace, Bool.or_eq_true, decide_eq_true_eq] at h
    rcases h with (((((((rfl | rfl) | rfl) | rfl) | rfl) | rfl) | rfl) | rfl) | rfl <;> decide

theorem query_normal_form_greek : Normal greek "Atlas \"Main 2031\" v2".toList := by
  refine (query_normal_form lawful_greek _).mpr fun _ => ?_
  have hkind : ("Atlas \"Main 2031\" v2".toList.all fun c => decide
      (greek.fold c = [c.toLower] ∧ isSeparator greek c.toLower = isSeparator greek c ∧
        isLetter greek c.toLower = isLetter greek c ∧
        isDecimal greek c.toLower = isDecimal greek c)) = true := by
    decide +kernel
  exact steady_of_kind Char.toLower fun c hc => of_decide_eq_true (List.all_eq_true.mp hkind c hc)

/-- The mark is no letter, so that no transition separates it from the digit; the letter it
folds to is separated when the applied text is read. -/
theorem iota_comes_apart :
    parseQuery greek ['\u0345', '1'] = .ok ⟨[['ι', '1']], [], ['ι', '1']⟩ ∧
      parseQuery greek ['ι', '1'] = .ok ⟨[['ι'], ['1']], [], ['ι', ' ', '1']⟩ ∧
      ¬Normal greek ['\u0345', '1'] := by
  have hfirst : parseQuery greek ['\u0345', '1'] = .ok ⟨[['ι', '1']], [], ['ι', '1']⟩ := by
    decide +kernel
  have hsecond : parseQuery greek ['ι', '1'] = .ok ⟨[['ι'], ['1']], [], ['ι', ' ', '1']⟩ := by
    decide +kernel
  refine ⟨hfirst, hsecond, fun hnormal => ?_⟩
  have hagain := hnormal.again _ hfirst
  rw [hsecond] at hagain
  injection hagain with hquery
  injection hquery with hterms
  cases hterms

end QueryLanguage
