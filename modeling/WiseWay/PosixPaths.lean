import Mathlib.Data.List.Basic
import Mathlib.Tactic.Common
import WiseWay.TextCodecs

/-! # POSIX paths as texts

How a path is split into names and put together again. The names that a directory lists are
such that nothing is lost either way. -/
namespace PosixPaths

open TextCodecs

abbrev slash : ℕ := 47

/-- A path with its root (`/`, `//` or nothing) and its names. -/
structure PurePath where
  root : Str
  tail : List Str
  deriving DecidableEq

/-- The root of a path, and what follows it. Just two slashes are a root of their own. -/
def splitRoot (path : Str) : Str × Str :=
  if path.head? ≠ some slash then ([], path)
  else if path[1]? ≠ some slash ∨ path[2]? = some slash then ([slash], path.drop 1)
  else ([slash, slash], path.drop 2)

def parsePath (path : Str) : PurePath where
  root := (splitRoot path).1
  tail := ((splitRoot path).2.splitOn slash).filter fun name => name ≠ [] ∧ name ≠ str "."

def joinNames (names : List Str) : Str := [slash].intercalate names

def PurePath.asPosix (path : PurePath) : Str :=
  if path.root ≠ [] then path.root ++ joinNames path.tail
  else if path.tail = [] then str "."
  else joinNames path.tail

def PurePath.isAbsolute (path : PurePath) : Bool := path.root ≠ []

def PurePath.parts (path : PurePath) : List Str :=
  if path.root = [] then path.tail else path.root :: path.tail

/-- The names below another path, if the path is at or below it. -/
def PurePath.relativeTo (path other : PurePath) : Option (List Str) :=
  if path.root = other.root ∧ other.tail <+: path.tail then
    some (path.tail.drop other.tail.length)
  else none

/-! ## Names -/

/-- A code point of a decoded file name: a surrogate stands for a byte that is no UTF-8. -/
def NamePoint (c : ℕ) : Prop :=
  c ≠ 0 ∧ c ≠ slash ∧ c < 0x110000 ∧ (Surrogate c → 0xDC80 ≤ c ∧ c < 0xDD00)

instance (c : ℕ) : Decidable (NamePoint c) := inferInstanceAs (Decidable (_ ∧ _ ∧ _ ∧ (_ → _)))

structure ValidName (name : Str) : Prop where
  nonempty : name ≠ []
  self : name ≠ str "."
  parent : name ≠ str ".."
  points : ∀ c ∈ name, NamePoint c

instance (name : Str) : Decidable (ValidName name) :=
  decidable_of_iff (name ≠ [] ∧ name ≠ str "." ∧ name ≠ str ".." ∧ ∀ c ∈ name, NamePoint c)
    ⟨fun h => ⟨h.1, h.2.1, h.2.2.1, h.2.2.2⟩, fun h => ⟨h.1, h.2, h.3, h.4⟩⟩

variable {name : Str} {names : List Str}

theorem ValidName.no_slash (h : ValidName name) : slash ∉ name := by
  intro hmem
  exact (h.points slash hmem).2.1 rfl

theorem joinNames_cons (name next : Str) (rest : List Str) :
    joinNames (name :: next :: rest) = name ++ slash :: joinNames (next :: rest) := by
  rw [joinNames, List.intercalate_cons_cons, List.append_assoc]
  rfl

theorem joinNames_one (name : Str) : joinNames [name] = name := by
  simp [joinNames]

theorem splitOn_joinNames (h : ∀ name ∈ names, ValidName name) (hne : names ≠ []) :
    (joinNames names).splitOn slash = names :=
  List.splitOn_intercalate slash (fun name hname => (h name hname).no_slash) hne

theorem head_joinNames (h : ∀ name ∈ names, ValidName name) (hne : names ≠ []) :
    (joinNames names).head? ≠ some slash := by
  obtain ⟨first, rest, rfl⟩ := List.exists_cons_of_ne_nil hne
  have hfirst := h first List.mem_cons_self
  obtain ⟨c, tail, hform⟩ := List.exists_cons_of_ne_nil hfirst.nonempty
  have hjoin : ∃ more, joinNames (first :: rest) = first ++ more := by
    cases rest with
    | nil => exact ⟨[], by rw [joinNames_one, List.append_nil]⟩
    | cons next rest => exact ⟨_, joinNames_cons _ _ _⟩
  obtain ⟨more, hmore⟩ := hjoin
  rw [hmore, hform]
  intro hhead
  have hc : c = slash := Option.some.inj hhead
  exact hfirst.no_slash (by rw [hform, hc]; exact List.mem_cons_self)

theorem parsePath_joinNames (h : ∀ name ∈ names, ValidName name) (hne : names ≠ []) :
    parsePath (joinNames names) = ⟨[], names⟩ := by
  have hroot : splitRoot (joinNames names) = ([], joinNames names) :=
    if_pos (head_joinNames h hne)
  have hkeep : names.filter (fun name => name ≠ [] ∧ name ≠ str ".") = names := by
    rw [List.filter_eq_self]
    intro name hname
    have hvalid := h name hname
    exact decide_eq_true ⟨hvalid.nonempty, hvalid.self⟩
  rw [parsePath, hroot]
  simp only [splitOn_joinNames h hne, hkeep]

theorem asPosix_joinNames (hne : names ≠ []) :
    (PurePath.mk [] names).asPosix = joinNames names := by
  rw [PurePath.asPosix, if_neg (by simp), if_neg hne]

theorem joinNames_injective {other : List Str} (h : ∀ name ∈ names, ValidName name)
    (hother : ∀ name ∈ other, ValidName name) (hne : names ≠ []) (hother_ne : other ≠ [])
    (heq : joinNames names = joinNames other) : names = other := by
  rw [← splitOn_joinNames h hne, heq, splitOn_joinNames hother hother_ne]

theorem relativeTo_joinNames (hname : ValidName name) (h : ∀ name ∈ names, ValidName name) :
    (parsePath (joinNames (name :: names))).relativeTo (parsePath name) = some names := by
  have hvalid : ∀ n ∈ name :: names, ValidName n := by
    intro n hn
    rcases List.mem_cons.mp hn with rfl | hn
    · exact hname
    · exact h n hn
  have hsingle : parsePath name = ⟨[], [name]⟩ := by
    have hone : ∀ n ∈ [name], ValidName n :=
      fun n hn => by rw [List.mem_singleton.mp hn]; exact hname
    have hparse := parsePath_joinNames hone (List.cons_ne_nil _ _)
    rwa [joinNames_one] at hparse
  have hbelow : [name] <+: name :: names := ⟨names, rfl⟩
  rw [parsePath_joinNames hvalid (List.cons_ne_nil _ _), hsingle]
  exact if_pos ⟨rfl, hbelow⟩

theorem count_slash (h : ∀ name ∈ names, ValidName name) :
    (joinNames names).count slash = names.length - 1 := by
  induction names with
  | nil => rfl
  | cons name names ih =>
    have hcount : name.count slash = 0 :=
      List.count_eq_zero.mpr (h name List.mem_cons_self).no_slash
    cases names with
    | nil => rw [joinNames_one, hcount]; rfl
    | cons next rest =>
      have hrest := ih fun n hn => h n (List.mem_cons_of_mem _ hn)
      rw [joinNames_cons, List.count_append, List.count_cons_self, hcount, hrest]
      simp only [List.length_cons]
      omega

end PosixPaths
