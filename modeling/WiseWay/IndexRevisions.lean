import Mathlib.Data.List.Pairwise
import Mathlib.Logic.Function.Basic
import WiseWay.Records

/-! # Index revisions

Triggers count the changes of every index row, deletions included. Two snapshots of the
database with one revision of a root hold the same row for it. -/
namespace IndexRevisions

open Records (Text)

structure RowKey where
  kind : Text
  id : Text
  deriving DecidableEq

/-- The tables `objects` and `index_revisions`. -/
structure Snapshot where
  objects : RowKey → Option Text
  revisions : Text → Option ℕ

def indexKind : Text := "index".toList

def Snapshot.indexRow (s : Snapshot) (rootId : Text) : Option Text := s.objects ⟨indexKind, rootId⟩

/-- `INSERT … VALUES(id, 1) ON CONFLICT DO UPDATE SET revision = revision + 1`. -/
def bump (rootId : Text) (revisions : Text → Option ℕ) : Text → Option ℕ :=
  Function.update revisions rootId (some ((revisions rootId).elim 1 (· + 1)))

/-! The triggers. -/

def indexRevisionInsert (new : RowKey) (revisions : Text → Option ℕ) : Text → Option ℕ :=
  if new.kind = indexKind then bump new.id revisions else revisions

def indexRevisionUpdate (old new : RowKey) (revisions : Text → Option ℕ) : Text → Option ℕ :=
  let counted := if old.kind = indexKind then bump old.id revisions else revisions
  if new.kind = indexKind ∧ (old.kind ≠ indexKind ∨ old.id ≠ new.id) then bump new.id counted
  else counted

def indexRevisionDelete (old : RowKey) (revisions : Text → Option ℕ) : Text → Option ℕ :=
  if old.kind = indexKind then bump old.id revisions else revisions

/-- A statement on one row. An update may also change the kind or the id of its row; an upsert is
an update when its row is there and an insert otherwise. -/
inductive Statement where
  | insert (key : RowKey) (body : Text)
  | update (key new : RowKey) (body : Text)
  | delete (key : RowKey)

/-- A statement that breaks the primary key fails; one that finds no row changes nothing. -/
def execute (s : Snapshot) : Statement → Option Snapshot
  | .insert key body =>
    if (s.objects key).isSome then none
    else some
      { objects := Function.update s.objects key (some body)
        revisions := indexRevisionInsert key s.revisions }
  | .update key new body =>
    if (s.objects key).isNone then some s
    else if new ≠ key ∧ (s.objects new).isSome then none
    else some
      { objects := Function.update (Function.update s.objects key none) new (some body)
        revisions := indexRevisionUpdate key new s.revisions }
  | .delete key =>
    if (s.objects key).isNone then some s
    else some
      { objects := Function.update s.objects key none
        revisions := indexRevisionDelete key s.revisions }

def transaction : List Statement → Snapshot → Option Snapshot
  | [], s => some s
  | statement :: rest, s => (execute s statement).bind (transaction rest)

/-! What a revision says. -/

/-- Revisions in the order in which a root passes through them; no row comes first. -/
def rank (revision : Option ℕ) : ℕ := revision.elim 0 (· + 1)

/-- A later snapshot has the same revision and the same row, or a greater revision. -/
def Follows (s t : Snapshot) : Prop :=
  ∀ rootId, (t.revisions rootId = s.revisions rootId ∧ t.indexRow rootId = s.indexRow rootId) ∨
    rank (s.revisions rootId) < rank (t.revisions rootId)

theorem Follows.refl (s : Snapshot) : Follows s s := fun _ => Or.inl ⟨rfl, rfl⟩

theorem Follows.trans {s t u : Snapshot} (h : Follows s t) (h' : Follows t u) : Follows s u := by
  intro rootId
  rcases h rootId with ⟨hrev, hrow⟩ | hlt
  · rcases h' rootId with ⟨hrev', hrow'⟩ | hlt'
    · exact Or.inl ⟨hrev'.trans hrev, hrow'.trans hrow⟩
    · exact Or.inr (hrev ▸ hlt')
  · rcases h' rootId with ⟨hrev', -⟩ | hlt'
    · exact Or.inr (hrev' ▸ hlt)
    · exact Or.inr (lt_trans hlt hlt')

theorem Follows.same_row {s t : Snapshot} (h : Follows s t) {rootId : Text}
    (hrev : t.revisions rootId = s.revisions rootId) : t.indexRow rootId = s.indexRow rootId := by
  rcases h rootId with ⟨-, hrow⟩ | hlt
  · exact hrow
  · rw [hrev] at hlt
    exact absurd hlt (lt_irrefl _)

theorem rank_bump (rootId : Text) (revisions : Text → Option ℕ) :
    rank (revisions rootId) < rank (bump rootId revisions rootId) := by
  rw [bump, Function.update_self]
  cases revisions rootId with
  | none => exact Nat.zero_lt_succ 1
  | some n => exact Nat.lt_succ_self (n + 1)

theorem bump_of_ne {rootId other : Text} (h : other ≠ rootId) (revisions : Text → Option ℕ) :
    bump rootId revisions other = revisions other :=
  Function.update_of_ne h ..

theorem rank_le_bump (rootId other : Text) (revisions : Text → Option ℕ) :
    rank (revisions other) ≤ rank (bump rootId revisions other) := by
  by_cases h : other = rootId
  · rw [h]
    exact le_of_lt (rank_bump rootId revisions)
  · rw [bump_of_ne h]

theorem insert_follows {s : Snapshot} (key : RowKey) (body : Text) :
    Follows s { objects := Function.update s.objects key (some body)
                revisions := indexRevisionInsert key s.revisions } := by
  intro rootId
  by_cases hroot : key = ⟨indexKind, rootId⟩
  · subst hroot
    right
    exact rank_bump rootId s.revisions
  · left
    constructor
    · change indexRevisionInsert key s.revisions rootId = s.revisions rootId
      rw [indexRevisionInsert]
      split
      · next hkind =>
        exact bump_of_ne (fun hid => hroot (by rw [hid, ← hkind])) _
      · rfl
    · exact Function.update_of_ne (Ne.symm hroot) ..

theorem delete_follows {s : Snapshot} (key : RowKey) :
    Follows s { objects := Function.update s.objects key none
                revisions := indexRevisionDelete key s.revisions } := by
  intro rootId
  by_cases hroot : key = ⟨indexKind, rootId⟩
  · subst hroot
    right
    exact rank_bump rootId s.revisions
  · left
    constructor
    · change indexRevisionDelete key s.revisions rootId = s.revisions rootId
      rw [indexRevisionDelete]
      split
      · next hkind =>
        exact bump_of_ne (fun hid => hroot (by rw [hid, ← hkind])) _
      · rfl
    · exact Function.update_of_ne (Ne.symm hroot) ..

/-- A row that moves counts for the root it leaves and for the root it reaches. -/
theorem update_follows {s : Snapshot} (key new : RowKey) (body : Text) :
    Follows s { objects := Function.update (Function.update s.objects key none) new (some body)
                revisions := indexRevisionUpdate key new s.revisions } := by
  intro rootId
  by_cases hold : key = ⟨indexKind, rootId⟩
  · subst hold
    right
    change _ < rank (indexRevisionUpdate _ new s.revisions rootId)
    rw [indexRevisionUpdate, if_pos rfl]
    split
    · exact lt_of_lt_of_le (rank_bump rootId s.revisions) (rank_le_bump ..)
    · exact rank_bump rootId s.revisions
  · have hcounted : (if key.kind = indexKind then bump key.id s.revisions else s.revisions) rootId =
        s.revisions rootId := by
      split
      · next hkind =>
        exact bump_of_ne (fun hid => hold (by rw [hid, ← hkind])) _
      · rfl
    by_cases hnew : new = ⟨indexKind, rootId⟩
    · subst hnew
      right
      have hmoved : key.kind ≠ indexKind ∨ key.id ≠ rootId := by
        by_contra hsame
        rw [not_or, not_not, not_not] at hsame
        exact hold (by rw [← hsame.1, ← hsame.2])
      change _ < rank (indexRevisionUpdate key ⟨indexKind, rootId⟩ s.revisions rootId)
      rw [indexRevisionUpdate, if_pos ⟨rfl, hmoved⟩, ← hcounted]
      exact rank_bump rootId _
    · left
      constructor
      · change indexRevisionUpdate key new s.revisions rootId = s.revisions rootId
        rw [indexRevisionUpdate]
        split
        · next hkind =>
          rw [bump_of_ne (fun hid => hnew (by rw [hid, ← hkind.1]))]
          exact hcounted
        · exact hcounted
      · change Function.update (Function.update s.objects key none) new (some body) _ = _
        rw [Function.update_of_ne (Ne.symm hnew), Function.update_of_ne (Ne.symm hold)]
        rfl

theorem execute_follows {s t : Snapshot} {statement : Statement}
    (h : execute s statement = some t) : Follows s t := by
  cases statement with
  | insert key body =>
    simp only [execute, ite_eq_iff, reduceCtorEq, and_false, false_or, Option.some.injEq] at h
    rw [← h.2]
    exact insert_follows key body
  | update key new body =>
    simp only [execute, ite_eq_iff, reduceCtorEq, and_false, false_or, Option.some.injEq] at h
    rcases h with ⟨-, rfl⟩ | ⟨-, -, rfl⟩
    · exact Follows.refl s
    · exact update_follows key new body
  | delete key =>
    simp only [execute, ite_eq_iff, Option.some.injEq] at h
    rcases h with ⟨-, rfl⟩ | ⟨-, rfl⟩
    · exact Follows.refl s
    · exact delete_follows key

theorem transaction_follows {statements : List Statement} {s t : Snapshot}
    (h : transaction statements s = some t) : Follows s t := by
  induction statements generalizing s with
  | nil =>
    rw [transaction, Option.some.injEq] at h
    rw [h]
    exact Follows.refl t
  | cons statement rest ih =>
    obtain ⟨u, hu, hrest⟩ := Option.bind_eq_some_iff.mp h
    exact (execute_follows hu).trans (ih hrest)

/-- The committed states of the database, the latest first. -/
def History (snapshots : List Snapshot) : Prop :=
  snapshots.Pairwise fun later earlier => Follows earlier later

theorem History.commit {s t : Snapshot} {earlier : List Snapshot} {statements : List Statement}
    (h : History (s :: earlier)) (ht : transaction statements s = some t) :
    History (t :: s :: earlier) := by
  have hfollows := transaction_follows ht
  refine List.pairwise_cons.mpr ⟨?_, h⟩
  intro u hu
  rcases List.mem_cons.mp hu with rfl | hu
  · exact hfollows
  · exact ((List.pairwise_cons.mp h).1 u hu).trans hfollows

/-- Two snapshots do not have different rows under one revision. -/
def Agree (rootId : Text) (s t : Snapshot) : Prop :=
  t.revisions rootId = s.revisions rootId → t.indexRow rootId = s.indexRow rootId

instance (rootId : Text) : Std.Symm (Agree rootId) := ⟨fun _ _ h hrev => (h hrev.symm).symm⟩

theorem History.same_row {snapshots : List Snapshot} (h : History snapshots) {s t : Snapshot}
    (hs : s ∈ snapshots) (ht : t ∈ snapshots) {rootId : Text}
    (hrev : t.revisions rootId = s.revisions rootId) : t.indexRow rootId = s.indexRow rootId := by
  have hpairs : snapshots.Pairwise (Agree rootId) :=
    h.imp fun hfollows hvu => (hfollows.same_row hvu.symm).symm
  exact hpairs.forall_of_forall (fun _ _ _ => rfl) hs ht hrev

end IndexRevisions
