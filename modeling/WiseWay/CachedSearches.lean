import Mathlib.Logic.Relation
import WiseWay.SearchCache

/-! # Searches through the response cache

Any number of calls of `get` in any order of their steps. The history keeps what was computed,
stored and returned; no step reads it. -/
namespace CachedSearches

open OrderedDicts SearchCache
open Records (Text)

/-- A request without its `request_state_id`, which stands beside it if it has one. -/
structure Request (G O B J : Type) where
  query : Query G O B
  stateId : Option J

inductive Progress (J P : Type) where
  | waiting
  /-- The stripe is held, and the cache not looked at yet. -/
  | entered
  | computing
  | computed (result : Result J) (payload : P)
  /-- Returned or raised; the stripe is still held. -/
  | leaving
  | done

structure Call (G O B J P : Type) where
  request : Request G O B J
  progress : Progress J P

inductive Record (G O B J : Type) where
  | computed (call : ℕ) (query : Query G O B) (result : Result J)
  | stored (call : ℕ) (query : Query G O B) (result : Result J) (now : ℤ)
  /-- A value from the cache, with the time of the look-up. -/
  | hit (call : ℕ) (query : Query G O B) (stateId : J) (value : Result J) (now : ℤ)
  | returned (call : ℕ) (query : Query G O B) (value : Result J)

structure System (G O B J K P : Type) where
  cache : Cache K P
  /-- The call that holds a stripe. -/
  stripes : ℕ → Option ℕ
  calls : ℕ → Option (Call G O B J P)
  history : List (Record G O B J)

inductive Action (G O B J : Type) where
  | call (i : ℕ) (request : Request G O B J)
  | enter (i : ℕ)
  | lookUp (i : ℕ) (now : ℤ)
  /-- The computation returns a result, or raises. -/
  | compute (i : ℕ) (result : Option (Result J))
  | store (i : ℕ) (now : ℤ)
  | leave (i : ℕ)

section Code

variable {G O B J K P : Type}

/-- What a cache is made with: its limits, the digest of a query and the stripe of a digest. -/
structure Setting (G O B J K P : Type) where
  limits : Limits
  codec : Codec J P
  key : Query G O B → K
  stripe : K → ℕ

variable (setting : Setting G O B J K P)

def initial : System G O B J K P := ⟨Cache.fresh, fun _ => none, fun _ => none, []⟩

def System.progress (s : System G O B J K P) (i : ℕ) (call : Call G O B J P)
    (progress : Progress J P) : System G O B J K P :=
  { s with calls := Function.update s.calls i (some ⟨call.request, progress⟩) }

def System.record (s : System G O B J K P) (record : Record G O B J) : System G O B J K P :=
  { s with history := s.history ++ [record] }

/-- The value of a hit; a missing id is a `KeyError`, a value that is no dictionary a
`TypeError`. -/
def hitValue (stateId : Option J) (payload : P) : Option (J × Result J) :=
  match stateId with
  | none => none
  | some id => ((setting.codec.loads payload).withState id).map fun value => (id, value)

def lookUpStep [DecidableEq K] (s : System G O B J K P) (i : ℕ) (call : Call G O B J P) (now : ℤ) :
    System G O B J K P :=
  let found := s.cache.lookUp setting.codec.length (setting.key call.request.query) now
  let s := { s with cache := found.2 }
  match found.1 with
  | none => s.progress i call .computing
  | some payload =>
    match hitValue setting call.request.stateId payload with
    | none => s.progress i call .leaving
    | some (id, value) =>
      (s.progress i call .leaving).record (.hit i call.request.query id value now)

def computeStep (s : System G O B J K P) (i : ℕ) (call : Call G O B J P)
    (result : Option (Result J)) : System G O B J K P :=
  match result with
  | none => s.progress i call .leaving
  | some result =>
    let s := s.record (.computed i call.request.query result)
    match setting.codec.dumps result with
    -- the text of the result cannot be encoded
    | none => s.progress i call .leaving
    | some payload =>
      if setting.codec.length payload ≤ setting.limits.maxBytes then
        s.progress i call (.computed result payload)
      else (s.progress i call .leaving).record (.returned i call.request.query result)

/-- A call without a cache: its computation is all there is. -/
def directStep (s : System G O B J K P) (i : ℕ) (call : Call G O B J P)
    (result : Option (Result J)) : System G O B J K P :=
  match result with
  | none => s.progress i call .done
  | some result =>
    ((s.record (.computed i call.request.query result)).progress i call .done).record
      (.returned i call.request.query result)

def storeStep [DecidableEq K] (s : System G O B J K P) (i : ℕ) (call : Call G O B J P)
    (result : Result J) (payload : P) (now : ℤ) : System G O B J K P :=
  let s := { s with
    cache := s.cache.store setting.codec.length setting.limits (setting.key call.request.query)
      now payload }
  ((s.record (.stored i call.request.query result now)).progress i call .leaving).record
    (.returned i call.request.query result)

def Call.stripe (call : Call G O B J P) : ℕ := setting.stripe (setting.key call.request.query)

/-- One step of one call; `none` where the call is not there yet. -/
def step [DecidableEq K] (s : System G O B J K P) : Action G O B J → Option (System G O B J K P)
  | .call i request =>
    match s.calls i with
    | some _ => none
    | none => some (s.progress i ⟨request, .waiting⟩ .waiting)
  | .enter i =>
    match s.calls i with
    | some ⟨request, .waiting⟩ =>
      let call : Call G O B J P := ⟨request, .waiting⟩
      if setting.limits.maxBytes ≠ 0 ∧ s.stripes (call.stripe setting) = none then
        some { s.progress i call .entered with
          stripes := Function.update s.stripes (call.stripe setting) (some i) }
      else none
    | _ => none
  | .lookUp i now =>
    match s.calls i with
    | some ⟨request, .entered⟩ => some (lookUpStep setting s i ⟨request, .entered⟩ now)
    | _ => none
  | .compute i result =>
    match s.calls i with
    | some ⟨request, .computing⟩ => some (computeStep setting s i ⟨request, .computing⟩ result)
    | some ⟨request, .waiting⟩ =>
      if setting.limits.maxBytes = 0 then some (directStep s i ⟨request, .waiting⟩ result)
      else none
    | _ => none
  | .store i now =>
    match s.calls i with
    | some ⟨request, .computed result payload⟩ =>
      some (storeStep setting s i ⟨request, .computed result payload⟩ result payload now)
    | _ => none
  | .leave i =>
    match s.calls i with
    | some ⟨request, .leaving⟩ =>
      let call : Call G O B J P := ⟨request, .leaving⟩
      some { s.progress i call .done with
        stripes := Function.update s.stripes (call.stripe setting) none }
    | _ => none

def Steps [DecidableEq K] (s t : System G O B J K P) : Prop :=
  ∃ action, step setting s action = some t

/-- The states of all interleavings. -/
def Reachable [DecidableEq K] (s : System G O B J K P) : Prop :=
  Relation.ReflTransGen (Steps setting) initial s

/-! ## Where values come from -/

/-- A record is backed by those before it: what is stored or returned was computed by the same
call, and a hit is an unexpired stored result with the caller's id. -/
def Backed (before : List (Record G O B J)) : Record G O B J → Prop
  | .computed _ _ _ => True
  | .stored i query result _ => .computed i query result ∈ before
  | .returned i query value => .computed i query value ∈ before
  | .hit _ query id value now => ∃ j result storedAt,
      .stored j query result storedAt ∈ before ∧ now < storedAt + setting.limits.ttl ∧
        result.withState id = some value

def AllBacked (history : List (Record G O B J)) : Prop :=
  ∀ before record after, history = before ++ record :: after → Backed setting before record

/-- A value that a call returned: its own result, or the result of a computation for the same
generation, operation and body with this call's id, stored less than the lifetime ago. -/
def Explained (before : List (Record G O B J)) :
    Record G O B J → Prop
  | .returned i query value => .computed i query value ∈ before
  | .hit _ query id value now => ∃ j result storedAt,
      .computed j query result ∈ before ∧ .stored j query result storedAt ∈ before ∧
        now < storedAt + setting.limits.ttl ∧ result.withState id = some value
  | _ => True

variable {setting} {s t : System G O B J K P} {history : List (Record G O B J)}

theorem allBacked_nil : AllBacked setting ([] : List (Record G O B J)) := by
  intro before record after h
  simp at h

theorem allBacked_append (h : AllBacked setting history) {record : Record G O B J}
    (hrecord : Backed setting history record) : AllBacked setting (history ++ [record]) := by
  intro before r after hsplit
  rcases List.eq_nil_or_concat after with rfl | ⟨after, last, rfl⟩
  · have heq := List.append_inj' hsplit rfl
    have hr : record = r := by simpa using heq.2
    rw [← heq.1, ← hr]
    exact hrecord
  · rw [List.concat_eq_append, ← List.cons_append, ← List.append_assoc] at hsplit
    exact h before r after (List.append_inj' hsplit rfl).1

theorem explained (h : AllBacked setting history) {before after : List (Record G O B J)}
    {record : Record G O B J} (hsplit : history = before ++ record :: after) :
    Explained setting before record := by
  have hbacked := h before record after hsplit
  cases record with
  | computed i query result => trivial
  | stored i query result now => trivial
  | returned i query value => exact hbacked
  | hit i query id value now =>
    obtain ⟨j, result, storedAt, hstored, hnow, hvalue⟩ := hbacked
    obtain ⟨earlier, later, hmem⟩ := List.append_of_mem hstored
    refine ⟨j, result, storedAt, ?_, hstored, hnow, hvalue⟩
    -- what was stored had been computed before it was
    have hstore : .computed j query result ∈ earlier := by
      apply h earlier (.stored j query result storedAt)
        (later ++ .hit i query id value now :: after)
      rw [hsplit, hmem, List.append_assoc, List.cons_append]
    rw [hmem]
    exact List.mem_append_left _ hstore

/-- A call whose progress shows that it holds its stripe. -/
def Progress.Holds : Progress J P → Prop
  | .waiting | .done => False
  | _ => True

def Progress.Between : Progress J P → Prop
  | .computing | .computed _ _ => True
  | _ => False

theorem calls_progress {i j : ℕ} {call : Call G O B J P} {progress : Progress J P} :
    (s.progress i call progress).calls j =
      if j = i then some ⟨call.request, progress⟩ else s.calls j := by
  simp only [System.progress, Function.update_apply]

variable [DecidableEq K]

variable (setting) in
structure Consistent (s : System G O B J K P) : Prop where
  accounted : Accounted setting.codec.length setting.limits s.cache
  backed : AllBacked setting s.history
  holds : ∀ i call, s.calls i = some call → call.progress.Holds →
    s.stripes (call.stripe setting) = some i
  /-- Nobody else stores under the key of a call that is between its sections. -/
  absent : ∀ i call, s.calls i = some call → call.progress.Between →
    s.cache.values.get (setting.key call.request.query) = none
  entries : ∀ key saved, s.cache.values.get key = some saved → ∃ i query result storedAt,
    key = setting.key query ∧ .stored i query result storedAt ∈ s.history ∧
      setting.codec.dumps result = some saved.2 ∧ saved.1 = storedAt + setting.limits.ttl
  encoded : ∀ i request result payload, s.calls i = some ⟨request, .computed result payload⟩ →
    .computed i request.query result ∈ s.history ∧
      setting.codec.dumps result = some payload ∧
      setting.codec.length payload ≤ setting.limits.maxBytes

theorem consistent_initial : Consistent setting (initial : System G O B J K P) where
  accounted := ⟨rfl, Int.natCast_nonneg _, Nat.zero_le _⟩
  backed := allBacked_nil
  holds := by
    intro i call h
    cases h
  absent := by
    intro i call h
    cases h
  entries := by
    intro key saved h
    cases h
  encoded := by
    intro i request result payload h
    cases h

/-! ## Steps -/

/-- A step that changes one call's progress, and neither the cache nor the stripes. -/
theorem consistent_progress (h : Consistent setting s) {i : ℕ} {call : Call G O B J P}
    {progress : Progress J P} (hholds : progress.Holds → s.stripes (call.stripe setting) = some i)
    (hbetween : progress.Between →
      s.cache.values.get (setting.key call.request.query) = none)
    (hencoded : ∀ result payload, progress = .computed result payload →
      .computed i call.request.query result ∈ s.history ∧
        setting.codec.dumps result = some payload ∧
        setting.codec.length payload ≤ setting.limits.maxBytes) :
    Consistent setting (s.progress i call progress) where
  accounted := h.accounted
  backed := h.backed
  holds := by
    intro j other hother hprogress
    rw [calls_progress] at hother
    split_ifs at hother with hj
    · cases hother
      rw [hj]
      exact hholds hprogress
    · exact h.holds j other hother hprogress
  absent := by
    intro j other hother hprogress
    rw [calls_progress] at hother
    split_ifs at hother with hj
    · cases hother
      exact hbetween hprogress
    · exact h.absent j other hother hprogress
  entries := h.entries
  encoded := by
    intro j request result payload hother
    rw [calls_progress] at hother
    split_ifs at hother with hj
    · cases hother
      rw [hj]
      exact hencoded result payload rfl
    · exact h.encoded j request result payload hother

theorem consistent_leaving (h : Consistent setting s) {i : ℕ} {call : Call G O B J P}
    (howner : s.stripes (call.stripe setting) = some i) :
    Consistent setting (s.progress i call .leaving) := by
  apply consistent_progress h
  · intro _
    exact howner
  · intro hbetween
    exact hbetween.elim
  · intro result payload heq
    cases heq

theorem consistent_record (h : Consistent setting s) {record : Record G O B J}
    (hrecord : Backed setting s.history record) : Consistent setting (s.record record) where
  accounted := h.accounted
  backed := allBacked_append h.backed hrecord
  holds := h.holds
  absent := h.absent
  entries := by
    intro key saved hget
    obtain ⟨i, query, result, storedAt, hkey, hmem, hrest⟩ := h.entries key saved hget
    exact ⟨i, query, result, storedAt, hkey, List.mem_append_left _ hmem, hrest⟩
  encoded := by
    intro i request result payload hcall
    obtain ⟨hmem, hrest⟩ := h.encoded i request result payload hcall
    exact ⟨List.mem_append_left _ hmem, hrest⟩

theorem consistent_cache (h : Consistent setting s) {cache : Cache K P}
    (hacc : Accounted setting.codec.length setting.limits cache)
    (habsent : ∀ i call, s.calls i = some call → call.progress.Between →
      cache.values.get (setting.key call.request.query) = none)
    (hentries : ∀ key saved, cache.values.get key = some saved →
      s.cache.values.get key = some saved) :
    Consistent setting { s with cache := cache } where
  accounted := hacc
  backed := h.backed
  holds := h.holds
  absent := habsent
  entries := fun key saved hget => h.entries key saved (hentries key saved hget)
  encoded := h.encoded

/-- The look-up: the other calls of the same key are all outside their sections. -/
theorem consistent_lookUp (hfaithful : setting.codec.Faithful)
    (hkey : Function.Injective setting.key) (h : Consistent setting s) {i : ℕ}
    {call : Call G O B J P} (hcall : s.calls i = some call) (hentered : call.progress = .entered)
    (now : ℤ) : Consistent setting (lookUpStep setting s i call now) := by
  have hcache : Consistent setting { s with
      cache := (s.cache.lookUp setting.codec.length (setting.key call.request.query) now).2 } := by
    apply consistent_cache h (accounted_lookUp h.accounted _ now)
    · intro j other hother hbetween
      have hnone := h.absent j other hother hbetween
      rw [Option.eq_none_iff_forall_ne_some]
      intro saved hget
      rw [get_lookUp hget] at hnone
      cases hnone
    · intro key saved hget
      exact get_lookUp hget
  have howner : s.stripes (call.stripe setting) = some i := by
    apply h.holds i call hcall
    rw [hentered]
    trivial
  unfold lookUpStep
  cases hfound : (s.cache.lookUp setting.codec.length (setting.key call.request.query) now).1 with
  | none =>
    simp only [hfound]
    apply consistent_progress hcache
    · intro _
      exact howner
    · intro _
      exact get_lookUp_miss hfound
    · intro result payload heq
      cases heq
  | some payload =>
    have hleaving := consistent_leaving hcache howner
    simp only [hfound]
    cases hvalue : hitValue setting call.request.stateId payload with
    | none => exact hleaving
    | some found =>
      obtain ⟨id, value⟩ := found
      apply consistent_record hleaving
      obtain ⟨expiry, hget, hnow⟩ := get_lookUp_hit hfound
      obtain ⟨j, query, result, storedAt, hquery, hmem, hdumps, hexpiry⟩ :=
        h.entries _ _ hget
      rw [← hkey hquery] at hmem
      refine ⟨j, result, storedAt, hmem, ?_, ?_⟩
      · rw [← hexpiry]
        exact hnow
      · cases hid : call.request.stateId with
        | none =>
          rw [hid] at hvalue
          cases hvalue
        | some stateId =>
          rw [hid] at hvalue
          obtain ⟨v, hv, heq⟩ := Option.map_eq_some_iff.mp hvalue
          cases heq
          rwa [hfaithful result payload hdumps] at hv

theorem consistent_compute (h : Consistent setting s) {i : ℕ} {call : Call G O B J P}
    (hcall : s.calls i = some call) (hcomputing : call.progress = .computing)
    (result : Option (Result J)) : Consistent setting (computeStep setting s i call result) := by
  have howner : s.stripes (call.stripe setting) = some i := by
    apply h.holds i call hcall
    rw [hcomputing]
    trivial
  have habsent : s.cache.values.get (setting.key call.request.query) = none := by
    apply h.absent i call hcall
    rw [hcomputing]
    trivial
  unfold computeStep
  cases result with
  | none => exact consistent_leaving h howner
  | some result =>
    have hrecord : Consistent setting (s.record (.computed i call.request.query result)) :=
      consistent_record h trivial
    have hlast : .computed i call.request.query result ∈
        (s.record (.computed i call.request.query result)).history :=
      List.mem_append_right _ (List.mem_singleton_self _)
    cases hdumps : setting.codec.dumps result with
    | none =>
      simp only [hdumps]
      exact consistent_leaving hrecord howner
    | some payload =>
      simp only [hdumps]
      split_ifs with hsize
      · apply consistent_progress hrecord
        · intro _
          exact howner
        · intro _
          exact habsent
        · intro result' payload' heq
          cases heq
          exact ⟨hlast, hdumps, hsize⟩
      · exact consistent_record (consistent_leaving hrecord howner) hlast

theorem consistent_direct (h : Consistent setting s) (i : ℕ) (call : Call G O B J P)
    (result : Option (Result J)) : Consistent setting (directStep s i call result) := by
  have hdone : ∀ s : System G O B J K P, Consistent setting s →
      Consistent setting (s.progress i call .done) := by
    intro s hs
    apply consistent_progress hs
    · intro hholds
      exact hholds.elim
    · intro hbetween
      exact hbetween.elim
    · intro result payload heq
      cases heq
  unfold directStep
  cases result with
  | none => exact hdone s h
  | some result =>
    apply consistent_record
    · exact hdone _ (consistent_record h trivial)
    · exact List.mem_append_right _ (List.mem_singleton_self _)

theorem same_key (h : Consistent setting s) {i j : ℕ} {call other : Call G O B J P}
    (hi : s.calls i = some call) (hj : s.calls j = some other) (hcall : call.progress.Holds)
    (hother : other.progress.Holds)
    (hkey : setting.key other.request.query = setting.key call.request.query) : j = i := by
  have hfirst := h.holds i call hi hcall
  have hsecond := h.holds j other hj hother
  rw [Call.stripe, hkey] at hsecond
  rw [Call.stripe, hsecond] at hfirst
  exact Option.some.inj hfirst

theorem between_holds {progress : Progress J P} (h : progress.Between) : progress.Holds := by
  cases progress with
  | computing => trivial
  | computed result payload => trivial
  | _ => exact h.elim

theorem consistent_store (hone : 1 ≤ setting.limits.maxEntries) (h : Consistent setting s)
    {i : ℕ} {request : Request G O B J} {result : Result J} {payload : P}
    (hcall : s.calls i = some ⟨request, .computed result payload⟩) (now : ℤ) :
    Consistent setting
      (storeStep setting s i ⟨request, .computed result payload⟩ result payload now) := by
  obtain ⟨hcomputed, hdumps, hsize⟩ := h.encoded i request result payload hcall
  have habsent := h.absent i _ hcall trivial
  obtain ⟨hacc, hget⟩ := store_spec h.accounted hone habsent now hsize
  -- the call leaves its sections before the entry is looked at
  have hrecord : Consistent setting (s.record (.stored i request.query result now)) :=
    consistent_record h hcomputed
  have hleaving := consistent_leaving hrecord (h.holds i _ hcall trivial)
  apply consistent_record
  · refine ⟨hacc, hleaving.backed, hleaving.holds, ?_, ?_, hleaving.encoded⟩
    · intro j other hother hbetween
      have hother' := hother
      rw [calls_progress] at hother
      split_ifs at hother with hj
      · cases hother
        exact hbetween.elim
      · have hne : setting.key other.request.query ≠ setting.key request.query := by
          intro heq
          exact hj (same_key h hcall hother trivial (between_holds hbetween) heq)
        rw [Option.eq_none_iff_forall_ne_some]
        intro saved hsaved
        rcases hget _ saved hsaved with ⟨heq, -⟩ | ⟨-, hold⟩
        · exact hne heq
        · rw [h.absent j other hother hbetween] at hold
          cases hold
    · intro key saved hsaved
      rcases hget key saved hsaved with ⟨rfl, rfl⟩ | ⟨-, hold⟩
      · exact ⟨i, request.query, result, now, rfl,
          List.mem_append_right _ (List.mem_singleton_self _), hdumps, rfl⟩
      · obtain ⟨j, query, result', storedAt, hkey, hmem, hrest⟩ := h.entries key saved hold
        exact ⟨j, query, result', storedAt, hkey, List.mem_append_left _ hmem, hrest⟩
  · exact List.mem_append_left _ hcomputed

theorem consistent_enter (h : Consistent setting s) (i : ℕ) {call : Call G O B J P}
    (hfree : s.stripes (call.stripe setting) = none) :
    Consistent setting { s.progress i call .entered with
      stripes := Function.update s.stripes (call.stripe setting) (some i) } where
  accounted := h.accounted
  backed := h.backed
  holds := by
    intro j other hother hprogress
    have hother' : (s.progress i call .entered).calls j = some other := hother
    rw [calls_progress] at hother'
    split_ifs at hother' with hj
    · cases hother'
      show Function.update s.stripes _ _ _ = _
      rw [hj]
      exact Function.update_self _ _ _
    · have hheld := h.holds j other hother' hprogress
      have hne : other.stripe setting ≠ call.stripe setting := by
        intro heq
        rw [heq, hfree] at hheld
        cases hheld
      show Function.update s.stripes _ _ _ = _
      rw [Function.update_of_ne hne]
      exact hheld
  absent := by
    intro j other hother hprogress
    have hother' : (s.progress i call .entered).calls j = some other := hother
    rw [calls_progress] at hother'
    split_ifs at hother' with hj
    · cases hother'
      exact hprogress.elim
    · exact h.absent j other hother' hprogress
  entries := h.entries
  encoded := by
    intro j request result payload hother
    have hother' : (s.progress i call .entered).calls j = some _ := hother
    rw [calls_progress] at hother'
    split_ifs at hother' with hj
    · cases hother'
    · exact h.encoded j request result payload hother'

/-- Leaving frees the stripe, which no other call holds. -/
theorem consistent_leave (h : Consistent setting s) {i : ℕ} {call : Call G O B J P}
    (hcall : s.calls i = some call) (hleaving : call.progress = .leaving) :
    Consistent setting { s.progress i call .done with
      stripes := Function.update s.stripes (call.stripe setting) none } where
  accounted := h.accounted
  backed := h.backed
  holds := by
    intro j other hother hprogress
    have hother' : (s.progress i call .done).calls j = some other := hother
    rw [calls_progress] at hother'
    split_ifs at hother' with hj
    · cases hother'
      exact hprogress.elim
    · have hheld := h.holds j other hother' hprogress
      have hown : s.stripes (call.stripe setting) = some i := by
        apply h.holds i call hcall
        rw [hleaving]
        trivial
      have hne : other.stripe setting ≠ call.stripe setting := by
        intro heq
        rw [heq, hown] at hheld
        exact hj (Option.some.inj hheld).symm
      show Function.update s.stripes _ _ _ = _
      rw [Function.update_of_ne hne]
      exact hheld
  absent := by
    intro j other hother hprogress
    have hother' : (s.progress i call .done).calls j = some other := hother
    rw [calls_progress] at hother'
    split_ifs at hother' with hj
    · cases hother'
      exact hprogress.elim
    · exact h.absent j other hother' hprogress
  entries := h.entries
  encoded := by
    intro j request result payload hother
    have hother' : (s.progress i call .done).calls j = some _ := hother
    rw [calls_progress] at hother'
    split_ifs at hother' with hj
    · cases hother'
    · exact h.encoded j request result payload hother'

/-- Every step of every call keeps the cache and the history consistent. -/
theorem consistent_step (hfaithful : setting.codec.Faithful)
    (hkey : Function.Injective setting.key) (hone : 1 ≤ setting.limits.maxEntries)
    (h : Consistent setting s) {action : Action G O B J} (hstep : step setting s action = some t) :
    Consistent setting t := by
  cases action with
  | call i request =>
    simp only [step] at hstep
    split at hstep
    · cases hstep
    · cases hstep
      apply consistent_progress h
      · intro hholds
        exact hholds.elim
      · intro hbetween
        exact hbetween.elim
      · intro result payload heq
        cases heq
  | enter i =>
    simp only [step] at hstep
    split at hstep
    · split_ifs at hstep with hfree
      cases hstep
      exact consistent_enter h i hfree.2
    · cases hstep
  | lookUp i now =>
    simp only [step] at hstep
    split at hstep
    · next hcall =>
      cases hstep
      exact consistent_lookUp hfaithful hkey h hcall rfl now
    · cases hstep
  | compute i result =>
    simp only [step] at hstep
    split at hstep
    · next hcall =>
      cases hstep
      exact consistent_compute h hcall rfl result
    · split_ifs at hstep
      cases hstep
      exact consistent_direct h i _ result
    · cases hstep
  | store i now =>
    simp only [step] at hstep
    split at hstep
    · next hcall =>
      cases hstep
      exact consistent_store hone h hcall now
    · cases hstep
  | leave i =>
    simp only [step] at hstep
    split at hstep
    · next hcall =>
      cases hstep
      exact consistent_leave h hcall rfl
    · cases hstep

theorem consistent_run (hfaithful : setting.codec.Faithful)
    (hkey : Function.Injective setting.key) (hone : 1 ≤ setting.limits.maxEntries)
    (h : Reachable setting s) : Consistent setting s := by
  induction h with
  | refl => exact consistent_initial
  | tail _ hstep ih =>
    obtain ⟨action, haction⟩ := hstep
    exact consistent_step hfaithful hkey hone ih haction

/-- In every reachable state the cache accounts for its payloads within both limits, and every
value returned so far is explained. -/
theorem cached_searches_explained (hfaithful : setting.codec.Faithful)
    (hkey : Function.Injective setting.key) (hone : 1 ≤ setting.limits.maxEntries)
    (h : Reachable setting s) :
    s.cache.bytes = lengths setting.codec.length s.cache.values.entries ∧
      s.cache.bytes ≤ setting.limits.maxBytes ∧
      s.cache.values.size ≤ setting.limits.maxEntries ∧
      ∀ before record after, s.history = before ++ record :: after →
        Explained setting before record := by
  have hconsistent := consistent_run hfaithful hkey hone h
  refine ⟨hconsistent.accounted.sum, hconsistent.accounted.bytes_le,
    hconsistent.accounted.entries_le, ?_⟩
  intro before record after hsplit
  exact explained hconsistent.backed hsplit

theorem reachable_steps (actions : List (Action G O B J)) (hs : Reachable setting s)
    (h : actions.foldlM (step setting) s = some t) : Reachable setting t := by
  induction actions generalizing s with
  | nil =>
    cases h
    exact hs
  | cons action actions ih =>
    rw [List.foldlM_cons, Option.bind_eq_bind, Option.bind_eq_some_iff] at h
    obtain ⟨u, hstep, hrest⟩ := h
    exact ih (hs.tail ⟨action, hstep⟩) hrest

end Code

/-! ## Two calls with one body -/

def shared (id : Text) : Result Text :=
  .dict ⟨[(requestStateId, id)], List.nodup_singleton _⟩

/-- The encoding of the one result that the calls compute. -/
def sharedCodec : Codec Text Text where
  dumps
    | .dict members =>
      if members.entries = [(requestStateId, ['a'])] then
        some "\x7b\"request_state_id\":\"a\"\x7d".toList
      else none
    | .other _ => none
  loads := fun _ => shared ['a']
  length := List.length

def sharedSetting : Setting Text Text Text Text (Query Text Text Text) Text :=
  ⟨⟨100, 2, 5⟩, sharedCodec, id, fun _ => 0⟩

def sharedQuery : Query Text Text Text :=
  ⟨"generation".toList, "searchFiles".toList, "body".toList⟩

def sharedActions : List (Action Text Text Text Text) :=
  [.call 0 ⟨sharedQuery, some ['a']⟩, .call 1 ⟨sharedQuery, some ['b']⟩, .enter 0, .lookUp 0 1,
    .compute 0 (some (shared ['a'])), .store 0 2, .leave 0, .enter 1, .lookUp 1 6]

def sharedBefore : List (Record Text Text Text Text) :=
  [.computed 0 sharedQuery (shared ['a']), .stored 0 sharedQuery (shared ['a']) 2,
    .returned 0 sharedQuery (shared ['a'])]

theorem sharedCodec_faithful : sharedCodec.Faithful := by
  intro result payload h
  cases result with
  | dict members =>
    simp only [sharedCodec] at h
    split_ifs at h with hmembers
    obtain ⟨entries, distinct⟩ := members
    subst hmembers
    rfl
  | other value => cases h

/-- The second call gets the result of the first, with its own id. -/
theorem cached_searches_explained_shared :
    ∃ s, Reachable sharedSetting s ∧ s.cache.bytes = 24 ∧
      s.cache.bytes = lengths List.length s.cache.values.entries ∧
      s.history = sharedBefore ++ [.hit 1 sharedQuery ['b'] (shared ['b']) 6] ∧
      Explained sharedSetting sharedBefore (.hit 1 sharedQuery ['b'] (shared ['b']) 6) := by
  have hrun : (sharedActions.foldlM (step sharedSetting) initial).isSome = true := rfl
  obtain ⟨s, hs⟩ := Option.isSome_iff_exists.mp hrun
  have hreach : Reachable sharedSetting s := reachable_steps sharedActions .refl hs
  obtain ⟨hsum, -, -, hexplained⟩ := cached_searches_explained
    sharedCodec_faithful Function.injective_id (by decide) hreach
  have hbytes : s.cache.bytes = 24 := by
    rw [← Option.some.inj hs]
    rfl
  have hhistory : s.history =
      sharedBefore ++ [.hit 1 sharedQuery ['b'] (shared ['b']) 6] := by
    rw [← Option.some.inj hs]
    rfl
  exact ⟨s, hreach, hbytes, hsum, hhistory, hexplained _ _ [] hhistory⟩

end CachedSearches
