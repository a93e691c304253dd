import Mathlib.Logic.Relation
import Mathlib.Tactic.Common
import WiseWay.Scripts

/-! # Sequential programs over atomic calls

A program is a tree of calls, each answered by its environment or failing with an
exception. One lock holder runs such a program while other parties change the shared
state between its calls, and the holder can die between any two of them. The rules
below reduce a property of every interleaving to one walk through the program text and
one lemma for each call. -/
namespace AtomicProgram

/-- Code with exceptions. `Val o` is what a successful call of `o` returns. -/
inductive Prog (Op : Type) (Val : Op → Type) (ε α : Type) where
  | pure (a : α)
  | throw (e : ε)
  | call (o : Op) (k : Except ε (Val o) → Prog Op Val ε α)

variable {Op : Type} {Val : Op → Type} {ε α β ρ σ Cmd Env Choice : Type}

def Prog.bind : Prog Op Val ε α → (α → Prog Op Val ε β) → Prog Op Val ε β
  | .pure a, f => f a
  | .throw e, _ => .throw e
  | .call o k, f => .call o fun r => (k r).bind f

instance : Monad (Prog Op Val ε) where
  pure := .pure
  bind := .bind

/-- Runs a program to its end and hands its exception, if any, to what follows. -/
def Prog.attempt : Prog Op Val ε α → Prog Op Val ε (Except ε α)
  | .pure a => .pure (.ok a)
  | .throw e => .pure (.error e)
  | .call o k => .call o fun r => (k r).attempt

/-- A single call, whose exception is raised in the caller. -/
def perform (o : Op) : Prog Op Val ε (Val o) :=
  .call o fun
    | .ok a => .pure a
    | .error e => .throw e

@[simp] theorem pure_eq (a : α) : (Pure.pure a : Prog Op Val ε α) = .pure a := rfl

@[simp] theorem bind_eq (p : Prog Op Val ε α) (f : α → Prog Op Val ε β) :
    (p >>= f) = p.bind f := rfl

/-- `body` is the program of a command, `exec` one atomic call under a choice of the
environment, `other` one atomic step of a party that does not hold the lock. -/
structure System (σ Cmd Env Choice Op : Type) (Val : Op → Type) (ε ρ : Type) where
  body : Cmd → Prog Op Val ε ρ
  exec : (o : Op) → Choice → σ → Except ε (Val o) × σ
  other : Env → σ → Option σ

structure Machine (σ Cmd Op : Type) (Val : Op → Type) (ε ρ : Type) where
  state : σ
  holder : Option (Cmd × Prog Op Val ε ρ)

inductive Event (Cmd Choice Env : Type) where
  | launch (c : Cmd)
  | call (x : Choice)
  | settle
  | crash
  | other (e : Env)

/-- A crash drops the rest of the program and releases the lock with it. -/
def System.step (S : System σ Cmd Env Choice Op Val ε ρ) (m : Machine σ Cmd Op Val ε ρ) :
    Event Cmd Choice Env → Option (Machine σ Cmd Op Val ε ρ)
  | .launch c =>
    match m.holder with
    | none => some ⟨m.state, some (c, S.body c)⟩
    | some _ => none
  | .call x =>
    match m.holder with
    | some (c, .call o k) =>
      some ⟨(S.exec o x m.state).2, some (c, k (S.exec o x m.state).1)⟩
    | _ => none
  | .settle =>
    match m.holder with
    | some (_, .pure _) => some ⟨m.state, none⟩
    | some (_, .throw _) => some ⟨m.state, none⟩
    | _ => none
  | .crash =>
    match m.holder with
    | some _ => some ⟨m.state, none⟩
    | none => none
  | .other e =>
    match S.other e m.state with
    | some s => some ⟨s, m.holder⟩
    | none => none

/-- Runs a list of events, each of which has to pass a check. -/
def System.run (S : System σ Cmd Env Choice Op Val ε ρ)
    (check : Machine σ Cmd Op Val ε ρ → Event Cmd Choice Env → Bool)
    (es : List (Event Cmd Choice Env)) (m : Machine σ Cmd Op Val ε ρ) :
    Option (Machine σ Cmd Op Val ε ρ) :=
  Scripts.play (fun m e => check m e = true) S.step es m

/-- What the steps of a class of runs have to meet. -/
structure Limits (σ Env Choice Op : Type) where
  call : Op → Choice → σ → Prop
  other : Env → σ → Prop

def Limits.free : Limits σ Env Choice Op := ⟨fun _ _ _ => True, fun _ _ => True⟩

def Limits.allows (L : Limits σ Env Choice Op) (m : Machine σ Cmd Op Val ε ρ) :
    Event Cmd Choice Env → Prop
  | .call x => ∀ c o k, m.holder = some (c, .call o k) → L.call o x m.state
  | .other e => L.other e m.state
  | _ => True

theorem Limits.free_allows (m : Machine σ Cmd Op Val ε ρ) (e : Event Cmd Choice Env) :
    (Limits.free : Limits σ Env Choice Op).allows m e := by
  cases e <;> simp [Limits.allows, Limits.free]

inductive Reachable (S : System σ Cmd Env Choice Op Val ε ρ) (L : Limits σ Env Choice Op)
    (start : σ → Prop) : Machine σ Cmd Op Val ε ρ → Prop where
  | init {s} : start s → Reachable S L start ⟨s, none⟩
  | tail {m n e} : Reachable S L start m → L.allows m e → S.step m e = some n →
      Reachable S L start n

variable {S : System σ Cmd Env Choice Op Val ε ρ} {L : Limits σ Env Choice Op}
variable {start : σ → Prop}

theorem Reachable.run {check : Machine σ Cmd Op Val ε ρ → Event Cmd Choice Env → Bool}
    (hcheck : ∀ m e, check m e = true → L.allows m e)
    {es : List (Event Cmd Choice Env)} {m n : Machine σ Cmd Op Val ε ρ}
    (h : Reachable S L start m)
    (hr : S.run check es m = some n) : Reachable S L start n :=
  Scripts.play_keeps (Reachable S L start)
    (fun _ h hchecked hstep => h.tail (hcheck _ _ hchecked) hstep) h hr

/-- What one step can be, with the holder it leaves behind. -/
theorem System.step_cases {m n : Machine σ Cmd Op Val ε ρ} {e : Event Cmd Choice Env}
    (h : S.step m e = some n) :
    (∃ c, e = .launch c ∧ m.holder = none ∧ n = ⟨m.state, some (c, S.body c)⟩) ∨
    (∃ x c o k, e = .call x ∧ m.holder = some (c, .call o k) ∧
      n = ⟨(S.exec o x m.state).2, some (c, k (S.exec o x m.state).1)⟩) ∨
    ((e = .settle ∨ e = .crash) ∧ n = ⟨m.state, none⟩) ∨
    (∃ v s, e = .other v ∧ S.other v m.state = some s ∧ n = ⟨s, m.holder⟩) := by
  obtain ⟨s, holder⟩ := m
  cases e with
  | launch c =>
    cases holder with
    | none => exact .inl ⟨c, rfl, rfl, (Option.some.inj h).symm⟩
    | some _ => cases h
  | call x =>
    rcases holder with _ | ⟨c, _ | _ | ⟨o, k⟩⟩
    · cases h
    · cases h
    · cases h
    · exact .inr (.inl ⟨x, c, o, k, rfl, rfl, (Option.some.inj h).symm⟩)
  | settle =>
    rcases holder with _ | ⟨c, _ | _ | _⟩
    · cases h
    · exact .inr (.inr (.inl ⟨.inl rfl, (Option.some.inj h).symm⟩))
    · exact .inr (.inr (.inl ⟨.inl rfl, (Option.some.inj h).symm⟩))
    · cases h
  | crash =>
    cases holder with
    | none => cases h
    | some _ => exact .inr (.inr (.inl ⟨.inr rfl, (Option.some.inj h).symm⟩))
  | other v =>
    cases hv : S.other v s with
    | none => simp [System.step, hv] at h
    | some t =>
      simp only [System.step, hv, Option.some.injEq] at h
      exact .inr (.inr (.inr ⟨v, t, rfl, hv, h.symm⟩))

/-- The contract under which the lock holder runs: an invariant of the shared state, what
others may do to it between two calls, and when each call is permitted. -/
structure Discipline (S : System σ Cmd Env Choice Op Val ε ρ) where
  inv : σ → Prop
  rely : σ → σ → Prop
  permit : Op → σ → Prop
  rely_refl : ∀ s, rely s s
  rely_trans : ∀ {a b c}, rely a b → rely b c → rely a c
  other_keeps : ∀ {e s t}, inv s → S.other e s = some t → inv t ∧ rely s t
  call_keeps : ∀ {o x s}, inv s → permit o s → inv (S.exec o x s).2

namespace Discipline

variable (D : Discipline S)

/-- From `s`, whatever the others do, every call the program makes is permitted and its
end meets `Q`. -/
def wp : Prog Op Val ε α → (Except ε α → σ → Prop) → σ → Prop
  | .pure a, Q, s => Q (.ok a) s
  | .throw e, Q, s => Q (.error e) s
  | .call o k, Q, s => ∀ t, D.rely s t → D.inv t → D.permit o t ∧
      ∀ x, D.inv (S.exec o x t).2 → wp (k (S.exec o x t).1) Q (S.exec o x t).2

variable {D}

@[simp] theorem wp_pure (a : α) (Q : Except ε α → σ → Prop) (s : σ) :
    D.wp (.pure a) Q s = Q (.ok a) s := rfl

@[simp] theorem wp_throw (e : ε) (Q : Except ε α → σ → Prop) (s : σ) :
    D.wp (.throw e) Q s = Q (.error e) s := rfl

theorem wp_mono {p : Prog Op Val ε α} {Q Q' : Except ε α → σ → Prop}
    (h : ∀ r s, Q r s → Q' r s) {s : σ} (hp : D.wp p Q s) : D.wp p Q' s := by
  induction p generalizing s with
  | pure a => exact h _ _ hp
  | throw e => exact h _ _ hp
  | call o k ih =>
    intro t hst ht
    obtain ⟨hpermit, hk⟩ := hp t hst ht
    exact ⟨hpermit, fun x hx => ih _ (hk x hx)⟩

theorem wp_bind {p : Prog Op Val ε α} {f : α → Prog Op Val ε β}
    {Q : Except ε β → σ → Prop} {s : σ} :
    D.wp (p.bind f) Q s ↔ D.wp p (fun r t =>
      match r with
      | .ok a => D.wp (f a) Q t
      | .error e => Q (.error e) t) s := by
  induction p generalizing s with
  | pure a => rfl
  | throw e => rfl
  | call o k ih => simp only [Prog.bind, wp, ih]

theorem wp_attempt {p : Prog Op Val ε α} {Q : Except ε (Except ε α) → σ → Prop} {s : σ} :
    D.wp p.attempt Q s ↔ D.wp p (fun r t => Q (.ok r) t) s := by
  induction p generalizing s with
  | pure a => rfl
  | throw e => rfl
  | call o k ih => simp only [Prog.attempt, wp, ih]

theorem wp_perform {o : Op} {Q : Except ε (Val o) → σ → Prop} {s : σ} :
    D.wp (perform o) Q s ↔ ∀ t, D.rely s t → D.inv t → D.permit o t ∧
      ∀ x, D.inv (S.exec o x t).2 → Q (S.exec o x t).1 (S.exec o x t).2 := by
  have hend : ∀ (r : Except ε (Val o)) (t : σ),
      D.wp (match r with | .ok a => Prog.pure a | .error e => Prog.throw e) Q t = Q r t := by
    intro r t
    cases r <;> rfl
  simp only [perform, wp]
  constructor
  · intro h t hst ht
    refine ⟨(h t hst ht).1, fun x hx => ?_⟩
    have := (h t hst ht).2 x hx
    rwa [← hend]
  · intro h t hst ht
    refine ⟨(h t hst ht).1, fun x hx => ?_⟩
    have := (h t hst ht).2 x hx
    rwa [← hend] at this

/-- Interference before the first call changes nothing when `Q` is stable under it. -/
theorem wp_rely {p : Prog Op Val ε α} {Q : Except ε α → σ → Prop}
    (hQ : ∀ r s t, D.rely s t → Q r s → Q r t) {s t : σ} (hst : D.rely s t)
    (hp : D.wp p Q s) : D.wp p Q t := by
  cases p with
  | pure a => exact hQ _ _ _ hst hp
  | throw e => exact hQ _ _ _ hst hp
  | call o k => exact fun u htu hu => hp u (D.rely_trans hst htu) hu

/-- A loop whose body takes `K` from each list to its tail, or fails into `E`. -/
theorem wp_foldlM {γ : Type} {f : β → γ → Prog Op Val ε β} {K : List γ → σ → Prop}
    {E : σ → Prop} (hf : ∀ b x l s, K (x :: l) s →
      D.wp (f b x) (fun r t => match r with | .ok _ => K l t | .error _ => E t) s) :
    ∀ (l : List γ) (b : β) {s : σ}, K l s →
      D.wp (l.foldlM f b) (fun r t => match r with | .ok _ => K [] t | .error _ => E t) s
  | [], _, _, hs => hs
  | x :: l, b, s, hs => by
    rw [List.foldlM_cons, bind_eq, wp_bind]
    refine wp_mono ?_ (hf b x l s hs)
    rintro (e | b') t ht
    · exact ht
    · exact wp_foldlM hf l b' ht

/-- Every reachable state meets the invariant, and the holder is always within its
contract. -/
theorem safe_reachable (hstart : ∀ s, start s → D.inv s)
    (hbody : ∀ c s, D.inv s → D.wp (S.body c) (fun _ _ => True) s)
    {m : Machine σ Cmd Op Val ε ρ} (h : Reachable S L start m) :
    D.inv m.state ∧ ∀ c p, m.holder = some (c, p) → D.wp p (fun _ _ => True) m.state := by
  induction h with
  | init hs => exact ⟨hstart _ hs, by simp⟩
  | @tail m n e _ _ hstep ih =>
    obtain ⟨hinv, hsafe⟩ := ih
    rcases System.step_cases hstep with ⟨c, rfl, _, rfl⟩ | ⟨x, c, o, k, rfl, hm, rfl⟩ |
      ⟨_, rfl⟩ | ⟨v, s, rfl, hv, rfl⟩
    · refine ⟨hinv, fun c' p hp => ?_⟩
      cases hp
      exact hbody c _ hinv
    · obtain ⟨hpermit, hk⟩ := hsafe c _ hm m.state (D.rely_refl _) hinv
      have hnext := D.call_keeps (x := x) hinv hpermit
      refine ⟨hnext, fun c' p hp => ?_⟩
      cases hp
      exact hk x hnext
    · exact ⟨hinv, by simp⟩
    · obtain ⟨hnext, hrely⟩ := D.other_keeps hinv hv
      exact ⟨hnext, fun c' p hp => wp_rely (by simp) hrely (hsafe c' p hp)⟩

theorem reachable_permit (hstart : ∀ s, start s → D.inv s)
    (hbody : ∀ c s, D.inv s → D.wp (S.body c) (fun _ _ => True) s)
    {m : Machine σ Cmd Op Val ε ρ} (h : Reachable S L start m) {c o k}
    (hm : m.holder = some (c, .call o k)) : D.permit o m.state := by
  obtain ⟨hinv, hsafe⟩ := safe_reachable hstart hbody h
  exact (hsafe c _ hm m.state (D.rely_refl _) hinv).1

/-- Induction over permitted calls and steps of the others: the program text is no longer
needed. -/
theorem reachable_induction (hstart : ∀ s, start s → D.inv s)
    (hbody : ∀ c s, D.inv s → D.wp (S.body c) (fun _ _ => True) s)
    {J : σ → Prop} (hJ : ∀ s, start s → J s)
    (hother : ∀ e s t, D.inv s → J s → L.other e s → S.other e s = some t → J t)
    (hcall : ∀ o x s, D.inv s → J s → D.permit o s → L.call o x s → J (S.exec o x s).2)
    {m : Machine σ Cmd Op Val ε ρ} (h : Reachable S L start m) : J m.state := by
  induction h with
  | init hs => exact hJ _ hs
  | @tail m n e hm hL hstep ih =>
    have hinv := (safe_reachable hstart hbody hm).1
    rcases System.step_cases hstep with ⟨c, rfl, _, rfl⟩ | ⟨x, c, o, k, rfl, hh, rfl⟩ |
      ⟨_, rfl⟩ | ⟨v, s, rfl, hv, rfl⟩
    · exact ih
    · exact hcall o x _ hinv ih (reachable_permit hstart hbody hm hh) (hL c o k hh)
    · exact ih
    · exact hother v _ s hinv ih hL hv

end Discipline

/-- Steps of one holder's program, from its launch until it settles. -/
inductive Held (S : System σ Cmd Env Choice Op Val ε ρ) :
    Machine σ Cmd Op Val ε ρ → Machine σ Cmd Op Val ε ρ → Prop where
  | refl (m) : Held S m m
  | call {m n u x} : Held S m n → S.step n (.call x) = some u → Held S m u
  | other {m n u e} : Held S m n → S.step n (.other e) = some u → Held S m u

/-- While one program holds the lock its contract follows it to its end. -/
theorem Discipline.wp_held {D : Discipline S} {Q : Except ε ρ → σ → Prop}
    (hQ : ∀ r s t, D.rely s t → Q r s → Q r t) {c : Cmd} {p : Prog Op Val ε ρ} {s : σ}
    (hs : D.inv s) (hp : D.wp p Q s) {n : Machine σ Cmd Op Val ε ρ}
    (h : Held S ⟨s, some (c, p)⟩ n) :
    D.inv n.state ∧ ∃ q, n.holder = some (c, q) ∧ D.wp q Q n.state := by
  induction h with
  | refl => exact ⟨hs, p, rfl, hp⟩
  | @call n u x _ hstep ih =>
    obtain ⟨hinv, q, hq, hwp⟩ := ih
    rcases System.step_cases hstep with ⟨_, hbad, _⟩ | ⟨y, c', o, k, hy, hn, rfl⟩ |
      ⟨hbad | hbad, _⟩ | ⟨_, _, hbad, _⟩
    · cases hbad
    · cases hy
      obtain ⟨rfl, rfl⟩ : c = c' ∧ q = .call o k := by simpa [hq] using hn
      obtain ⟨hpermit, hk⟩ := hwp n.state (D.rely_refl _) hinv
      have hnext := D.call_keeps (x := x) hinv hpermit
      exact ⟨hnext, _, rfl, hk x hnext⟩
    · cases hbad
    · cases hbad
    · cases hbad
  | @other n u e _ hstep ih =>
    obtain ⟨hinv, q, hq, hwp⟩ := ih
    rcases System.step_cases hstep with ⟨_, hbad, _⟩ | ⟨_, _, _, _, hbad, _⟩ |
      ⟨hbad | hbad, _⟩ | ⟨v, t, hv, ht, rfl⟩
    · cases hbad
    · cases hbad
    · cases hbad
    · cases hbad
    · obtain ⟨hnext, hrely⟩ := D.other_keeps hinv ht
      exact ⟨hnext, q, hq, Discipline.wp_rely hQ hrely hwp⟩

theorem Held.trans {m n u : Machine σ Cmd Op Val ε ρ} (h : Held S m n) (h' : Held S n u) :
    Held S m u := by
  induction h' with
  | refl => exact h
  | call _ hstep ih => exact .call ih hstep
  | other _ hstep ih => exact .other ih hstep

theorem held_settles (x : Choice) (c : Cmd) (p : Prog Op Val ε ρ) (s : σ) :
    ∃ n u, Held S ⟨s, some (c, p)⟩ n ∧ S.step n .settle = some u := by
  induction p generalizing s with
  | pure a => exact ⟨_, _, .refl _, rfl⟩
  | throw e => exact ⟨_, _, .refl _, rfl⟩
  | call o k ih =>
    obtain ⟨n, u, hn, hu⟩ := ih (S.exec o x s).1 (S.exec o x s).2
    exact ⟨n, u, .trans (.call (.refl _) rfl) hn, hu⟩

theorem Discipline.wp_settled {D : Discipline S} {Q : Except ε ρ → σ → Prop}
    (hQ : ∀ r s t, D.rely s t → Q r s → Q r t) {c : Cmd} {p : Prog Op Val ε ρ} {s : σ}
    (hs : D.inv s) (hp : D.wp p Q s) {n u : Machine σ Cmd Op Val ε ρ}
    (h : Held S ⟨s, some (c, p)⟩ n) (hu : S.step n .settle = some u) : ∃ r, Q r u.state := by
  obtain ⟨_, q, hq, hend⟩ := wp_held hQ hs hp h
  cases q with
  | pure a =>
    simp only [System.step, hq] at hu
    cases hu
    exact ⟨_, hend⟩
  | throw e =>
    simp only [System.step, hq] at hu
    cases hu
    exact ⟨_, hend⟩
  | call o k => simp [System.step, hq] at hu

end AtomicProgram
