import Mathlib.Data.List.Forall2

/-! # Computations that may fail

Inversion and congruence of `bind` and `mapM` in `Except`. -/
namespace Fallible

variable {ε α β γ δ : Type}

theorem bind_eq_ok {x : Except ε α} {f : α → Except ε β} {b : β} :
    (x >>= f) = .ok b ↔ ∃ a, x = .ok a ∧ f a = .ok b := by
  cases x <;> simp [bind, Except.bind]

theorem bind_eq_error {x : Except ε α} {f : α → Except ε β} {e : ε} :
    (x >>= f) = .error e ↔ x = .error e ∨ ∃ a, x = .ok a ∧ f a = .error e := by
  cases x <;> simp [bind, Except.bind]

theorem toOption_some {x : Except ε α} {a : α} (h : x.toOption = some a) : x = .ok a := by
  cases x with
  | error e => cases h
  | ok b => exact congrArg Except.ok (Option.some.inj h)

theorem map_eq_ok {x : Except ε α} {f : α → β} {b : β} :
    x.map f = .ok b ↔ ∃ a, x = .ok a ∧ f a = b := by
  cases x <;> simp [Except.map]

/-- Both fail, with errors that `f` relates, or both succeed with related results. -/
inductive Agree {ε' : Type} (f : ε → ε') (R : α → β → Prop) : Except ε α → Except ε' β → Prop where
  | ok {a : α} {b : β} : R a b → Agree f R (.ok a) (.ok b)
  | error (e : ε) : Agree f R (.error e) (.error (f e))

theorem Agree.bind {ε' : Type} {f : ε → ε'} {R : α → β → Prop} {S : γ → δ → Prop}
    {x : Except ε α} {y : Except ε' β} {g : α → Except ε γ} {h : β → Except ε' δ}
    (hxy : Agree f R x y) (hgh : ∀ a b, R a b → Agree f S (g a) (h b)) :
    Agree f S (x >>= g) (y >>= h) := by
  cases hxy with
  | ok hab => exact hgh _ _ hab
  | error e => exact .error e

theorem mapM_ok {f : α → Except ε β} : ∀ {l : List α} {r : List β},
    l.mapM f = .ok r → List.Forall₂ (fun a b => f a = .ok b) l r
  | [], r, h => by
    cases h
    exact .nil
  | a :: l, r, h => by
    rw [List.mapM_cons] at h
    obtain ⟨b, hb, h⟩ := bind_eq_ok.mp h
    obtain ⟨bs, hbs, h⟩ := bind_eq_ok.mp h
    cases h
    exact .cons hb (mapM_ok hbs)

theorem mem_of_mapM {f : α → Except ε β} : ∀ {l : List α} {r : List β}, l.mapM f = .ok r →
    ∀ b ∈ r, ∃ a ∈ l, f a = .ok b
  | [], r, h => by
    cases h
    simp
  | a :: l, r, h => by
    rw [List.mapM_cons] at h
    obtain ⟨b, hb, h⟩ := bind_eq_ok.mp h
    obtain ⟨bs, hbs, h⟩ := bind_eq_ok.mp h
    cases h
    intro c hc
    rcases List.mem_cons.mp hc with rfl | hc
    · exact ⟨a, List.mem_cons_self .., hb⟩
    · obtain ⟨a', ha', hc'⟩ := mem_of_mapM hbs c hc
      exact ⟨a', List.mem_cons_of_mem _ ha', hc'⟩

theorem mapM_eq_map {f : α → Except ε β} {g : α → β} : ∀ {l : List α},
    (∀ a ∈ l, f a = .ok (g a)) → l.mapM f = .ok (l.map g)
  | [], _ => rfl
  | a :: l, h => by
    rw [List.mapM_cons, h a (List.mem_cons_self ..),
      mapM_eq_map fun b hb => h b (List.mem_cons_of_mem _ hb)]
    rfl

theorem mapM_succeeds {f : α → Except ε β} {l : List α} :
    (∃ r, l.mapM f = .ok r) ↔ ∀ a ∈ l, ∃ b, f a = .ok b := by
  induction l with
  | nil => exact ⟨fun _ => by simp, fun _ => ⟨[], rfl⟩⟩
  | cons a l ih =>
    rw [List.forall_mem_cons, ← ih]
    constructor
    · rintro ⟨r, h⟩
      rw [List.mapM_cons] at h
      obtain ⟨b, hb, h⟩ := bind_eq_ok.mp h
      obtain ⟨bs, hbs, _⟩ := bind_eq_ok.mp h
      exact ⟨⟨b, hb⟩, ⟨bs, hbs⟩⟩
    · rintro ⟨⟨b, hb⟩, ⟨bs, hbs⟩⟩
      exact ⟨b :: bs, by rw [List.mapM_cons, hb, hbs]; rfl⟩

theorem mapM_commutes {f : α → Except ε β} {f' : γ → Except ε δ} {g : α → γ} {h : β → δ}
    (hf : ∀ a, f' (g a) = (f a).map h) (l : List α) :
    (l.map g).mapM f' = (l.mapM f).map (List.map h) := by
  induction l with
  | nil => rfl
  | cons a l ih =>
    rw [List.map_cons, List.mapM_cons, List.mapM_cons, hf, ih]
    cases f a with
    | error e => rfl
    | ok b =>
      cases l.mapM f with
      | error e => rfl
      | ok bs => rfl

theorem mapM_related {R : α → γ → Prop} {S : β → δ → Prop} {f : α → Except ε β}
    {f' : γ → Except ε δ}
    (hf : ∀ a a' b, R a a' → f a = .ok b → ∃ b', f' a' = .ok b' ∧ S b b') :
    ∀ {l : List α} {l' : List γ} {r : List β}, List.Forall₂ R l l' → l.mapM f = .ok r →
      ∃ r', l'.mapM f' = .ok r' ∧ List.Forall₂ S r r'
  | _, _, r, .nil, h => by
    cases h
    exact ⟨[], rfl, .nil⟩
  | a :: l, a' :: l', r, .cons hr hrs, h => by
    rw [List.mapM_cons] at h
    obtain ⟨b, hb, h⟩ := bind_eq_ok.mp h
    obtain ⟨bs, hbs, h⟩ := bind_eq_ok.mp h
    cases h
    obtain ⟨b', hb', hs⟩ := hf a a' b hr hb
    obtain ⟨bs', hbs', hss⟩ := mapM_related hf hrs hbs
    exact ⟨b' :: bs', by rw [List.mapM_cons, hb', hbs']; rfl, .cons hs hss⟩

theorem forall₂_comp {α β γ : Type} {R : α → β → Prop} {S : β → γ → Prop} : ∀ {l : List α}
    {m : List β} {n : List γ}, List.Forall₂ R l m → List.Forall₂ S m n →
      List.Forall₂ (fun a c => ∃ b, R a b ∧ S b c) l n
  | _, _, _, .nil, .nil => .nil
  | _, _, _, .cons hr hrs, .cons hs hss => .cons ⟨_, hr, hs⟩ (forall₂_comp hrs hss)

theorem forall₂_zipIdx {R : α → β → Prop} {l : List α} {m : List β} (h : List.Forall₂ R l m) :
    ∀ k : ℕ, List.Forall₂ (fun a b => R a.1 b.1 ∧ a.2 = b.2) (l.zipIdx k) (m.zipIdx k) := by
  induction h with
  | nil => exact fun _ => .nil
  | cons hab _ ih =>
    intro k
    rw [List.zipIdx_cons, List.zipIdx_cons]
    exact .cons ⟨hab, rfl⟩ (ih (k + 1))

end Fallible
