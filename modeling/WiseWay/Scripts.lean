import Mathlib.Data.Option.Basic

/-! # Scripts

The steps of a system, taken one after the other as far as they are allowed. What the allowed steps
keep, the whole script keeps. -/
namespace Scripts

variable {S E J : Type*}

section Play

variable (allowed : S → E → Prop) [∀ s e, Decidable (allowed s e)] (step : S → E → Option S)

/-- The state after a script, and none if a step of it is refused or not allowed. -/
def play (script : List E) (s : S) : Option S :=
  script.foldlM (fun s e => if allowed s e then step s e else none) s

theorem play_cons (e : E) (script : List E) (s : S) : play allowed step (e :: script) s =
    if allowed s e then (step s e).bind (play allowed step script) else none := by
  rw [play, List.foldlM_cons]
  split
  · rfl
  · rfl

variable {allowed step}

theorem play_keeps (holds : S → Prop) {script : List E} {s t : S}
    (hstep : ∀ {s e t}, e ∈ script → holds s → allowed s e → step s e = some t → holds t)
    (h : holds s) (hplay : play allowed step script s = some t) : holds t := by
  induction script generalizing s with
  | nil =>
    cases hplay
    exact h
  | cons e script ih =>
    rw [play_cons] at hplay
    obtain ⟨hallowed, hplay⟩ := Option.ite_none_right_eq_some.mp hplay
    obtain ⟨u, hu, hrest⟩ := Option.bind_eq_some_iff.mp hplay
    exact ih (fun hmem => hstep (List.mem_cons_of_mem _ hmem))
      (hstep (List.mem_cons_self ..) h hallowed hu) hrest

end Play

/-! Scripts with a log. -/

section Log

variable (allowed : S → E → Prop) [∀ s e, Decidable (allowed s e)] (step : S → E → Option S)
  (record : S → E → List J)

/-- A script that notes what its steps record. -/
def playLogged (script : List E) (s : S) (log : List J) : Option (S × List J) :=
  play (fun p e => allowed p.1 e)
    (fun p e => (step p.1 e).map fun t => (t, p.2 ++ record p.1 e)) script (s, log)

variable {allowed step record}

theorem playLogged_keeps (holds : S → List J → Prop) {script : List E} {s t : S}
    {log later : List J}
    (hstep : ∀ {s log e t}, holds s log → allowed s e → step s e = some t →
      holds t (log ++ record s e))
    (h : holds s log) (hplay : playLogged allowed step record script s log = some (t, later)) :
    holds t later := by
  refine play_keeps (fun p => holds p.1 p.2) ?_ h hplay
  intro p e q _ hp hallowed hq
  obtain ⟨u, hu, rfl⟩ := Option.map_eq_some_iff.mp hq
  exact hstep hp hallowed hu

end Log

end Scripts
