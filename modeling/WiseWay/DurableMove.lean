import WiseWay.ReturnContract

/-! # The durable move

Once the recorded file of an attempt has left its source it never comes back there, unless
somebody else puts it back. From this follows that the worker moves it at most once and
reports it only where it has been seen. -/
namespace DurableMove

open Records Services AtomicProgram Calls Intake AttemptTransactions SortingSystem Effects
open Changes LockContract ReturnContract

variable {v : Service} {id : Text}

/-- Nobody else puts the recorded file of the attempt back at its source. -/
def SourceKept (layout : Layout) (id : Text) (w t : World) : Prop :=
  ∀ a source, w.store.attempt[id]? = some a → Services.physical layout a.item.source = .ok source →
    fileAt t.tree source = some a.item.fingerprint → fileAt w.tree source = some a.item.fingerprint

/-- An entry of the log after which the recorded file is no longer at its source. -/
def Loss (id : Text) (a : Attempt) (source : Text) : Trace → Prop
  | .moved owner _ _ _ => owner = .attempt id
  | .seen owner path tree =>
    owner = .attempt id ∧ path = source ∧ fileAt tree source ≠ some a.item.fingerprint
  | _ => False

/-- What an entry cannot be once there has been a loss. -/
def Quiet (id : Text) (a : Attempt) (source : Text) : Trace → Prop
  | .moved owner _ _ _ => owner ≠ .attempt id
  | .checked owner => owner ≠ .attempt id
  | .seen owner _ tree => owner = .attempt id → fileAt tree source ≠ some a.item.fingerprint
  | _ => True

def movedState (state : OutcomeState) : Prop :=
  state = .sorted ∨ state = .manualReview ∨ state = .quarantined

/-- The recorded file was seen at the target of the intent while it was not at the source. -/
def SeenMoved (layout : Layout) (id : Text) (w : World) (a : Attempt) (i : Intent) : Prop :=
  ∃ source target tree, Services.physical layout a.item.source = .ok source ∧
    Services.physical layout i.target = .ok target ∧
    Trace.seen (.attempt id) target tree ∈ w.log ∧
    fileAt tree target = some a.item.fingerprint ∧ fileAt tree source ≠ some a.item.fingerprint

structure History (layout : Layout) (id : Text) (w : World) (a : Attempt) : Prop where
  queued : a.phase = .queued → a.intent = none
  target : ∀ s u e, Trace.moved (.attempt id) s u e ∈ w.log →
    Services.physical layout a.item.source = .ok s ∧
      ∃ i, a.intent = some i ∧ Services.physical layout i.target = .ok u
  gone : ∀ source, Services.physical layout a.item.source = .ok source →
    (∃ e ∈ w.log, Loss id a source e) → fileAt w.tree source ≠ some a.item.fingerprint
  order : ∀ source, Services.physical layout a.item.source = .ok source →
    w.log.Pairwise fun newer older => Loss id a source older → Quiet id a source newer
  arrival : a.phase = .done → movedState a.outcome.state →
    ∃ i, a.intent = some i ∧ a.outcome.actualLocation = some i.target ∧
      a.outcome.state = i.state.outcome ∧ SeenMoved layout id w a i

/-- The row of an attempt and everything its history depends on. -/
def Tracked (layout : Layout) (id : Text) (w : World) : Prop :=
  ∀ a, w.store.attempt[id]? = some a → History layout id w a

theorem SeenMoved.grow {layout : Layout} {w t : World} {a : Attempt} {i : Intent}
    (h : SeenMoved layout id w a i) (hlog : ∀ e ∈ w.log, e ∈ t.log) :
    SeenMoved layout id t a i := by
  obtain ⟨source, target, tree, hs, ht, hseen, hrest⟩ := h
  exact ⟨source, target, tree, hs, ht, hlog _ hseen, hrest⟩

theorem foreign_entry {a : Attempt} {source : Text} {e : Trace}
    (h : traceOwner e ≠ .attempt id) : ¬Loss id a source e ∧ Quiet id a source e := by
  cases e with
  | seen owner path tree => exact ⟨fun hl => h hl.1, fun ho => absurd ho h⟩
  | checked owner => exact ⟨by rintro ⟨⟩, h⟩
  | issued owner s u => exact ⟨by rintro ⟨⟩, trivial⟩
  | moved owner s u e => exact ⟨h, h⟩
  | retried _ => exact ⟨by rintro ⟨⟩, trivial⟩
  | began _ _ => exact ⟨by rintro ⟨⟩, trivial⟩

theorem History.push {layout : Layout} {w t : World} {a : Attempt} {e : Trace}
    (h : History layout id w a) (hlog : t.log = e :: w.log)
    (htarget : ∀ s u x, e = .moved (.attempt id) s u x →
      Services.physical layout a.item.source = .ok s ∧
        ∃ i, a.intent = some i ∧ Services.physical layout i.target = .ok u)
    (hquiet : ∀ source, Services.physical layout a.item.source = .ok source →
      (∃ e ∈ w.log, Loss id a source e) → Quiet id a source e)
    (hgone : ∀ source, Services.physical layout a.item.source = .ok source →
      (Loss id a source e ∨ fileAt w.tree source ≠ some a.item.fingerprint) →
      fileAt t.tree source ≠ some a.item.fingerprint) : History layout id t a := by
  refine ⟨h.queued, fun s u x hx => ?_, fun source hs hloss => ?_, fun source hs => ?_,
    fun hd hm => ?_⟩
  · rw [hlog] at hx
    rcases List.mem_cons.mp hx with hx | hx
    · exact htarget s u x hx.symm
    · exact h.target s u x hx
  · rw [hlog] at hloss
    obtain ⟨x, hx, hloss⟩ := hloss
    rcases List.mem_cons.mp hx with rfl | hx
    · exact hgone source hs (.inl hloss)
    · exact hgone source hs (.inr (h.gone source hs ⟨x, hx, hloss⟩))
  · rw [hlog]
    exact List.pairwise_cons.mpr ⟨fun o ho hloss => hquiet source hs ⟨o, ho, hloss⟩,
      h.order source hs⟩
  · obtain ⟨i, hi, hactual, hstate, hseen⟩ := h.arrival hd hm
    exact ⟨i, hi, hactual, hstate, hseen.grow fun e he => by rw [hlog]; exact .tail _ he⟩

theorem History.row {layout : Layout} {w t : World} {a b : Attempt}
    (h : History layout id w a) (hlog : t.log = w.log) (htree : t.tree = w.tree)
    (hitem : b.item = a.item) (hqueued : b.phase = .queued → b.intent = none)
    (htarget : ∀ s u e, Trace.moved (.attempt id) s u e ∈ w.log →
      ∃ i, b.intent = some i ∧ Services.physical layout i.target = .ok u)
    (harrival : b.phase = .done → movedState b.outcome.state →
      ∃ i, b.intent = some i ∧ b.outcome.actualLocation = some i.target ∧
        b.outcome.state = i.state.outcome ∧ SeenMoved layout id w b i) :
    History layout id t b := by
  have hloss : ∀ source e, Loss id b source e = Loss id a source e := by
    intro source e
    cases e <;> simp [Loss, hitem]
  have hquiet : ∀ source e, Quiet id b source e = Quiet id a source e := by
    intro source e
    cases e <;> simp [Quiet, hitem]
  refine ⟨hqueued, fun s u e he => ?_, ?_, ?_, fun hd hm => ?_⟩
  · rw [hitem]
    rw [hlog] at he
    exact ⟨(h.target s u e he).1, htarget s u e he⟩
  · simp only [hlog, htree, hitem, hloss]
    exact h.gone
  · simp only [hlog, hitem, hloss, hquiet]
    exact h.order
  · obtain ⟨i, hi, hactual, hstate, hseen⟩ := harrival hd hm
    exact ⟨i, hi, hactual, hstate, hseen.grow fun e he => by rw [hlog]; exact he⟩

theorem History.same {layout : Layout} {w t : World} {a : Attempt} (h : History layout id w a)
    (hlog : t.log = w.log) (htree : t.tree = w.tree) : History layout id t a :=
  h.row hlog htree rfl h.queued (fun s u e he => (h.target s u e he).2) h.arrival

theorem History.note {layout : Layout} {w t : World} {a : Attempt} {e : Trace}
    (h : History layout id w a) (hlog : t.log = e :: w.log) (htree : t.tree = w.tree)
    (he : ∀ source, ¬Loss id a source e ∧ Quiet id a source e) : History layout id t a := by
  refine h.push hlog (fun s u x hx => ?_) (fun source _ _ => (he source).2) fun source _ hloss => ?_
  · rw [hx] at he
    exact absurd rfl (he []).1
  · rw [htree]
    exact hloss.resolve_left (he source).1

theorem SourceKept.gone {layout : Layout} {w t : World} {a : Attempt} {source : Text}
    (h : SourceKept layout id w t) (ha : w.store.attempt[id]? = some a)
    (hs : Services.physical layout a.item.source = .ok source)
    (hgone : fileAt w.tree source ≠ some a.item.fingerprint) :
    fileAt t.tree source ≠ some a.item.fingerprint := fun hback => hgone (h a source ha hs hback)

theorem moveEntry_source {tree next : FileTree} {source target : Text} {entry : Entry}
    (h : moveEntry tree source target = .ok (entry, next)) : fileAt next source = none := by
  obtain ⟨_, _, hne, rfl⟩ := moveEntry_ok h
  simp [fileAt, Function.update_of_ne hne]

theorem tracked_seen {layout : Layout} {w : World} {owner : Owner} {path : Text}
    (h : Tracked layout id w) :
    Tracked layout id { w with log := .seen owner path w.tree :: w.log } := by
  intro a ha
  refine (h a ha).push rfl (by rintro _ _ _ ⟨⟩)
    (fun source hs hloss _ => (h a ha).gone source hs hloss) ?_
  intro source hs hloss
  exact hloss.elim (fun hseen => hseen.2.2) fun hgone => hgone

theorem tracked_checked {layout : Layout} {w : World} {owner : Owner} {path : Text}
    {expected : Fingerprint} (h : Tracked layout id w)
    (hsource : recordedSource layout w path expected owner)
    (hfile : fileAt w.tree path = some expected) :
    Tracked layout id { w with log := .checked owner :: w.log } := by
  intro a ha
  by_cases howner : owner = .attempt id
  · subst howner
    obtain ⟨a', ha', hexpected, hpath⟩ := hsource
    obtain rfl : a = a' := Option.some.inj (ha.symm.trans ha')
    refine (h a ha).push rfl (by rintro _ _ _ ⟨⟩) (fun source hs hloss => ?_)
      fun source hs hloss => ?_
    · obtain rfl : path = source := Except.ok.inj (hpath.symm.trans hs)
      exact absurd (hexpected ▸ hfile) ((h a ha).gone path hs hloss)
    · exact hloss.resolve_left (by rintro ⟨⟩)
  · exact (h a ha).note rfl rfl fun source => foreign_entry howner

theorem tracked_moved {layout : Layout} {w : World} {owner : Owner} {source target : Text}
    {older : List Trace} {entry : Entry} {tree : FileTree} (h : Tracked layout id w)
    (hintended : intended layout w source target owner) (hlog : w.log = .checked owner :: older)
    (hmove : moveEntry w.tree source target = .ok (entry, tree))
    (hP : SourceKept layout id w { w with
      tree := tree
      log := .moved owner source target entry :: .issued owner source target :: w.log }) :
    Tracked layout id { w with
      tree := tree
      log := .moved owner source target entry :: .issued owner source target :: w.log } := by
  intro a ha
  have hnoted : History layout id
      { w with log := .issued owner source target :: w.log } a :=
    (h a ha).note rfl rfl fun _ => ⟨by rintro ⟨⟩, trivial⟩
  by_cases howner : owner = .attempt id
  · subst howner
    obtain ⟨a', i, ha', hphase, hi, hsource, htarget⟩ := hintended
    obtain rfl : a = a' := Option.some.inj (ha.symm.trans ha')
    refine hnoted.push rfl (fun s u x hx => ?_) (fun s hs hloss => ?_) fun s hs hloss => ?_
    · cases hx
      exact ⟨hsource, i, hi, htarget⟩
    · -- The check that precedes the rename excludes an earlier loss.
      obtain ⟨e, he, hloss⟩ := hloss
      rcases List.mem_cons.mp he with rfl | he
      · cases hloss
      have horder := (h a ha).order s hs
      rw [hlog] at horder he
      rcases List.mem_cons.mp he with rfl | he
      · cases hloss
      · exact absurd rfl ((List.pairwise_cons.mp horder).1 e he hloss)
    · obtain rfl : source = s := Except.ok.inj (hsource.symm.trans hs)
      rw [moveEntry_source hmove]
      rintro ⟨⟩
  · refine hnoted.push rfl (fun s u x hx => ?_) (fun s _ _ => howner) fun s hs hloss => ?_
    · cases hx
      exact absurd rfl howner
    · exact hP.gone ha hs (hloss.resolve_left howner)

theorem tracked_put {layout : Layout} {w t : World} {k : Text} {a b : Attempt}
    (h : Tracked layout id w) (ha : w.store.attempt[k]? = some a)
    (hput : t.store.attempt = w.store.attempt.insert k b) (hlog : t.log = w.log)
    (htree : t.tree = w.tree) (hrow : k = id → History layout id w a → History layout id t b) :
    Tracked layout id t := by
  intro c hc
  rw [hput, get_put] at hc
  split at hc
  · rename_i hk
    cases hc
    subst hk
    exact hrow rfl (h a ha)
  · exact (h c hc).same hlog htree

theorem arrived_seen {layout : Layout} {w : World} {a : Attempt} {i : Intent}
    (h : History layout id w a) (harrived : arrived layout w id a i) :
    SeenMoved layout id w a i := by
  obtain ⟨source, target, tree, older, hs, ht, hlog, hfile, hwhy⟩ := harrived
  refine ⟨source, target, tree, hs, ht, by rw [hlog]; exact List.mem_cons_self .., hfile, ?_⟩
  have horder := h.order source hs
  rw [hlog] at horder
  have hquiet := (List.pairwise_cons.mp horder).1
  rcases hwhy with ⟨before, rest, rfl, hbefore⟩ | ⟨s, u, e, hmoved⟩
  · exact hquiet _ (List.mem_cons_self ..) ⟨rfl, rfl, hbefore⟩ rfl
  · exact hquiet _ hmoved rfl rfl

theorem tracked_effect {layout : Layout} {w t : World} (h : Tracked layout id w)
    (hP : SourceKept layout id w t) (he : Effect layout w t) : Tracked layout id t := by
  cases he with
  | same => exact h
  | seen _ => exact tracked_seen h
  | checked hsource hfile => exact tracked_checked h hsource hfile
  | issued _ _ => exact fun a ha => (h a ha).note rfl rfl fun _ => ⟨by rintro ⟨⟩, trivial⟩
  | moved hintended hlog hmove => exact tracked_moved h hintended hlog hmove hP
  | @requeued k a ha hphase hintent =>
    have hput : Tracked layout id { w with store := { w.store with
        attempt := w.store.attempt.insert k { a with
          phase := .queued
          outcome := { a.outcome with
            state := .pending, reasonCode := none, actualLocation := none
            finishedAt := none } } } } :=
      tracked_put h ha rfl rfl rfl fun _ ha => ha.row rfl rfl rfl (fun _ => hintent)
        (fun s u e he => (ha.target s u e he).2) (by rintro ⟨⟩)
    exact fun b hb => (hput b hb).note rfl rfl fun _ => ⟨by rintro ⟨⟩, trivial⟩
  | @rearmed k a i ha hphase hintent =>
    have hput : Tracked layout id { w with store := { w.store with
        attempt := w.store.attempt.insert k { a with phase := .intent } } } :=
      tracked_put h ha rfl rfl rfl fun _ ha => ha.row rfl rfl rfl (by rintro ⟨⟩)
        (fun s u e he => (ha.target s u e he).2) (by rintro ⟨⟩)
    intro b hb
    split
    · exact (hput b hb).note rfl rfl fun _ => ⟨by rintro ⟨⟩, trivial⟩
    · exact hput b hb
  | @intended k a planned now ha hphase =>
    refine tracked_put h ha rfl rfl rfl fun _ ha => ha.row rfl rfl (by simp) (by simp) ?_ (by simp)
    intro s u e he
    obtain ⟨_, i, hi, _⟩ := ha.target s u e he
    rw [ha.queued hphase] at hi
    cases hi
  | @quarantineIntended k a i target source tree older ha hphase hi htarget hsource hlog hseen =>
    refine tracked_put h ha rfl rfl rfl ?_
    rintro rfl ha
    refine ha.row rfl rfl rfl (fun hq => by cases hphase.symm.trans hq) ?_ fun hd => ?_
    · -- The file has just been seen at its source: nothing has moved it yet.
      intro s u e he
      have horder := ha.order source hsource
      rw [hlog] at horder he
      have hmoved := (List.mem_cons.mp he).resolve_left (by rintro ⟨⟩)
      exact absurd hseen ((List.pairwise_cons.mp horder).1 _ hmoved rfl rfl)
    · cases hphase.symm.trans hd
  | @finished k a item current state reason actual now ha hd hitem hend =>
    refine tracked_put h ha rfl rfl rfl ?_
    rintro rfl ha
    refine ha.row rfl rfl (by simp) (by simp) (fun s u e he => ?_) fun _ hmoved => ?_
    · simpa using (ha.target s u e he).2
    · simp only [finishedAttempt_frame] at hmoved ⊢
      rcases hend with rfl | rfl | ⟨i, hi, hstate, _, hactual, harrived⟩
      · simp [movedState] at hmoved
      · simp [movedState] at hmoved
      · have hseen := arrived_seen ha harrived
        refine ⟨i, hi, hactual, hstate, ?_⟩
        simpa only [SeenMoved, finishedAttempt_frame] using hseen
  | @locked k a item actual now ha hd hr hitem =>
    refine tracked_put h ha rfl rfl rfl fun _ ha => ha.row rfl rfl (by simp) (by simp) ?_ (by simp)
    intro s u e he
    simpa using (ha.target s u e he).2
  | began =>
    intro b hb
    exact (h b hb).note rfl rfl fun _ => ⟨by rintro ⟨⟩, trivial⟩
  | rejected => exact fun b hb => (h b hb).same rfl rfl
  | returnLocked => exact fun b hb => (h b hb).same rfl rfl
  | returned => exact fun b hb => (h b hb).same rfl rfl

theorem tracked_change {w t : World} (h : Tracked v.layout id w)
    (hP : SourceKept v.layout id w t) (hc : Change v w t) : Tracked v.layout id t := by
  cases hc with
  | files =>
    intro a ha
    refine ⟨(h a ha).queued, (h a ha).target, fun source hs hloss => ?_, (h a ha).order,
      (h a ha).arrival⟩
    exact hP.gone ha hs ((h a ha).gone source hs hloss)
  | _ => exact fun a ha => (h a ha).same rfl rfl

theorem tracked_new {layout : Layout} {w t : World} {k : Text} {b : Attempt} (hw : Coherent w)
    (h : Tracked layout id w) (hfree : w.store.attempt[k]? = none)
    (hput : t.store.attempt = w.store.attempt.insert k b) (hlog : t.log = w.log)
    (htree : t.tree = w.tree) (hqueued : b.phase = .queued → b.intent = none)
    (hdone : b.phase = .done → ¬movedState b.outcome.state) : Tracked layout id t := by
  intro c hc
  rw [hput, get_put] at hc
  split at hc
  · rename_i hk
    cases hc
    subst hk
    have hforeign : ∀ e ∈ t.log, traceOwner e ≠ .attempt k := by
      intro e he howner
      rw [hlog] at he
      obtain ⟨a, ha⟩ : ownerKnown w (.attempt k) := howner ▸ hw.log_owned e he
      cases hfree.symm.trans ha
    refine ⟨hqueued, fun s u e he => absurd rfl (hforeign _ he), fun source _ hloss => ?_,
      fun source _ => ?_, fun hd hm => absurd hm (hdone hd)⟩
    · obtain ⟨e, he, hloss⟩ := hloss
      exact absurd hloss (foreign_entry (hforeign e he)).1
    · refine List.Pairwise.imp_of_mem (fun _ ho _ hloss => ?_)
        (List.pairwise_of_forall fun _ _ => trivial)
      exact absurd hloss (foreign_entry (hforeign _ ho)).1
  · exact (h c hc).same hlog htree

theorem tracked_accepting {layout : Layout} {w t : World} (hw : Coherent w)
    (h : Tracked layout id w) (ha : Accepting w t) : Tracked layout id t := by
  cases ha with
  | opened => exact fun a ha => (h a ha).same rfl rfl
  | skipped hfree =>
    refine tracked_new hw h hfree rfl rfl rfl (by rintro ⟨⟩) fun _ hm => ?_
    simp [movedState, acceptedAttempt, acceptedOutcome] at hm
  | claimed hfree => exact tracked_new hw h hfree rfl rfl rfl (fun _ => rfl) (by rintro ⟨⟩)
  | launched => exact fun a ha => (h a ha).same rfl rfl

theorem run_tracked {m : Machine World Cmd Op Val Exn Reply}
    (h : Run v (SourceKept v.layout id) m) : Tracked v.layout id m.state := by
  refine invariant ?_ (fun _ _ _ => tracked_effect) (fun _ _ _ => tracked_change)
    (fun _ _ => tracked_accepting) h
  intro w hw a ha
  simp [hw.attempt] at ha

/-! A finished attempt is never written again. -/

theorem done_effect {layout : Layout} {w t : World} {a : Attempt} (he : Effect layout w t)
    (ha : w.store.attempt[id]? = some a) (hd : a.phase = .done) :
    t.store.attempt[id]? = some a := by
  have hput : ∀ (k : Text) (c b : Attempt), w.store.attempt[k]? = some c → c.phase ≠ .done →
      (w.store.attempt.insert k b)[id]? = some a := by
    intro k c b hc hphase
    rw [get_put, if_neg]
    · exact ha
    · rintro rfl
      obtain rfl : a = c := Option.some.inj (ha.symm.trans hc)
      exact hphase hd
  cases he with
  | requeued hc hphase => exact hput _ _ _ hc (by simp [hphase])
  | rearmed hc hphase => exact hput _ _ _ hc (by rcases hphase with h | h <;> simp [h])
  | intended hc hphase => exact hput _ _ _ hc (by simp [hphase])
  | quarantineIntended hc hphase => exact hput _ _ _ hc (by simp [hphase])
  | finished hc hphase => exact hput _ _ _ hc hphase
  | locked hc hphase => exact hput _ _ _ hc hphase
  | _ => exact ha

theorem done_step {P : World → World → Prop} {m n : Machine World Cmd Op Val Exn Reply}
    (h : Run v P m) {e : Event Cmd Choice Env} (hstep : (system v).step m e = some n) {a : Attempt}
    (ha : m.state.store.attempt[id]? = some a) (hd : a.phase = .done) :
    n.state.store.attempt[id]? = some a := by
  rcases run_step h hstep with heq | heffect | hchange | haccept
  · rw [heq]
    exact ha
  · exact done_effect heffect ha hd
  · exact (Change.rely hchange).attempt id a ha
  · exact (accepted_keeps (run_coherent h) haccept).2.attempt id a ha

theorem done_run {P : World → World → Prop} {check} {es : List (Event Cmd Choice Env)}
    {m n : Machine World Cmd Op Val Exn Reply} (h : Run v P m)
    (hrun : (system v).run check es m = some n) {a : Attempt}
    (ha : m.state.store.attempt[id]? = some a) (hd : a.phase = .done) :
    n.state.store.attempt[id]? = some a := by
  refine (Scripts.play_keeps (fun m : Machine World Cmd Op Val Exn Reply =>
    Run v anyStep m ∧ m.state.store.attempt[id]? = some a) ?_ ⟨run_any h, ha⟩ hrun).2
  intro u e next _ hu _ hstep
  exact ⟨.tail hu.1 (allows_of_step fun _ _ => trivial) hstep, done_step hu.1 hstep hu.2 hd⟩

def movedBy (id : Text) : Trace → Bool
  | .moved owner _ _ _ => owner = .attempt id
  | _ => false

theorem countP_le_one {α : Type} {p : α → Bool} :
    ∀ {l : List α}, l.Pairwise (fun x y => p y = true → p x = false) → l.countP p ≤ 1
  | [], _ => Nat.zero_le _
  | x :: l, h => by
    obtain ⟨hx, hl⟩ := List.pairwise_cons.mp h
    rw [List.countP_cons]
    by_cases hpx : p x = true
    · have hzero : l.countP p = 0 := List.countP_eq_zero.mpr fun y hy hpy => by
        rw [hx y hy hpy] at hpx
        cases hpx
      rw [hzero, if_pos hpx]
    · rw [if_neg hpx]
      exact countP_le_one hl

theorem moved_once {layout : Layout} {w : World} (hw : Coherent w) (h : Tracked layout id w) :
    w.log.countP (movedBy id) ≤ 1 := by
  by_cases hmoved : ∃ s u e, Trace.moved (.attempt id) s u e ∈ w.log
  · obtain ⟨s, u, e, he⟩ := hmoved
    obtain ⟨a, ha⟩ : ownerKnown w (.attempt id) := hw.log_owned _ he
    have hs := ((h a ha).target s u e he).1
    refine countP_le_one (((h a ha).order s hs).imp fun {newer older} hquiet holder => ?_)
    cases older with
    | moved owner _ _ _ =>
      have hnewer := hquiet (by simpa [movedBy, Loss] using holder)
      cases newer with
      | moved _ _ _ _ => simpa [movedBy, Quiet] using hnewer
      | _ => rfl
    | _ => cases holder
  · have hzero : w.log.countP (movedBy id) = 0 := by
      refine List.countP_eq_zero.mpr fun e he hm => hmoved ?_
      cases e with
      | moved owner s u x =>
        obtain rfl : owner = .attempt id := by simpa [movedBy] using hm
        exact ⟨s, u, x, he⟩
      | _ => cases hm
    omega

/-- Every rename of an attempt goes from its recorded source to its durable target, at most
one succeeds, a moved outcome is what that target has shown, and it stays. -/
theorem durable_move {m : Machine World Cmd Op Val Exn Reply}
    (h : Run v (SourceKept v.layout id) m) :
    (∀ c source target k,
      m.holder = some (c, .call (.renameExclusive (.attempt id) source target) k) →
      ∃ a i, m.state.store.attempt[id]? = some a ∧ a.phase = .intent ∧ a.intent = some i ∧
        Services.physical v.layout a.item.source = .ok source ∧
        Services.physical v.layout i.target = .ok target) ∧
    m.state.log.countP (movedBy id) ≤ 1 ∧
    (∀ a, m.state.store.attempt[id]? = some a → a.phase = .done → movedState a.outcome.state →
      ∃ i, a.intent = some i ∧ a.outcome.actualLocation = some i.target ∧
        a.outcome.state = i.state.outcome ∧ SeenMoved v.layout id m.state a i ∧
        ∀ s u e, Trace.moved (.attempt id) s u e ∈ m.state.log →
          Services.physical v.layout a.item.source = .ok s ∧
          Services.physical v.layout i.target = .ok u) ∧
    (∀ check es n a, (system v).run check es m = some n →
      m.state.store.attempt[id]? = some a → a.phase = .done →
      n.state.store.attempt[id]? = some a) := by
  have htracked := run_tracked h
  refine ⟨fun c source target k hm => ?_, moved_once (run_coherent h) htracked,
    fun a ha hd hmoved => ?_, fun check es n a hrun ha hd => done_run h hrun ha hd⟩
  · exact (run_permit h hm).1
  · obtain ⟨i, hi, hactual, hstate, hseen⟩ := (htracked a ha).arrival hd hmoved
    refine ⟨i, hi, hactual, hstate, hseen, fun s u e he => ?_⟩
    obtain ⟨hs, i', hi', hu⟩ := (htracked a ha).target s u e he
    obtain rfl : i = i' := Option.some.inj (hi.symm.trans hi')
    exact ⟨hs, hu⟩

/-- `SourceKept`, for concrete runs. -/
def keepsSource (layout : Layout) (id : Text) (w t : World) : Bool :=
  (w.store.attempt[id]?).all fun a =>
    match Services.physical layout a.item.source with
    | .error _ => true
    | .ok source =>
      fileAt t.tree source ≠ some a.item.fingerprint ∨
        fileAt w.tree source = some a.item.fingerprint

theorem keepsSource_kept {layout : Layout} {w t : World} (h : keepsSource layout id w t = true) :
    SourceKept layout id w t := by
  intro a source ha hs hfile
  simp only [keepsSource, ha, hs, Option.all_some, decide_eq_true_eq] at h
  exact h.resolve_left (not_not.mpr hfile)

/-- The move of one file, which the clock lets become ready, by one run of the worker. -/
def smallMove : List (Event Cmd Choice Env) :=
  [.other (.scan "in".toList 0 [⟨"a.t".toList, ⟨1, 7, 3, 0⟩, "queue-1".toList⟩]),
    .other (.scan "in".toList 20 [⟨"a.t".toList, ⟨1, 7, 3, 0⟩, "queue-1".toList⟩])] ++
  acceptEvents ['s'] ['b'] ['t'] 20 [("queue-in-1-7".toList, 1)] ++
  commandEvents .runOnce [] 30 (List.replicate 21 false)

theorem durable_move_small : ∃ m a i,
    (system small).run (checkStep small (keepsSource small.layout "t0".toList)) smallMove
      ⟨smallWorld true [("in/a.t", ⟨1, 7, 3, 0⟩)], none⟩ = some m ∧
    m.state.store.attempt["t0".toList]? = some a ∧ a.intent = some i ∧
    a.outcome.actualLocation = some i.target ∧ SeenMoved small.layout "t0".toList m.state a i := by
  have hrun : ((system small).run (checkStep small (keepsSource small.layout "t0".toList)) smallMove
      ⟨smallWorld true [("in/a.t", ⟨1, 7, 3, 0⟩)], none⟩).any
      (fun m => (m.state.store.attempt["t0".toList]?).any
        (fun a => a.phase = .done ∧ a.outcome.state = .sorted)) = true := by decide +kernel
  obtain ⟨m, hm, hrow⟩ := (Option.any_eq_true _ _).mp hrun
  obtain ⟨a, ha, hstate⟩ := (Option.any_eq_true _ _).mp hrow
  obtain ⟨hd, hsorted⟩ : a.phase = .done ∧ a.outcome.state = .sorted := by simpa using hstate
  obtain ⟨_, _, hplaced, _⟩ := durable_move (v := small)
    (run_checked (fun _ _ => keepsSource_kept) (smallWorld_start _ _) hm)
  obtain ⟨i, hi, hactual, _, hseen, _⟩ := hplaced a ha hd (.inl hsorted)
  exact ⟨m, a, i, hm, ha, hi, hactual, hseen⟩

end DurableMove
