import Mathlib.Data.Set.Function
import WiseWay.ClientTransport

/-! # Keys of retried requests

The requests of one client session, sent and answered in any order. A key belongs to one body,
and a body is sent again with its key until another body is sent in its cell. -/
namespace RetriedKeys

open ClientTransport OrderedDicts
open Records (Text)

structure Request where
  operation : OperationMeta
  scope : Text
  body : Text
  key : Option Text
  deriving DecidableEq

/-- What happens to the requests: they leave, and are answered or lost. -/
inductive Entry where
  | sent (r : Request)
  | answered (r : Request) (response : Response)
  | lost (r : Request)
  deriving DecidableEq

/-- The transport, the number of keys drawn, the requests in flight, and the log of the session,
the latest entry first. -/
structure World where
  transport : Transport
  draws : ℕ
  inFlight : List Request
  log : List Entry

def cell (operation : OperationMeta) (scope : Text) : Text :=
  scopedKey operation.operationId scope

def Request.cell (r : Request) : Text := RetriedKeys.cell r.operation r.scope

/-- The request carries a key, and it is in the cell. -/
def InCell (c : Text) (r : Request) : Prop := r.operation.idempotencyKey = true ∧ r.cell = c

instance (c : Text) (r : Request) : Decidable (InCell c r) :=
  inferInstanceAs (Decidable (_ ∧ _))

def send (uuid : ℕ → Text) (w : World) (operation : OperationMeta) (scope body : Text) : World :=
  let requested := onRequest w.transport operation scope body (uuid w.draws)
  let r : Request := ⟨operation, scope, body, requested.2.idempotencyKey⟩
  { transport := requested.1
    draws := w.draws + 1
    inFlight := w.inFlight ++ [r]
    log := .sent r :: w.log }

/-- A request leaves, or any request in flight is answered or lost. The session does not end. -/
inductive Step (uuid : ℕ → Text) (bodies : Set Text) : World → World → Prop
  | send {w} (operation : OperationMeta) (scope : Text) {body : Text} : body ∈ bodies →
      Step uuid bodies w (send uuid w operation scope body)
  | receive {w r before after} (response : Response) : w.inFlight = before ++ r :: after →
      ¬Unauthenticated response →
      Step uuid bodies w
        { w with
          transport := onResponse w.transport r.operation r.scope response
          inFlight := before ++ after
          log := .answered r response :: w.log }
  | lose {w r before after} : w.inFlight = before ++ r :: after →
      Step uuid bodies w
        { w with
          transport := onError w.transport
          inFlight := before ++ after
          log := .lost r :: w.log }

/-- Every run of a session that starts without pending keys. -/
inductive Reachable (uuid : ℕ → Text) (bodies : Set Text) : World → Prop
  | start (csrfToken : Option Text) :
      Reachable uuid bodies ⟨⟨csrfToken, OrderedDict.empty⟩, 0, [], []⟩
  | step {w w'} : Reachable uuid bodies w → Step uuid bodies w w' → Reachable uuid bodies w'

/-! What the log says about a cell. -/

def current (c : Text) : List Entry → Option Request
  | [] => none
  | .sent r :: log => if InCell c r then some r else current c log
  | .answered r response :: log =>
    if InCell c r ∧ Completes response then none else current c log
  | .lost _ :: log => current c log

/-- A request got the key that was pending for its body, or a key that nobody had. -/
inductive Issued (log : List Entry) (r : Request) : Prop
  | reused {pending} : current r.cell log = some pending → pending.body = r.body →
      r.key = pending.key → Issued log r
  | fresh : (∀ pending, current r.cell log = some pending → pending.body ≠ r.body) →
      (∀ other, .sent other ∈ log → other.key ≠ r.key) → Issued log r

/-- Every request in the log was issued as the log before it says. -/
inductive Legal : List Entry → Prop
  | nil : Legal []
  | sent {r log} : Legal log → (r.operation.idempotencyKey = true → r.key.isSome = true) →
      (r.operation.idempotencyKey = true → Issued log r) →
      (r.operation.idempotencyKey = false → r.key = none) → Legal (.sent r :: log)
  | answered {r response log} : Legal log → Legal (.answered r response :: log)
  | lost {r log} : Legal log → Legal (.lost r :: log)

variable {log since earlier : List Entry} {r r' other : Request} {c : Text}

theorem mem_of_current (h : current c log = some r) : .sent r ∈ log ∧ InCell c r := by
  induction log with
  | nil => cases h
  | cons e log ih =>
    cases e with
    | sent s =>
      by_cases hs : InCell c s
      · rw [current, if_pos hs, Option.some.injEq] at h
        rw [← h]
        exact ⟨List.mem_cons_self .., hs⟩
      · rw [current, if_neg hs] at h
        exact ⟨List.mem_cons_of_mem _ (ih h).1, (ih h).2⟩
    | answered s response =>
      by_cases hs : InCell c s ∧ Completes response
      · rw [current, if_pos hs] at h
        cases h
      · rw [current, if_neg hs] at h
        exact ⟨List.mem_cons_of_mem _ (ih h).1, (ih h).2⟩
    | lost s => exact ⟨List.mem_cons_of_mem _ (ih h).1, (ih h).2⟩

theorem Legal.keyed (h : Legal log) (hr : .sent r ∈ log) {k : Text} (hk : r.key = some k) :
    r.operation.idempotencyKey = true := by
  induction h with
  | nil => cases hr
  | @sent s log _ _ _ hplain ih =>
    rcases List.mem_cons.mp hr with heq | hr
    · cases heq
      by_contra hidem
      rw [hplain (Bool.not_eq_true _ ▸ hidem)] at hk
      cases hk
    · exact ih hr
  | answered _ ih =>
    rcases List.mem_cons.mp hr with heq | hr
    · cases heq
    · exact ih hr
  | lost _ ih =>
    rcases List.mem_cons.mp hr with heq | hr
    · cases heq
    · exact ih hr

theorem Legal.has_key (h : Legal log) (hr : .sent r ∈ log)
    (hkeyed : r.operation.idempotencyKey = true) : r.key.isSome = true := by
  induction h with
  | nil => cases hr
  | sent _ hsome _ _ ih =>
    rcases List.mem_cons.mp hr with heq | hr
    · cases heq
      exact hsome hkeyed
    · exact ih hr
  | answered _ ih =>
    rcases List.mem_cons.mp hr with heq | hr
    · cases heq
    · exact ih hr
  | lost _ ih =>
    rcases List.mem_cons.mp hr with heq | hr
    · cases heq
    · exact ih hr

theorem Issued.origin (h : Issued log r) (hother : .sent other ∈ log)
    (hkey : other.key = r.key) :
    ∃ pending, current r.cell log = some pending ∧ pending.body = r.body ∧
      pending.key = r.key := by
  cases h with
  | @reused pending hcurrent hbody hsame => exact ⟨pending, hcurrent, hbody, hsame.symm⟩
  | fresh _ hfresh => exact absurd hkey (hfresh other hother)

theorem Legal.one_body (h : Legal log) (hr : .sent r ∈ log) (hr' : .sent r' ∈ log)
    {k : Text} (hk : r.key = some k) (hk' : r'.key = some k) : r.body = r'.body := by
  induction h generalizing r r' with
  | nil => cases hr
  | @sent s log hlog hsome hissued hplain ih =>
    -- the body of the latest request against an earlier one with its key
    have hlatest : ∀ o, .sent o ∈ log → o.key = some k → s.key = some k → s.body = o.body := by
      intro o ho hok hsk
      have hidem : s.operation.idempotencyKey = true :=
        (Legal.sent hlog hsome hissued hplain).keyed (List.mem_cons_self ..) hsk
      obtain ⟨pending, hcurrent, hbody, hkey⟩ :=
        (hissued hidem).origin ho (hok.trans hsk.symm)
      rw [← hbody]
      exact ih (mem_of_current hcurrent).1 ho (hkey.trans hsk) hok
    rcases List.mem_cons.mp hr with heq | hr
    · cases heq
      rcases List.mem_cons.mp hr' with heq' | hr'
      · cases heq'
        rfl
      · exact hlatest r' hr' hk' hk
    · rcases List.mem_cons.mp hr' with heq' | hr'
      · cases heq'
        exact (hlatest r hr hk hk').symm
      · exact ih hr hr' hk hk'
  | answered _ ih =>
    rcases List.mem_cons.mp hr with heq | hr
    · cases heq
    · rcases List.mem_cons.mp hr' with heq' | hr'
      · cases heq'
      · exact ih hr hr' hk hk'
  | lost _ ih =>
    rcases List.mem_cons.mp hr with heq | hr
    · cases heq
    · rcases List.mem_cons.mp hr' with heq' | hr'
      · cases heq'
      · exact ih hr hr' hk hk'

/-- Nothing in a part of the log replaces or completes the body's key in the cell. -/
def Undisturbed (c body : Text) (since : List Entry) : Prop :=
  (∀ other, .sent other ∈ since → InCell c other → other.body = body) ∧
    ∀ other response, .answered other response ∈ since → InCell c other → ¬Completes response

theorem Undisturbed.tail {body : Text} {e : Entry} (h : Undisturbed c body (e :: since)) :
    Undisturbed c body since :=
  ⟨fun other ho => h.1 other (List.mem_cons_of_mem _ ho),
    fun other response ho => h.2 other response (List.mem_cons_of_mem _ ho)⟩

theorem Legal.pending (h : Legal (since ++ .sent r :: earlier)) (hr : InCell c r)
    (hquiet : Undisturbed c r.body since) :
    ∃ pending, current c (since ++ .sent r :: earlier) = some pending ∧
      pending.body = r.body ∧ pending.key = r.key := by
  induction since with
  | nil =>
    refine ⟨r, ?_, rfl, rfl⟩
    rw [List.nil_append, current, if_pos hr]
  | cons e since ih =>
    rw [List.cons_append] at h ⊢
    cases h with
    | @sent s _ hlog hsome hissued hplain =>
      obtain ⟨pending, hcurrent, hbody, hkey⟩ := ih hlog hquiet.tail
      by_cases hs : InCell c s
      · have hsame := hquiet.1 s (List.mem_cons_self ..) hs
        rw [current, if_pos hs]
        refine ⟨s, rfl, hsame, ?_⟩
        rw [← hs.2] at hcurrent
        cases hissued hs.1 with
        | @reused pending' hcurrent' _ hkey' =>
          rw [hcurrent, Option.some.injEq] at hcurrent'
          rw [hkey', ← hcurrent', hkey]
        | fresh hnone _ => exact absurd (hbody.trans hsame.symm) (hnone pending hcurrent)
      · rw [current, if_neg hs]
        exact ⟨pending, hcurrent, hbody, hkey⟩
    | @answered s response _ hlog =>
      have hopen : ¬(InCell c s ∧ Completes response) := fun hdone =>
        hquiet.2 s response (List.mem_cons_self ..) hdone.1 hdone.2
      rw [current, if_neg hopen]
      exact ih hlog hquiet.tail
    | lost hlog => exact ih hlog hquiet.tail

/-- While a key is pending in its cell, only its body has been sent there since its first use. -/
theorem Legal.steady (h : Legal (since ++ .sent r :: earlier))
    (hcurrent : current c (since ++ .sent r :: earlier) = some r') (hkey : r'.key = r.key)
    (hother : .sent other ∈ since) (hcell : InCell c other) : other.body = r'.body := by
  induction since generalizing r' with
  | nil => cases hother
  | cons e since ih =>
    rw [List.cons_append] at h hcurrent
    cases h with
    | @sent s _ hlog hsome hissued hplain =>
      by_cases hs : InCell c s
      · rw [current, if_pos hs, Option.some.injEq] at hcurrent
        subst hcurrent
        rcases List.mem_cons.mp hother with heq | hother
        · cases heq
          rfl
        · obtain ⟨pending, hpending, hbody, hpkey⟩ := (hissued hs.1).origin
            (List.mem_append_right _ (List.mem_cons_self ..)) hkey.symm
          rw [hs.2] at hpending
          rw [← hbody]
          exact ih hlog hpending (hpkey.trans hkey) hother
      · rw [current, if_neg hs] at hcurrent
        rcases List.mem_cons.mp hother with heq | hother
        · cases heq
          exact absurd hcell hs
        · exact ih hlog hcurrent hkey hother
    | @answered s response _ hlog =>
      by_cases hs : InCell c s ∧ Completes response
      · rw [current, if_pos hs] at hcurrent
        cases hcurrent
      · rw [current, if_neg hs] at hcurrent
        rcases List.mem_cons.mp hother with heq | hother
        · cases heq
        · exact ih hlog hcurrent hkey hother
    | lost hlog =>
      rcases List.mem_cons.mp hother with heq | hother
      · cases heq
      · exact ih hlog hcurrent hkey hother

/-! The transport against the log. -/

def stored (r : Request) : IdempotencyRecord := ⟨r.key.getD [], fingerprintBody r.body⟩

structure Sound (uuid : ℕ → Text) (bodies : Set Text) (w : World) : Prop where
  legal : Legal w.log
  records : ∀ c, w.transport.records.get c = (current c w.log).map stored
  drawn : ∀ r, .sent r ∈ w.log → ∀ k, r.key = some k → ∃ n < w.draws, k = uuid n
  bodies : ∀ r, .sent r ∈ w.log → r.body ∈ bodies

variable {uuid : ℕ → Text} {bodies : Set Text} {w w' : World} {operation : OperationMeta}
  {scope body : Text}

/-- The request that `send` adds. -/
def requested (uuid : ℕ → Text) (w : World) (operation : OperationMeta) (scope body : Text) :
    Request :=
  ⟨operation, scope, body,
    (onRequest w.transport operation scope body (uuid w.draws)).2.idempotencyKey⟩

variable (scope body) in
theorem onRequest_keyed (t : Transport) (h : operation.idempotencyKey = true) (fresh : Text) :
    (onRequest t operation scope body fresh).1.records =
        (begin t.records operation.operationId body scope fresh).2 ∧
      (onRequest t operation scope body fresh).2.idempotencyKey =
        some (begin t.records operation.operationId body scope fresh).1 := by
  rw [onRequest, if_pos h]
  exact ⟨rfl, rfl⟩

variable (scope body) in
theorem onRequest_plain (t : Transport) (h : operation.idempotencyKey = false) (fresh : Text) :
    (onRequest t operation scope body fresh).1.records = t.records ∧
      (onRequest t operation scope body fresh).2.idempotencyKey = none := by
  rw [onRequest, h, if_neg Bool.false_ne_true]
  exact ⟨rfl, rfl⟩

theorem Sound.key_drawn (h : Sound uuid bodies w) (operation : OperationMeta)
    (scope body : Text) : ∃ n < w.draws + 1,
      (begin w.transport.records operation.operationId body scope (uuid w.draws)).1 = uuid n := by
  rcases begin_cases w.transport.records operation.operationId body scope (uuid w.draws) with
    ⟨existing, hget, -, hbegin⟩ | ⟨-, hbegin⟩
  · have hrecord := h.records (scopedKey operation.operationId scope)
    rw [hget] at hrecord
    obtain ⟨pending, hcurrent, hstored⟩ := Option.map_eq_some_iff.mp hrecord.symm
    obtain ⟨hlogged, hcell⟩ := mem_of_current hcurrent
    obtain ⟨k, hk⟩ := Option.isSome_iff_exists.mp (h.legal.has_key hlogged hcell.1)
    obtain ⟨n, hn, hdrawn⟩ := h.drawn pending hlogged k hk
    refine ⟨n, Nat.lt_succ_of_lt hn, ?_⟩
    rw [hbegin, ← hstored, stored, hk, ← hdrawn]
    rfl
  · exact ⟨w.draws, Nat.lt_succ_self _, by rw [hbegin]⟩

section Runs

variable (huuid : Function.Injective uuid) (hfingerprint : Set.InjOn fingerprintBody bodies)

include huuid hfingerprint

/-- Every request with a key is issued as the log says. -/
theorem Sound.issued (h : Sound uuid bodies w) (hkeyed : operation.idempotencyKey = true)
    (hbody : body ∈ bodies) : Issued w.log (requested uuid w operation scope body) := by
  have hkey : (requested uuid w operation scope body).key =
      some (begin w.transport.records operation.operationId body scope (uuid w.draws)).1 :=
    (onRequest_keyed scope body w.transport hkeyed (uuid w.draws)).2
  have hrecord := h.records (cell operation scope)
  rcases begin_cases w.transport.records operation.operationId body scope (uuid w.draws) with
    ⟨existing, hget, hsame, hbegin⟩ | ⟨hnone, hbegin⟩
  · rw [cell, hget] at hrecord
    obtain ⟨pending, hcurrent, hstored⟩ := Option.map_eq_some_iff.mp hrecord.symm
    obtain ⟨hlogged, hcell⟩ := mem_of_current hcurrent
    have hpending : pending.body = body := by
      apply hfingerprint (h.bodies pending hlogged) hbody
      rw [← hsame, ← hstored]
      rfl
    refine .reused hcurrent hpending ?_
    rw [hkey, hbegin, ← hstored]
    cases hp : pending.key with
    | none =>
      have hsome := h.legal.has_key hlogged hcell.1
      rw [hp] at hsome
      cases hsome
    | some k =>
      rw [stored, hp]
      rfl
  · refine .fresh ?_ ?_
    · intro pending hcurrent hsame
      rw [cell] at hrecord
      rw [show (requested uuid w operation scope body).cell = scopedKey operation.operationId scope
        from rfl] at hcurrent
      rw [hcurrent, Option.map_some] at hrecord
      apply hnone _ hrecord
      rw [stored, hsame]
      rfl
    · intro other hother heq
      rw [hkey, hbegin] at heq
      obtain ⟨n, hn, hdrawn⟩ := h.drawn other hother _ heq
      exact absurd (huuid hdrawn) (by omega)

theorem Sound.send (h : Sound uuid bodies w) (hbody : body ∈ bodies) :
    Sound uuid bodies (send uuid w operation scope body) := by
  have hdrawn_old : ∀ r, Entry.sent r ∈ w.log → ∀ k, r.key = some k →
      ∃ n < w.draws + 1, k = uuid n := by
    intro r hr k hk
    obtain ⟨n, hn, heq⟩ := h.drawn r hr k hk
    exact ⟨n, Nat.lt_succ_of_lt hn, heq⟩
  cases hkeyed : operation.idempotencyKey with
  | false =>
    obtain ⟨hrecords, hnokey⟩ :=
      onRequest_plain scope body w.transport hkeyed (uuid w.draws)
    have hout : ∀ c, ¬InCell c (requested uuid w operation scope body) := by
      intro c hcell
      exact Bool.false_ne_true (hkeyed.symm.trans hcell.1)
    constructor
    · refine .sent h.legal (fun hk => ?_) (fun hk => ?_) (fun _ => hnokey)
      · exact absurd (hkeyed.symm.trans hk) Bool.false_ne_true
      · exact absurd (hkeyed.symm.trans hk) Bool.false_ne_true
    · intro c
      change (onRequest _ _ _ _ _).1.records.get c =
        (current c (.sent (requested uuid w operation scope body) :: w.log)).map stored
      rw [hrecords, current, if_neg (hout c)]
      exact h.records c
    · intro r hr k hk
      rcases List.mem_cons.mp hr with heq | hr
      · cases heq
        rw [hnokey] at hk
        cases hk
      · exact hdrawn_old r hr k hk
    · intro r hr
      rcases List.mem_cons.mp hr with heq | hr
      · cases heq
        exact hbody
      · exact h.bodies r hr
  | true =>
    have hissued : Issued w.log (requested uuid w operation scope body) :=
      h.issued huuid hfingerprint hkeyed hbody
    obtain ⟨hrecords, hkey⟩ :=
      onRequest_keyed scope body w.transport hkeyed (uuid w.draws)
    constructor
    · refine .sent h.legal (fun _ => ?_) (fun _ => hissued) (fun hk => ?_)
      · rw [hkey]
        rfl
      · exact absurd (hk.symm.trans hkeyed) Bool.false_ne_true
    · intro c
      change (onRequest _ _ _ _ _).1.records.get c =
        (current c (.sent (requested uuid w operation scope body) :: w.log)).map stored
      rw [hrecords, get_begin, current]
      by_cases hc : c = scopedKey operation.operationId scope
      · have hin : InCell c (requested uuid w operation scope body) := ⟨hkeyed, hc.symm⟩
        rw [if_pos hc, if_pos hin, Option.map_some, stored]
        rw [show (requested uuid w operation scope body).key = _ from hkey]
        rfl
      · have hout : ¬InCell c (requested uuid w operation scope body) := fun hin => hc hin.2.symm
        rw [if_neg hc, if_neg hout]
        exact h.records c
    · intro r hr k hk
      rcases List.mem_cons.mp hr with heq | hr
      · cases heq
        rw [hkey, Option.some.injEq] at hk
        obtain ⟨n, hn, hdrawn⟩ := h.key_drawn operation scope body
        exact ⟨n, hn, hk.symm.trans hdrawn⟩
      · exact hdrawn_old r hr k hk
    · intro r hr
      rcases List.mem_cons.mp hr with heq | hr
      · cases heq
        exact hbody
      · exact h.bodies r hr

omit huuid hfingerprint in
theorem Sound.logged (h : Sound uuid bodies w) {transport : Transport} {inFlight : List Request}
    {e : Entry} (he : ∀ r, e ≠ .sent r) (hlegal : Legal (e :: w.log))
    (hrecords : ∀ c, transport.records.get c = (current c (e :: w.log)).map stored) :
    Sound uuid bodies ⟨transport, w.draws, inFlight, e :: w.log⟩ := by
  refine ⟨hlegal, hrecords, ?_, ?_⟩
  · intro r hr
    rcases List.mem_cons.mp hr with heq | hr
    · exact absurd heq.symm (he r)
    · exact h.drawn r hr
  · intro r hr
    rcases List.mem_cons.mp hr with heq | hr
    · exact absurd heq.symm (he r)
    · exact h.bodies r hr

theorem Sound.step (h : Sound uuid bodies w) (hstep : Step uuid bodies w w') :
    Sound uuid bodies w' := by
  cases hstep with
  | send operation scope hbody => exact h.send huuid hfingerprint hbody
  | @receive r before after response _ hsession =>
    refine h.logged (fun _ => Entry.noConfusion) (.answered h.legal) ?_
    intro c
    rw [onResponse, if_neg hsession, current]
    by_cases hdone : r.operation.idempotencyKey = true ∧ Completes response
    · rw [if_pos hdone, get_complete]
      by_cases hc : c = scopedKey r.operation.operationId r.scope
      · rw [if_pos hc, if_pos ⟨⟨hdone.1, hc.symm⟩, hdone.2⟩]
        rfl
      · rw [if_neg hc, if_neg fun hin => hc hin.1.2.symm]
        exact h.records c
    · rw [if_neg hdone, if_neg fun hin => hdone ⟨hin.1.1, hin.2⟩]
      exact h.records c
  | lose _ => exact h.logged (fun _ => Entry.noConfusion) (.lost h.legal) h.records

theorem sound_of_reachable (h : Reachable uuid bodies w) : Sound uuid bodies w := by
  induction h with
  | start csrfToken =>
    refine ⟨.nil, fun _ => rfl, fun r hr => ?_, fun r hr => ?_⟩
    · cases hr
    · cases hr
  | step _ hstep ih => exact ih.step huuid hfingerprint hstep

/-- Different bodies never share a key. A body that is sent again carries its key as long as
nothing has been sent with another body and nothing has been completed in its cell since; after
another body it is a new operation with a key of its own. -/
theorem retried_keys (h : Reachable uuid bodies w) :
    (∀ r r', .sent r ∈ w.log → .sent r' ∈ w.log → ∀ k, r.key = some k → r'.key = some k →
      r.body = r'.body) ∧
    (∀ r since earlier, w.log = since ++ .sent r :: earlier → InCell r.cell r →
      (Undisturbed r.cell r.body since →
        (requested uuid w r.operation r.scope r.body).key = r.key) ∧
      ((∃ other, .sent other ∈ since ∧ InCell r.cell other ∧ other.body ≠ r.body) →
        (requested uuid w r.operation r.scope r.body).key ≠ r.key)) := by
  have hsound := sound_of_reachable huuid hfingerprint h
  refine ⟨fun r r' hr hr' k hk hk' => hsound.legal.one_body hr hr' hk hk', ?_⟩
  intro r since earlier hlog hr
  have hlegal := hsound.legal
  have hmem : Entry.sent r ∈ w.log := by
    rw [hlog]
    exact List.mem_append_right _ (List.mem_cons_self ..)
  have hissued : Issued w.log (requested uuid w r.operation r.scope r.body) :=
    hsound.issued huuid hfingerprint hr.1 (hsound.bodies r hmem)
  rw [hlog] at hlegal
  constructor
  · intro hquiet
    obtain ⟨pending, hcurrent, hbody, hkey⟩ := hlegal.pending hr hquiet
    rw [← hlog] at hcurrent
    cases hissued with
    | @reused pending' hcurrent' _ hkey' =>
      have hsame : pending = pending' := Option.some.inj (hcurrent.symm.trans hcurrent')
      rw [hkey', ← hsame, hkey]
    | fresh hnone _ => exact absurd hbody (hnone pending hcurrent)
  · rintro ⟨other, hother, hcell, hdifferent⟩ hkey
    obtain ⟨pending, hcurrent, hbody, hpending⟩ := hissued.origin hmem hkey.symm
    rw [hlog] at hcurrent
    have hsteady := hlegal.steady hcurrent (hpending.trans hkey) hother hcell
    exact hdifferent (hsteady.trans hbody)

end Runs

/-! Two bodies of one cell. -/

def draw (n : ℕ) : Text := List.replicate n '0'

theorem draw_injective : Function.Injective draw := by
  intro m n h
  have hlength := congrArg List.length h
  rwa [draw, draw, List.length_replicate, List.length_replicate] at hlength

def oneBody : Text := "\x7b\"selection_id\":\"a\"\x7d".toList

def otherBody : Text := "\x7b\"selection_id\":\"b\"\x7d".toList

def twoBodies : Set Text := {oneBody, otherBody}

theorem twoBodies_fingerprints : Set.InjOn fingerprintBody twoBodies := by
  have hdifferent : fingerprintBody oneBody ≠ fingerprintBody otherBody := by decide +kernel
  rintro a (rfl | rfl) b (rfl | rfl) h
  · rfl
  · exact absurd h hdifferent
  · exact absurd h.symm hdifferent
  · rfl

def opened : World := ⟨⟨some "token".toList, OrderedDict.empty⟩, 0, [], []⟩

theorem opened_reachable : Reachable draw twoBodies opened := .start _

def firstRequest : Request := ⟨createSortingBatch, [], oneBody, some (draw 0)⟩

def sentOne : World := send draw opened createSortingBatch [] oneBody

theorem sentOne_reachable : Reachable draw twoBodies sentOne :=
  opened_reachable.step (.send createSortingBatch [] (Or.inl rfl))

def lostOne : World where
  transport := onError sentOne.transport
  draws := sentOne.draws
  inFlight := [] ++ []
  log := .lost firstRequest :: sentOne.log

theorem lostOne_reachable : Reachable draw twoBodies lostOne := by
  apply sentOne_reachable.step
  exact .lose (show sentOne.inFlight = [] ++ firstRequest :: [] from rfl)

theorem lostOne_log : lostOne.log = [.lost firstRequest] ++ .sent firstRequest :: [] := rfl

theorem firstRequest_inCell : InCell firstRequest.cell firstRequest := ⟨rfl, rfl⟩

theorem lost_undisturbed :
    Undisturbed firstRequest.cell firstRequest.body [.lost firstRequest] := by
  constructor
  · intro other ho
    cases List.mem_singleton.mp ho
  · intro other response ho
    cases List.mem_singleton.mp ho

/-- A body whose request was lost keeps its key. -/
theorem retried_keys_lost :
    (requested draw lostOne firstRequest.operation firstRequest.scope firstRequest.body).key =
      firstRequest.key := by
  have hkeys := retried_keys draw_injective twoBodies_fingerprints lostOne_reachable
  have hretried := hkeys.2 firstRequest [.lost firstRequest] [] lostOne_log firstRequest_inCell
  exact hretried.1 lost_undisturbed

def sentBoth : World := send draw sentOne createSortingBatch [] otherBody

theorem sentBoth_reachable : Reachable draw twoBodies sentBoth :=
  sentOne_reachable.step (.send createSortingBatch [] (Or.inr rfl))

/-- The other body, then the first one; the other body's success comes last. -/
def sentThen : World :=
  send draw (send draw opened createSortingBatch [] otherBody) createSortingBatch [] oneBody

def otherRequest : Request := ⟨createSortingBatch, [], otherBody, some (draw 0)⟩

def laterRequest : Request := ⟨createSortingBatch, [], oneBody, some (draw 1)⟩

def accepted : Response := ⟨202, none, none⟩

def answeredOther : World where
  transport := onResponse sentThen.transport createSortingBatch [] accepted
  draws := sentThen.draws
  inFlight := [] ++ [laterRequest]
  log := .answered otherRequest accepted :: sentThen.log

theorem answeredOther_reachable : Reachable draw twoBodies answeredOther := by
  have hother := opened_reachable.step (.send createSortingBatch [] (Or.inr rfl))
  have hboth : Reachable draw twoBodies sentThen :=
    hother.step (.send createSortingBatch [] (Or.inl rfl))
  have hflight : sentThen.inFlight = [] ++ otherRequest :: [laterRequest] := by decide +kernel
  exact hboth.step (.receive accepted hflight (by decide))

/-- The first body is sent, the second is sent, and the first again: nothing has been answered,
and the key is another one. So it is when the second body comes first and its success arrives
after the first body was sent. -/
theorem retried_keys_replaced :
    (Reachable draw twoBodies sentBoth ∧ .sent firstRequest ∈ sentBoth.log ∧
      (∀ e ∈ sentBoth.log, ∃ r, e = .sent r) ∧
      (requested draw sentBoth createSortingBatch [] oneBody).key ≠ firstRequest.key) ∧
    Reachable draw twoBodies answeredOther ∧ .sent laterRequest ∈ answeredOther.log ∧
      (∀ r response, .answered r response ∈ answeredOther.log → r.body ≠ oneBody) ∧
      (requested draw answeredOther createSortingBatch [] oneBody).key ≠ laterRequest.key := by
  refine ⟨⟨sentBoth_reachable, by decide +kernel, ?_, by decide +kernel⟩,
    answeredOther_reachable, by decide +kernel, ?_, by decide +kernel⟩
  · intro e he
    rcases List.mem_cons.mp he with rfl | he
    · exact ⟨_, rfl⟩
    · exact ⟨_, List.mem_singleton.mp he⟩
  · intro r response hmem
    rcases List.mem_cons.mp hmem with heq | hmem
    · cases heq
      decide
    · rcases List.mem_cons.mp hmem with heq | hmem
      · cases heq
      · cases List.mem_singleton.mp hmem

end RetriedKeys
