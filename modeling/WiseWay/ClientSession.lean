import WiseWay.ClientTransport

/-! # The client's session

The session state of a tab, the store that checks the session at the start, and the answers to
requests in any order. An answer may belong to a request of an earlier session. -/
namespace ClientSession

open ClientTransport OrderedDicts
open Records (Text)

inductive SessionStatus where
  | anonymous
  | authenticated
  deriving DecidableEq

structure AuthenticatedSession where
  actor : Text
  expiresAt : Text
  deriving DecidableEq

inductive BootstrapStatus where
  | checking
  | anonymous
  | authenticated
  | unavailable
  deriving DecidableEq

structure BootstrapError where
  code : Text
  retryable : Bool
  deriving DecidableEq

structure Snapshot where
  status : BootstrapStatus
  error : Option BootstrapError
  deriving DecidableEq

def checkingSnapshot : Snapshot := ⟨.checking, none⟩

def anonymousSnapshot : Snapshot := ⟨.anonymous, none⟩

def authenticatedSnapshot : Snapshot := ⟨.authenticated, none⟩

/-- A check of the store, a logout, the check that follows a logout of unknown outcome, or any
other operation. -/
inductive Kind where
  | check (sequence : ℕ)
  | logout
  | logoutCheck
  | operation (operation : OperationMeta) (scope : Text)
  deriving DecidableEq

/-- A request and the number of logins and logouts completed before it was sent. -/
structure Request where
  kind : Kind
  epoch : ℕ
  deriving DecidableEq

def getSession : OperationMeta := ⟨"getSession".toList, false, false⟩

def logoutMeta : OperationMeta := ⟨"logout".toList, true, false⟩

def Request.operation (r : Request) : OperationMeta :=
  match r.kind with
  | .check _ => getSession
  | .logout => logoutMeta
  | .logoutCheck => getSession
  | .operation operation _ => operation

def Request.scope (r : Request) : Text :=
  match r.kind with
  | .check _ => []
  | .logout => []
  | .logoutCheck => []
  | .operation _ scope => scope

/-- What a request ends with: a response, or a failure of the network. -/
inductive Answer where
  | response (response : Response)
  | lost
  deriving DecidableEq

/-- The modules of a tab, the requests that wait for an answer, and those with an answer whose
sender has not gone on. `mounted` says that the hook listens. -/
structure Client where
  transport : Transport
  sessionStatus : SessionStatus
  authenticatedSession : Option AuthenticatedSession
  snapshot : Snapshot
  sequence : ℕ
  started : Bool
  mounted : Bool
  epoch : ℕ
  waiting : List Request
  answered : List (Request × Answer)

def fresh : Client where
  transport := clearSession
  sessionStatus := .anonymous
  authenticatedSession := none
  snapshot := checkingSnapshot
  sequence := 0
  started := false
  mounted := false
  epoch := 0
  waiting := []
  answered := []

/-! The store. -/

/-- The snapshot goes first, so the listener of the session state finds it anonymous. -/
def completeLogout (s : Client) : Client :=
  { s with
    sequence := s.sequence + 1
    started := true
    epoch := s.epoch + 1
    snapshot := anonymousSnapshot
    sessionStatus := .anonymous
    authenticatedSession := none }

/-- The listener that the hook installs on the session state. -/
def notify (s : Client) : Client :=
  if s.mounted = true ∧ s.sessionStatus = .anonymous ∧ s.snapshot.status = .authenticated then
    completeLogout s
  else s

def commit (s : Client) (status : SessionStatus) (session : Option AuthenticatedSession) :
    Client :=
  if status = s.sessionStatus ∧ session = s.authenticatedSession then s
  else notify { s with sessionStatus := status, authenticatedSession := session }

def markAnonymous (s : Client) : Client := commit s .anonymous none

def applySession (s : Client) (session : Session) : Client :=
  let s := { s with transport := { s.transport with csrfToken := some session.csrfToken } }
  let s := commit s .authenticated (some ⟨session.actor, session.expiresAt⟩)
  { s with snapshot := authenticatedSnapshot }

def completeLogin (s : Client) (session : Session) : Client :=
  applySession { s with sequence := s.sequence + 1, started := true, epoch := s.epoch + 1 } session

def beginCheck (s : Client) : Client :=
  { s with
    sequence := s.sequence + 1
    snapshot := checkingSnapshot
    waiting := s.waiting ++ [⟨.check (s.sequence + 1), s.epoch⟩] }

def start (s : Client) : Client := if s.started then s else beginCheck { s with started := true }

def stop (s : Client) : Client :=
  if s.started then { s with started := false, sequence := s.sequence + 1 } else s

def retry (s : Client) : Client := beginCheck { s with started := true }

def unavailable (s : Client) (error : TransportError) : Client :=
  { s with snapshot := ⟨.unavailable, some ⟨error.code, error.retryable⟩⟩ }

/-- A confirmed 401 of any kind, a synthesized code included. -/
def IsUnauthenticated (error : TransportError) : Prop :=
  error.status = some 401 ∧ error.code = "UNAUTHENTICATED".toList

instance (error : TransportError) : Decidable (IsUnauthenticated error) :=
  inferInstanceAs (Decidable (_ ∧ _))

/-- A check goes on after its answer. A success without a session throws. -/
def resume (s : Client) (sequence : ℕ) (answer : Answer) : Client :=
  if s.sequence = sequence then
    match answer with
    | .lost => unavailable s networkError
    | .response response =>
      if response.ok then
        match response.session with
        | some session => applySession s session
        | none => unavailable s networkError
      else
        let error := toTransportError response
        if IsUnauthenticated error then
          { markAnonymous s with snapshot := anonymousSnapshot }
        else unavailable s error
  else s

/-! The tab. -/

/-- `clearSession` and the reset of the private state after a logout. -/
def endAuthenticatedSession (s : Client) : Client :=
  markAnonymous { s with transport := clearSession }

/-- The transport's reaction; a confirmed 401 resets the private state when the hook listens. -/
def receive (s : Client) (r : Request) (response : Response) : Client :=
  let reset := if Unauthenticated response ∧ s.mounted = true then markAnonymous s else s
  { reset with transport := onResponse s.transport r.operation r.scope response }

/-- The answers after which a logout is over. -/
def LoggedOut (kind : Kind) : Answer → Prop
  | .lost => False
  | .response response =>
    match kind with
    | .logout => response.ok = true ∨ IsUnauthenticated (toTransportError response)
    | .logoutCheck => response.ok = false ∧ IsUnauthenticated (toTransportError response)
    | .check _ => False
    | .operation _ _ => False

instance (kind : Kind) (answer : Answer) : Decidable (LoggedOut kind answer) := by
  cases answer <;> cases kind <;> simp only [LoggedOut] <;> infer_instance

/-- The sender of a request goes on; a logout of unknown outcome asks for the session. -/
def goOn (s : Client) (r : Request) (answer : Answer) : Client :=
  match r.kind with
  | .check sequence => resume s sequence answer
  | .logout =>
    if LoggedOut .logout answer then endAuthenticatedSession s
    else { s with waiting := s.waiting ++ [⟨.logoutCheck, s.epoch⟩] }
  | .logoutCheck => if LoggedOut .logoutCheck answer then endAuthenticatedSession s else s
  | .operation _ _ => s

inductive Act where
  | mount
  | unmount
  | retry
  | completeLogin (session : Session)
  | completeLogout
  | logout
  | send (operation : OperationMeta) (scope body uuid : Text)

def act (s : Client) : Act → Client
  | .mount => { start s with mounted := true }
  | .unmount => stop { s with mounted := false }
  | .retry => retry s
  | .completeLogin session => completeLogin s session
  | .completeLogout => completeLogout s
  | .logout => { s with waiting := s.waiting ++ [⟨.logout, s.epoch⟩] }
  | .send operation scope body uuid =>
    { s with
      transport := (onRequest s.transport operation scope body uuid).1
      waiting := s.waiting ++ [⟨.operation operation scope, s.epoch⟩] }

/-- How an answer acts: the transport sees it, and then the sender goes on with it. -/
inductive Arrival where
  | received (r : Request) (response : Response)
  | lost (r : Request)
  | resumed (r : Request) (answer : Answer)
  deriving DecidableEq

def Arrival.request : Arrival → Request
  | .received r _ => r
  | .lost r => r
  | .resumed r _ => r

inductive Step : Client → Option Arrival → Client → Prop
  | act {s} (a : Act) : Step s none (act s a)
  | receive {s r before after} (response : Response) : s.waiting = before ++ r :: after →
      Step s (some (.received r response))
        { receive s r response with
          waiting := before ++ after
          answered := s.answered ++ [(r, .response response)] }
  | lose {s r before after} : s.waiting = before ++ r :: after →
      Step s (some (.lost r))
        { s with
          transport := onError s.transport
          waiting := before ++ after
          answered := s.answered ++ [(r, .lost)] }
  | resume {s r answer before after} : s.answered = before ++ (r, answer) :: after →
      Step s (some (.resumed r answer)) { goOn s r answer with answered := before ++ after }

structure Transition where
  before : Client
  arrival : Option Arrival
  after : Client

/-- The runs of a tab, the latest transition first. -/
inductive Run : List Transition → Client → Prop
  | start : Run [] fresh
  | step {transitions s arrival t} : Run transitions s → Step s arrival t →
      Run (⟨s, arrival, t⟩ :: transitions) t

/-! Stale answers. -/

/-- A login or a logout has been completed since the request was sent. -/
def Stale (s : Client) (arrival : Arrival) : Prop := arrival.request.epoch < s.epoch

instance (s : Client) (arrival : Arrival) : Decidable (Stale s arrival) :=
  inferInstanceAs (Decidable (_ < _))

/-- The session status and its session, the token, the pending keys and the snapshot. -/
structure Held where
  sessionStatus : SessionStatus
  authenticatedSession : Option AuthenticatedSession
  transport : Transport
  snapshot : Snapshot

def held (s : Client) : Held :=
  ⟨s.sessionStatus, s.authenticatedSession, s.transport, s.snapshot⟩

/-- The transport holds nothing of a session. -/
def Cleared (t : Transport) : Prop := t.csrfToken = none ∧ t.records.entries = []

def Anonymous (s : Client) : Prop := s.sessionStatus = .anonymous ∧ s.authenticatedSession = none

/-- A confirmed 401 and a finished logout find no session to end, and a completed operation finds
no pending key in its cell. -/
def Harmless (s : Client) : Arrival → Prop
  | .received r response =>
    (Unauthenticated response → Cleared s.transport ∧ (s.mounted = true → Anonymous s)) ∧
      (r.operation.idempotencyKey = true → Completes response →
        s.transport.records.get (scopedKey r.operation.operationId r.scope) = none)
  | .lost _ => True
  | .resumed r answer => LoggedOut r.kind answer → Cleared s.transport ∧ Anonymous s

/-! What a step does to the counters. -/

/-- Counters only grow, a login or a logout also makes the running check stale, and the requests
stay as they are. -/
structure Advances (s t : Client) : Prop where
  sequence : s.sequence ≤ t.sequence
  epoch : s.epoch ≤ t.epoch
  both : s.epoch < t.epoch → s.sequence < t.sequence
  waiting : t.waiting = s.waiting
  answered : t.answered = s.answered

variable {s t u : Client} {r : Request}

theorem Advances.refl (s : Client) : Advances s s :=
  ⟨le_refl _, le_refl _, fun h => absurd h (lt_irrefl _), rfl, rfl⟩

theorem Advances.trans (h : Advances s t) (h' : Advances t u) : Advances s u := by
  refine ⟨le_trans h.sequence h'.sequence, le_trans h.epoch h'.epoch, fun hlt => ?_,
    h'.waiting.trans h.waiting, h'.answered.trans h.answered⟩
  by_cases hst : s.epoch < t.epoch
  · exact lt_of_lt_of_le (h.both hst) h'.sequence
  · exact lt_of_le_of_lt h.sequence (h'.both (by omega))

theorem Advances.of_eq (hsequence : t.sequence = s.sequence) (hepoch : t.epoch = s.epoch)
    (hwaiting : t.waiting = s.waiting) (hanswered : t.answered = s.answered) : Advances s t :=
  ⟨le_of_eq hsequence.symm, le_of_eq hepoch.symm, fun h => absurd h (by omega), hwaiting,
    hanswered⟩

theorem completeLogout_advances (s : Client) : Advances s (completeLogout s) :=
  ⟨Nat.le_succ _, Nat.le_succ _, fun _ => Nat.lt_succ_self _, rfl, rfl⟩

theorem notify_advances (s : Client) : Advances s (notify s) := by
  rw [notify]
  split
  · exact completeLogout_advances s
  · exact Advances.refl s

theorem commit_advances (s : Client) (status : SessionStatus)
    (session : Option AuthenticatedSession) : Advances s (commit s status session) := by
  rw [commit]
  split
  · exact Advances.refl s
  · refine Advances.trans ?_ (notify_advances _)
    exact Advances.of_eq rfl rfl rfl rfl

theorem applySession_advances (s : Client) (session : Session) :
    Advances s (applySession s session) := by
  have hcommit := commit_advances
    { s with transport := { s.transport with csrfToken := some session.csrfToken } }
    .authenticated (some ⟨session.actor, session.expiresAt⟩)
  exact ⟨hcommit.sequence, hcommit.epoch, hcommit.both, hcommit.waiting, hcommit.answered⟩

theorem completeLogin_advances (s : Client) (session : Session) :
    Advances s (completeLogin s session) := by
  refine Advances.trans ?_ (applySession_advances _ session)
  exact ⟨Nat.le_succ _, Nat.le_succ _, fun _ => Nat.lt_succ_self _, rfl, rfl⟩

theorem stop_advances (s : Client) : Advances s (stop s) := by
  rw [stop]
  split
  · exact ⟨Nat.le_succ _, le_refl _, fun h => absurd h (lt_irrefl _), rfl, rfl⟩
  · exact Advances.refl s

theorem resume_advances (s : Client) (sequence : ℕ) (answer : Answer) :
    Advances s (resume s sequence answer) := by
  by_cases hcurrent : s.sequence = sequence
  · cases answer with
    | lost =>
      rw [resume.eq_def, if_pos hcurrent]
      exact Advances.of_eq rfl rfl rfl rfl
    | response response =>
      rw [resume.eq_def, if_pos hcurrent]
      dsimp only
      split
      · cases response.session with
        | some session => exact applySession_advances s session
        | none => exact Advances.of_eq rfl rfl rfl rfl
      · split
        · exact (commit_advances s .anonymous none).trans (Advances.of_eq rfl rfl rfl rfl)
        · exact Advances.of_eq rfl rfl rfl rfl
  · rw [resume.eq_def, if_neg hcurrent]
    exact Advances.refl s

theorem receive_advances (s : Client) (r : Request) (response : Response) :
    Advances s (receive s r response) := by
  rw [receive]
  split
  · exact (commit_advances s .anonymous none).trans (Advances.of_eq rfl rfl rfl rfl)
  · exact Advances.of_eq rfl rfl rfl rfl

/-! Checks and their numbers. -/

/-- A check that was sent before the last login or logout is not the running one. -/
structure Numbered (s : Client) (r : Request) : Prop where
  epoch : r.epoch ≤ s.epoch
  sequence : ∀ q, r.kind = .check q → q ≤ s.sequence
  stale : ∀ q, r.kind = .check q → r.epoch < s.epoch → q < s.sequence

theorem Numbered.advance (h : Numbered s r) (ha : Advances s t) : Numbered t r := by
  refine ⟨le_trans h.epoch ha.epoch, fun q hq => le_trans (h.sequence q hq) ha.sequence, ?_⟩
  intro q hq hlt
  by_cases hold : r.epoch < s.epoch
  · exact lt_of_lt_of_le (h.stale q hq hold) ha.sequence
  · have hnow := h.epoch
    exact lt_of_le_of_lt (h.sequence q hq) (ha.both (by omega))

/-- All requests of a tab are numbered. -/
structure Sound (s : Client) : Prop where
  waiting : ∀ r ∈ s.waiting, Numbered s r
  answered : ∀ x ∈ s.answered, Numbered s x.1

theorem Sound.advance (h : Sound s) (ha : Advances s t) : Sound t := by
  constructor
  · intro r hr
    rw [ha.waiting] at hr
    exact (h.waiting r hr).advance ha
  · intro x hx
    rw [ha.answered] at hx
    exact (h.answered x hx).advance ha

theorem sound_fresh : Sound fresh := by
  constructor
  · intro r hr
    cases hr
  · intro x hx
    cases hx

theorem Sound.join (h : Sound s) {added : Request} (hadded : Numbered s added) :
    Sound { s with waiting := s.waiting ++ [added] } := by
  constructor
  · intro r hr
    rcases List.mem_append.mp hr with hr | hr
    · obtain ⟨hepoch, hsequence, hstale⟩ := h.waiting r hr
      exact ⟨hepoch, hsequence, hstale⟩
    · rw [List.mem_singleton.mp hr]
      exact ⟨hadded.epoch, hadded.sequence, hadded.stale⟩
  · intro x hx
    obtain ⟨hepoch, hsequence, hstale⟩ := h.answered x hx
    exact ⟨hepoch, hsequence, hstale⟩

theorem Sound.beginCheck (h : Sound s) : Sound (beginCheck s) := by
  have hnext : Advances s { s with sequence := s.sequence + 1, snapshot := checkingSnapshot } :=
    ⟨Nat.le_succ _, le_refl _, fun hlt => absurd hlt (lt_irrefl _), rfl, rfl⟩
  refine (h.advance hnext).join ⟨le_refl _, fun q hq => ?_, fun q _ hlt => ?_⟩
  · cases hq
    exact le_refl _
  · exact absurd hlt (lt_irrefl _)

theorem Sound.of_eq (h : Sound s) (hsequence : t.sequence = s.sequence)
    (hepoch : t.epoch = s.epoch) (hwaiting : t.waiting = s.waiting)
    (hanswered : t.answered = s.answered) : Sound t :=
  h.advance (.of_eq hsequence hepoch hwaiting hanswered)

theorem Sound.act (h : Sound s) (a : Act) : Sound (act s a) := by
  cases a with
  | mount =>
    have hstarted : Sound (start s) := by
      rw [start]
      split
      · exact h
      · have hbegun : Sound { s with started := true } := h.of_eq rfl rfl rfl rfl
        exact hbegun.beginCheck
    exact hstarted.of_eq rfl rfl rfl rfl
  | unmount =>
    have hunmounted : Sound { s with mounted := false } := h.of_eq rfl rfl rfl rfl
    exact hunmounted.advance (stop_advances _)
  | retry =>
    have hbegun : Sound { s with started := true } := h.of_eq rfl rfl rfl rfl
    exact hbegun.beginCheck
  | completeLogin session => exact h.advance (completeLogin_advances s session)
  | completeLogout => exact h.advance (completeLogout_advances s)
  | logout =>
    refine h.join ⟨le_refl _, fun q hq => ?_, fun q hq => ?_⟩
    · cases hq
    · cases hq
  | send operation scope body uuid =>
    have hsent :
        Sound { s with transport := (onRequest s.transport operation scope body uuid).1 } :=
      h.of_eq rfl rfl rfl rfl
    refine hsent.join ⟨le_refl _, fun q hq => ?_, fun q hq => ?_⟩
    · cases hq
    · cases hq

theorem endAuthenticatedSession_advances (s : Client) :
    Advances s (endAuthenticatedSession s) := by
  refine Advances.trans ?_ (commit_advances _ .anonymous none)
  exact Advances.of_eq rfl rfl rfl rfl

theorem goOn_logout (s : Client) (epoch : ℕ) (answer : Answer) :
    goOn s ⟨.logout, epoch⟩ answer =
      if LoggedOut .logout answer then endAuthenticatedSession s
      else { s with waiting := s.waiting ++ [⟨.logoutCheck, s.epoch⟩] } := rfl

theorem goOn_logoutCheck (s : Client) (epoch : ℕ) (answer : Answer) :
    goOn s ⟨.logoutCheck, epoch⟩ answer =
      if LoggedOut .logoutCheck answer then endAuthenticatedSession s else s := rfl

theorem Sound.goOn (h : Sound s) (r : Request) (answer : Answer) : Sound (goOn s r answer) := by
  obtain ⟨kind, epoch⟩ := r
  cases kind with
  | check sequence => exact h.advance (resume_advances s sequence answer)
  | logout =>
    rw [goOn_logout]
    split
    · exact h.advance (endAuthenticatedSession_advances s)
    · refine h.join ⟨le_refl _, fun q hq => ?_, fun q hq => ?_⟩
      · cases hq
      · cases hq
  | logoutCheck =>
    rw [goOn_logoutCheck]
    split
    · exact h.advance (endAuthenticatedSession_advances s)
    · exact h
  | operation operation scope => exact h

theorem goOn_answered (s : Client) (r : Request) (answer : Answer) :
    (goOn s r answer).answered = s.answered := by
  obtain ⟨kind, epoch⟩ := r
  cases kind with
  | check sequence => exact (resume_advances s sequence answer).answered
  | logout =>
    rw [goOn_logout]
    split
    · exact (endAuthenticatedSession_advances s).answered
    · rfl
  | logoutCheck =>
    rw [goOn_logoutCheck]
    split
    · exact (endAuthenticatedSession_advances s).answered
    · rfl
  | operation operation scope => rfl

theorem mem_of_remaining {α : Type} {before after : List α} {x y : α} (h : x ∈ before ++ after) :
    x ∈ before ++ y :: after := by
  rcases List.mem_append.mp h with h | h
  · exact List.mem_append_left _ h
  · exact List.mem_append_right _ (List.mem_cons_of_mem _ h)

theorem Sound.answer (h : Sound s) {waiting : List Request} {answered : List (Request × Answer)}
    (hwaiting : ∀ r ∈ waiting, r ∈ s.waiting)
    (hanswered : ∀ x ∈ answered, x ∈ s.answered ∨ x.1 ∈ s.waiting) :
    Sound { s with waiting := waiting, answered := answered } := by
  have hkeep : ∀ r, Numbered s r →
      Numbered { s with waiting := waiting, answered := answered } r :=
    fun _ hr => ⟨hr.epoch, hr.sequence, hr.stale⟩
  constructor
  · intro r hr
    exact hkeep r (h.waiting r (hwaiting r hr))
  · intro x hx
    rcases hanswered x hx with hx | hx
    · exact hkeep x.1 (h.answered x hx)
    · exact hkeep x.1 (h.waiting x.1 hx)

theorem Sound.step (h : Sound s) {arrival : Option Arrival} (hstep : Step s arrival t) :
    Sound t := by
  cases hstep with
  | act a => exact h.act a
  | @receive r before after response hwaiting =>
    have hadvances := receive_advances s r response
    have hlist := hadvances.waiting.trans hwaiting
    refine (h.advance hadvances).answer (fun x hx => ?_) (fun x hx => ?_)
    · rw [hlist]
      exact mem_of_remaining hx
    · rw [hadvances.answered, hlist]
      rcases List.mem_append.mp hx with hx | hx
      · exact Or.inl hx
      · right
        rw [List.mem_singleton.mp hx]
        exact List.mem_append_right _ (List.mem_cons_self ..)
  | @lose r before after hwaiting =>
    have hsame : Sound { s with transport := onError s.transport } := h.of_eq rfl rfl rfl rfl
    refine hsame.answer (fun x hx => ?_) (fun x hx => ?_)
    · change x ∈ s.waiting
      rw [hwaiting]
      exact mem_of_remaining hx
    · change x ∈ s.answered ∨ x.1 ∈ s.waiting
      rcases List.mem_append.mp hx with hx | hx
      · exact Or.inl hx
      · right
        rw [List.mem_singleton.mp hx, hwaiting]
        exact List.mem_append_right _ (List.mem_cons_self ..)
  | @resume r answer before after hanswered =>
    refine (h.goOn r answer).answer (fun x hx => hx) (fun x hx => ?_)
    left
    rw [goOn_answered, hanswered]
    exact mem_of_remaining hx

theorem sound_of_run {transitions : List Transition} (h : Run transitions s) : Sound s := by
  induction h with
  | start => exact sound_fresh
  | step _ hstep ih => exact ih.step hstep

/-! What a stale answer changes. -/

theorem clearSession_eq {transport : Transport} :
    clearSession = transport ↔ Cleared transport := by
  constructor
  · rintro rfl
    exact ⟨rfl, rfl⟩
  · rintro ⟨htoken, hentries⟩
    obtain ⟨csrfToken, entries, distinct⟩ := transport
    cases htoken
    cases hentries
    rfl

/-- The transport stays as it is when there is nothing to clear and nothing to complete. -/
theorem onResponse_eq_self (transport : Transport) (operation : OperationMeta) (scope : Text)
    (response : Response) :
    onResponse transport operation scope response = transport ↔
      (Unauthenticated response → Cleared transport) ∧
      (operation.idempotencyKey = true → Completes response →
        transport.records.get (scopedKey operation.operationId scope) = none) := by
  by_cases hsession : Unauthenticated response
  · have hcleared : onResponse transport operation scope response = clearSession := by
      rw [onResponse, if_pos hsession]
      split <;> rfl
    rw [hcleared, clearSession_eq]
    constructor
    · rintro ⟨htoken, hentries⟩
      refine ⟨fun _ => ⟨htoken, hentries⟩, fun _ _ => ?_⟩
      rw [get_eq_none, OrderedDict.keys, hentries]
      exact List.not_mem_nil
    · intro h
      exact h.1 hsession
  · by_cases hdone : operation.idempotencyKey = true ∧ Completes response
    · rw [onResponse, if_neg hsession, if_pos hdone]
      have hpop := pop_eq_self (d := transport.records)
        (k := scopedKey operation.operationId scope)
      constructor
      · intro h
        exact ⟨fun hu => absurd hu hsession, fun _ _ => hpop.mp (congrArg Transport.records h)⟩
      · intro h
        have hsame : complete transport.records operation.operationId scope = transport.records :=
          hpop.mpr (h.2 hdone.1 hdone.2)
        rw [hsame]
    · rw [onResponse, if_neg hsession, if_neg hdone]
      constructor
      · intro _
        exact ⟨fun hu => absurd hu hsession, fun hk hc => absurd ⟨hk, hc⟩ hdone⟩
      · intro _
        rfl

theorem markAnonymous_status (s : Client) :
    (markAnonymous s).sessionStatus = .anonymous ∧
      (markAnonymous s).authenticatedSession = none := by
  by_cases h : SessionStatus.anonymous = s.sessionStatus ∧ none = s.authenticatedSession
  · rw [markAnonymous, commit, if_pos h]
    exact ⟨h.1.symm, h.2.symm⟩
  · rw [markAnonymous, commit, if_neg h, notify]
    split <;> exact ⟨rfl, rfl⟩

theorem markAnonymous_eq_self (hstatus : s.sessionStatus = .anonymous)
    (hsession : s.authenticatedSession = none) : markAnonymous s = s := by
  rw [markAnonymous, commit, if_pos ⟨hstatus.symm, hsession.symm⟩]

theorem markAnonymous_held {transport : Transport} :
    held { markAnonymous s with transport := transport } = held s ↔
      transport = s.transport ∧ Anonymous s := by
  obtain ⟨hstatus, hsession⟩ := markAnonymous_status s
  constructor
  · intro h
    refine ⟨congrArg Held.transport h, ?_, ?_⟩
    · exact (congrArg Held.sessionStatus h).symm.trans hstatus
    · exact (congrArg Held.authenticatedSession h).symm.trans hsession
  · rintro ⟨rfl, hanonymous, hnone⟩
    rw [markAnonymous_eq_self hanonymous hnone]

theorem receive_held {response : Response} :
    held (receive s r response) = held s ↔ Harmless s (.received r response) := by
  have htransport := onResponse_eq_self s.transport r.operation r.scope response
  by_cases hreset : Unauthenticated response ∧ s.mounted = true
  · rw [receive, if_pos hreset, markAnonymous_held, htransport]
    constructor
    · rintro ⟨⟨hclear, hcomplete⟩, hstatus⟩
      exact ⟨fun hu => ⟨hclear hu, fun _ => hstatus⟩, hcomplete⟩
    · rintro ⟨hended, hcomplete⟩
      exact ⟨⟨fun hu => (hended hu).1, hcomplete⟩, (hended hreset.1).2 hreset.2⟩
  · rw [receive, if_neg hreset]
    constructor
    · intro h
      obtain ⟨hclear, hcomplete⟩ := htransport.mp (congrArg Held.transport h)
      exact ⟨fun hu => ⟨hclear hu, fun hm => absurd ⟨hu, hm⟩ hreset⟩, hcomplete⟩
    · rintro ⟨hended, hcomplete⟩
      rw [htransport.mpr ⟨fun hu => (hended hu).1, hcomplete⟩]

theorem endAuthenticatedSession_eq (s : Client) :
    endAuthenticatedSession s = { markAnonymous s with transport := clearSession } := by
  rw [endAuthenticatedSession, markAnonymous, markAnonymous, commit, commit, notify, notify]
  split
  · rfl
  · split <;> rfl

theorem endAuthenticatedSession_held :
    held (endAuthenticatedSession s) = held s ↔ Cleared s.transport ∧ Anonymous s := by
  rw [endAuthenticatedSession_eq, markAnonymous_held, clearSession_eq]

theorem goOn_held (hr : Numbered s r) (hstale : r.epoch < s.epoch) {answer : Answer} :
    held (goOn s r answer) = held s ↔ Harmless s (.resumed r answer) := by
  obtain ⟨kind, epoch⟩ := r
  cases kind with
  | check sequence =>
    have hlater := hr.stale sequence rfl hstale
    have hsame : goOn s ⟨.check sequence, epoch⟩ answer = s := by
      change resume s sequence answer = s
      rw [resume.eq_def, if_neg (by omega)]
    rw [hsame]
    refine iff_of_true rfl fun hout => ?_
    cases answer <;> exact hout.elim
  | logout =>
    by_cases hout : LoggedOut .logout answer
    · rw [goOn_logout, if_pos hout, endAuthenticatedSession_held]
      exact ⟨fun h _ => h, fun h => h hout⟩
    · rw [goOn_logout, if_neg hout]
      exact iff_of_true rfl fun h => absurd h hout
  | logoutCheck =>
    by_cases hout : LoggedOut .logoutCheck answer
    · rw [goOn_logoutCheck, if_pos hout, endAuthenticatedSession_held]
      exact ⟨fun h _ => h, fun h => h hout⟩
    · rw [goOn_logoutCheck, if_neg hout]
      exact iff_of_true rfl fun h => absurd h hout
  | operation operation scope =>
    refine iff_of_true rfl fun hout => ?_
    cases answer <;> exact hout.elim

theorem stale_step (h : Sound s) {arrival : Arrival} (hstep : Step s (some arrival) t)
    (hstale : Stale s arrival) : held t = held s ↔ Harmless s arrival := by
  cases hstep with
  | receive response _ => exact receive_held
  | lose _ => exact iff_of_true rfl trivial
  | @resume r answer before after hanswered =>
    have hmem : (r, answer) ∈ s.answered := by
      rw [hanswered]
      exact List.mem_append_right _ (List.mem_cons_self ..)
    exact goOn_held (h.answered _ hmem) hstale

theorem steps_of_run {transitions : List Transition} (h : Run transitions s) :
    ∀ τ ∈ transitions, Sound τ.before ∧ Step τ.before τ.arrival τ.after := by
  induction h with
  | start =>
    intro τ hτ
    cases hτ
  | step hrun hstep ih =>
    intro τ hτ
    rcases List.mem_cons.mp hτ with rfl | hτ
    · exact ⟨sound_of_run hrun, hstep⟩
    · exact ih τ hτ

/-- In every run, the stale answers leave the session alone exactly when all of them are
harmless. -/
theorem stale_answers {transitions : List Transition} (h : Run transitions s) :
    (∀ τ ∈ transitions, ∀ arrival, τ.arrival = some arrival → Stale τ.before arrival →
      held τ.after = held τ.before) ↔
    (∀ τ ∈ transitions, ∀ arrival, τ.arrival = some arrival → Stale τ.before arrival →
      Harmless τ.before arrival) := by
  have hsteps := steps_of_run h
  constructor
  · intro hkept τ hτ arrival harrival hstale
    obtain ⟨hsound, hstep⟩ := hsteps τ hτ
    rw [harrival] at hstep
    exact (stale_step hsound hstep hstale).mp (hkept τ hτ arrival harrival hstale)
  · intro hharmless τ hτ arrival harrival hstale
    obtain ⟨hsound, hstep⟩ := hsteps τ hτ
    rw [harrival] at hstep
    exact (stale_step hsound hstep hstale).mpr (hharmless τ hτ arrival harrival hstale)

/-! Two sessions of one tab. -/

def played (acts : List Act) : Client := acts.foldl act fresh

theorem played_run (acts : List Act) :
    ∃ transitions, Run transitions (played acts) ∧ ∀ τ ∈ transitions, τ.arrival = none := by
  induction acts using List.reverseRecOn with
  | nil => exact ⟨[], .start, fun τ hτ => (by cases hτ)⟩
  | append_singleton acts a ih =>
    obtain ⟨transitions, hrun, hnone⟩ := ih
    have hplayed : played (acts ++ [a]) = act (played acts) a := by
      rw [played, List.foldl_append]
      rfl
    rw [hplayed]
    refine ⟨_, hrun.step (.act a), ?_⟩
    intro τ hτ
    rcases List.mem_cons.mp hτ with rfl | hτ
    · rfl
    · exact hnone τ hτ

def searchFiles : OperationMeta := ⟨"searchFiles".toList, false, false⟩

def earlier : Session := ⟨"token-1".toList, "user-1".toList, "2026-01-01T00:00:00Z".toList⟩

def later : Session := ⟨"token-2".toList, "user-2".toList, "2026-01-01T08:00:00Z".toList⟩

/-- A read and a batch leave in the first session; the second session has sent a batch too. -/
def renewed : Client :=
  played [.mount, .completeLogin earlier, .send searchFiles [] [] [],
    .send createSortingBatch [] "1".toList "key-1".toList, .completeLogout, .completeLogin later,
    .send createSortingBatch [] "2".toList "key-2".toList]

def lateRead : Request := ⟨.operation searchFiles [], 1⟩

def lateBatch : Request := ⟨.operation createSortingBatch [], 1⟩

def freshBatch : Request := ⟨.operation createSortingBatch [], 3⟩

theorem renewed_run :
    ∃ transitions, Run transitions renewed ∧ ∀ τ ∈ transitions, τ.arrival = none :=
  played_run _

theorem renewed_waiting :
    renewed.waiting = [⟨.check 1, 0⟩] ++ lateRead :: [lateBatch, freshBatch] := by decide +kernel

def failure (status : ℕ) (code : String) : Response :=
  ⟨status, some ⟨some code.toList, some false⟩, none⟩

/-- A late refusal that is no 401. -/
theorem stale_answers_forbidden :
    held { receive renewed lateRead (failure 403 "FORBIDDEN") with
      waiting := [⟨.check 1, 0⟩] ++ [lateBatch, freshBatch]
      answered := renewed.answered ++ [(lateRead, .response (failure 403 "FORBIDDEN"))] } =
    held renewed := by
  obtain ⟨transitions, hrun, hnone⟩ := renewed_run
  have hlate := hrun.step (.receive (failure 403 "FORBIDDEN") renewed_waiting)
  have hstale : Stale renewed (.received lateRead (failure 403 "FORBIDDEN")) := by decide +kernel
  have hkept := (stale_answers hlate).mpr ?_
  · exact hkept _ (List.mem_cons_self ..) _ rfl hstale
  · intro τ hτ arrival harrival _
    rcases List.mem_cons.mp hτ with rfl | hτ
    · cases harrival
      exact ⟨fun hu => absurd hu (by decide), fun hk => absurd hk (by decide)⟩
    · rw [hnone τ hτ] at harrival
      cases harrival

/-- The late answers to two requests of the first session: the 401 of the read ends the second
session, the success of the batch frees the key that is pending in it. -/
theorem stale_answers_end_session :
    (∃ transitions t, Run transitions renewed ∧
      Step renewed (some (.received lateRead (failure 401 "UNAUTHENTICATED"))) t ∧
      Stale renewed (.received lateRead (failure 401 "UNAUTHENTICATED")) ∧
      renewed.sessionStatus = .authenticated ∧ t.sessionStatus = .anonymous ∧
      renewed.transport.csrfToken = some later.csrfToken ∧ t.transport.csrfToken = none ∧
      renewed.snapshot = authenticatedSnapshot ∧ t.snapshot = anonymousSnapshot) ∧
    ∃ transitions t, Run transitions renewed ∧
      Step renewed (some (.received lateBatch ⟨202, none, none⟩)) t ∧
      Stale renewed (.received lateBatch ⟨202, none, none⟩) ∧
      (renewed.transport.records.get (scopedKey createSortingBatch.operationId [])).map (·.key) =
        some "key-2".toList ∧
      t.transport.records.get (scopedKey createSortingBatch.operationId []) = none := by
  obtain ⟨transitions, hrun, -⟩ := renewed_run
  constructor
  · refine ⟨transitions, _, hrun, .receive _ renewed_waiting, by decide +kernel, by decide +kernel,
      by decide +kernel, by decide +kernel, by decide +kernel, by decide +kernel,
      by decide +kernel⟩
  · have hwaiting : renewed.waiting = [⟨.check 1, 0⟩, lateRead] ++ lateBatch :: [freshBatch] := by
      rw [renewed_waiting]
      rfl
    exact ⟨transitions, _, hrun, .receive _ hwaiting, by decide +kernel, by decide +kernel,
      by decide +kernel⟩

end ClientSession
