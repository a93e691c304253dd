import Mathlib.Algebra.Order.Group.Int
import Mathlib.Algebra.Order.Ring.Int
import WiseWay.Scripts
import WiseWay.SessionFinality
import WiseWay.SlidingWindows

/-! # Throttled logins

Every attempt that reaches the verification of its password is counted for its address and
for its address with its login, also when it fails. -/
namespace LoginThrottle

open Records Sessions SessionFinality
open Fallible (bind_eq_ok)
open SlidingWindows (Covers Within within_append recent_recent recent_append)

variable {v : Service} {w t : World} {e : Event}

structure Attempt where
  now : Time
  login : Text
  address : Text
  deriving DecidableEq, Repr

/-- A transaction of `login` or of `Maintenance.run_once`. -/
inductive Entry where
  | verified (attempt : Attempt)
  | refused (now : Time)
  | cleaned (now : Time)
  deriving DecidableEq, Repr

/-- The reading of the clock a transaction works with. -/
def Entry.now : Entry → Time
  | .verified attempt => attempt.now
  | .refused now => now
  | .cleaned now => now

/-- The transaction that a step commits or rolls back. -/
def entries (v : Service) (w : World) : Event → List Entry
  | .commitLogin id token csrf =>
    match w.flight[id]? with
    | some (.loggingIn now body requestId address) =>
      match login v now token csrf body requestId address w.site with
      | .ok _ => [.verified ⟨now, body.login, address⟩]
      | .error _ => [.refused now]
    | _ => []
  | .commitClean id =>
    match w.flight[id]? with
    | some (.cleaning now) => [.cleaned now]
    | _ => []
  | _ => []

/-- The transactions of a run of any steps, from any state. -/
inductive History (v : Service) : List Entry → World → Prop where
  | start (w : World) : History v [] w
  | step {log : List Entry} {w t : World} {e : Event} : History v log w → step v w e = some t →
      History v (log ++ entries v w e) t

/-- The clock of the transactions does not go back. -/
def Chronological (log : List Entry) : Prop := (log.map Entry.now).Pairwise (· ≤ ·)

def attempts (log : List Entry) : List Attempt :=
  log.filterMap fun entry =>
    match entry with
    | .verified attempt => some attempt
    | _ => none

def stored (w : World) (bucket : Text) : List Time := (w.site.loginRate[bucket]?).getD []

/-- The attempts that `login` counts in a bucket. -/
def counted (v : Service) (bucket : Text) (log : List Entry) : List Time :=
  ((attempts log).filter fun attempt => bucket = ipBucket attempt.address ∨
    bucket = loginBucket v attempt.address attempt.login).map Attempt.now

/-! What a step does to the buckets. -/

theorem bucket_ne (v : Service) (address login other : Text) :
    loginBucket v address login ≠ ipBucket other := by
  intro h
  have hlogin : (loginBucket v address login).head? = some 'l' := rfl
  have hip : (ipBucket other).head? = some 'i' := rfl
  rw [h, hip] at hlogin
  exact absurd hlogin (by decide)

theorem createUser_rates {x : Draw} {userId actorLogin login displayName password : Text}
    {role : Role} {s t : Site}
    (h : createUser v x userId actorLogin login displayName role password s = .ok t) :
    t.loginRate = s.loginRate := by
  obtain ⟨⟨⟩, _, h⟩ := bind_eq_ok.mp h
  obtain ⟨actor, _, h⟩ := bind_eq_ok.mp h
  split at h
  · cases h
  · cases h
    rfl

theorem resetPassword_rates {x : Draw} {actorLogin login password : Text} {s t : Site}
    (h : resetPassword x actorLogin login password s = .ok t) : t.loginRate = s.loginRate := by
  obtain ⟨⟨⟩, _, h⟩ := bind_eq_ok.mp h
  obtain ⟨actor, _, h⟩ := bind_eq_ok.mp h
  obtain ⟨user, _, h⟩ := bind_eq_ok.mp h
  cases h
  rfl

theorem blockUser_rates {x : Draw} {actorLogin login : Text} {s t : Site}
    (h : blockUser x actorLogin login s = .ok t) : t.loginRate = s.loginRate := by
  obtain ⟨⟨⟩, _, h⟩ := bind_eq_ok.mp h
  obtain ⟨actor, _, h⟩ := bind_eq_ok.mp h
  obtain ⟨user, _, h⟩ := bind_eq_ok.mp h
  split at h
  · cases h
  · cases h
    rfl

theorem unblockUser_rates {x : Draw} {actorLogin login : Text} {s t : Site}
    (h : unblockUser x actorLogin login s = .ok t) : t.loginRate = s.loginRate := by
  obtain ⟨⟨⟩, _, h⟩ := bind_eq_ok.mp h
  obtain ⟨actor, _, h⟩ := bind_eq_ok.mp h
  obtain ⟨user, _, h⟩ := bind_eq_ok.mp h
  cases h
  rfl

theorem touch_rates (now : Time) (token : Text) (s : Site) :
    (touch now token s).loginRate = s.loginRate := by
  unfold touch
  split
  · rfl
  · rfl

theorem revoked_rates {login : Text} {r : Option World} (h : revoked login w r = some t) :
    ∃ u, r = some u ∧ t.site = u.site := by
  obtain ⟨u, hu, rfl⟩ := Option.map_eq_some_iff.mp h
  exact ⟨u, hu, rfl⟩

/-- A login is refused before it writes, or it had room in both buckets and is counted in
both. -/
theorem login_rates {now : Time} {token csrf requestId address : Text} {body : LoginBody}
    {s t : Site} {r : Except AccountError (SessionView × Text)}
    (h : login v now token csrf body requestId address s = .ok (r, t)) :
    (recent now ((s.loginRate[ipBucket address]?).getD [])).length < attemptsPerIp ∧
      (recent now ((s.loginRate[loginBucket v address body.login]?).getD [])).length <
        attemptsPerIpAndLogin ∧
      t.loginRate = (s.loginRate.insert (ipBucket address)
        (recent now ((s.loginRate[ipBucket address]?).getD []) ++ [now])).insert
        (loginBucket v address body.login)
        (recent now ((s.loginRate[loginBucket v address body.login]?).getD []) ++ [now]) := by
  unfold login at h
  dsimp only at h
  split at h
  · cases h
  rename_i hroom
  rw [not_or, Nat.not_le, Nat.not_le] at hroom
  split at h
  · split at h
    · cases h
      exact ⟨hroom.1, hroom.2, rfl⟩
    · cases h
      exact ⟨hroom.1, hroom.2, rfl⟩
  · cases h
    exact ⟨hroom.1, hroom.2, rfl⟩

/-- Everything a step does to the buckets. -/
inductive Ledger (v : Service) (w : World) (t : World) : List Entry → Prop where
  | kept {entries} : attempts entries = [] → t.site.loginRate = w.site.loginRate →
      Ledger v w t entries
  | counted {attempt : Attempt} :
      (∀ bucket, bucket = ipBucket attempt.address →
        (recent attempt.now (stored w bucket)).length < attemptsPerIp) →
      (∀ bucket, bucket = loginBucket v attempt.address attempt.login →
        (recent attempt.now (stored w bucket)).length < attemptsPerIpAndLogin) →
      (∀ bucket, stored t bucket =
        if bucket = ipBucket attempt.address ∨ bucket = loginBucket v attempt.address attempt.login
        then recent attempt.now (stored w bucket) ++ [attempt.now] else stored w bucket) →
      Ledger v w t [.verified attempt]
  | cleaned {now : Time} :
      (∀ bucket, stored t bucket = recent now (stored w bucket)) →
      Ledger v w t [.cleaned now]

theorem clean_rates (now : Time) (s : Site) (bucket : Text) :
    (((clean v now s).loginRate[bucket]?).getD []) =
      recent now ((s.loginRate[bucket]?).getD []) := by
  simp only [clean, Std.ExtTreeMap.getElem?_filterMap']
  cases h : s.loginRate[bucket]? with
  | none => rfl
  | some times =>
    by_cases hempty : recent now times = []
    · simp [hempty]
    · simp [hempty]

theorem commitLogin_ledger {id token csrf : Text}
    (h : step v w (.commitLogin id token csrf) = some t) :
    Ledger v w t (entries v w (.commitLogin id token csrf)) := by
  simp only [step] at h
  split at h
  · rename_i now body requestId address hflight _ _
    simp only [entries, hflight]
    have hcounted : ∀ {r s}, login v now token csrf body requestId address w.site = .ok (r, s) →
        t.site = s → Ledger v w t [.verified ⟨now, body.login, address⟩] := by
      intro r s hlogin hsite
      obtain ⟨hip, hown, hrates⟩ := login_rates hlogin
      refine .counted ?_ ?_ ?_
      · rintro bucket rfl
        exact hip
      · rintro bucket rfl
        exact hown
      · intro bucket
        rw [← hsite] at hrates
        simp only [stored, hrates, get_put]
        have hne := bucket_ne v address body.login address
        by_cases hb : bucket = loginBucket v address body.login
        · subst hb
          simp
        · by_cases hb' : bucket = ipBucket address
          · subst hb'
            simp [hb, Ne.symm hb]
          · simp [hb, hb', Ne.symm hb, Ne.symm hb']
    split at h
    · rename_i view s hlogin
      rw [hlogin]
      cases h
      exact hcounted hlogin rfl
    · rename_i error s hlogin
      rw [hlogin]
      cases h
      exact hcounted hlogin rfl
    · rename_i error hlogin
      rw [hlogin]
      cases h
      exact .kept rfl rfl
  · cases h

theorem step_ledger (h : step v w e = some t) : Ledger v w t (entries v w e) := by
  cases e with
  | commitLogin id token csrf => exact commitLogin_ledger h
  | commitClean id =>
    simp only [step] at h
    split at h
    · rename_i now hflight _
      cases h
      simp only [entries, hflight]
      exact .cleaned (clean_rates now w.site)
    · cases h
  | tick elapsed => cases h; exact .kept rfl rfl
  | arrive id token => rw [launch_some h]; exact .kept rfl rfl
  | check id =>
    simp only [step] at h
    split at h
    · split at h
      · cases h; exact .kept rfl rfl
      · cases h; exact .kept rfl rfl
    · cases h
  | beginTouch id =>
    simp only [step] at h
    split at h
    · cases h; exact .kept rfl rfl
    · cases h
  | commitTouch id =>
    simp only [step] at h
    split at h
    · cases h; exact .kept rfl (touch_rates _ _ _)
    · cases h
  | logout id requestId =>
    simp only [step] at h
    split at h
    · cases h; exact .kept rfl rfl
    · cases h
  | startLogin id body requestId address => rw [launch_some h]; exact .kept rfl rfl
  | startClean id => rw [launch_some h]; exact .kept rfl rfl
  | createUser x userId actorLogin login displayName role password =>
    simp only [step] at h
    split at h
    · obtain ⟨s, hs, rfl⟩ := write_some h
      exact .kept rfl (createUser_rates hs)
    · cases h
  | resetPassword x actorLogin login password =>
    obtain ⟨u, hu, hsite⟩ := revoked_rates h
    obtain ⟨s, hs, rfl⟩ := write_some hu
    exact .kept rfl ((congrArg Site.loginRate hsite).trans (resetPassword_rates hs))
  | blockUser x actorLogin login =>
    obtain ⟨u, hu, hsite⟩ := revoked_rates h
    obtain ⟨s, hs, rfl⟩ := write_some hu
    exact .kept rfl ((congrArg Site.loginRate hsite).trans (blockUser_rates hs))
  | unblockUser x actorLogin login =>
    obtain ⟨s, hs, rfl⟩ := write_some h
    exact .kept rfl (unblockUser_rates hs)
  | drop id =>
    simp only [step] at h
    split at h
    · cases h; exact .kept rfl rfl
    · cases h

/-! The invariant of a run. -/

/-- Every bucket stores what is recent of the attempts counted in it, and they keep the limits. -/
structure Counted (v : Service) (log : List Entry) (w : World) : Prop where
  covers : ∀ bucket now, (∀ entry ∈ log, entry.now ≤ now) →
    Covers (seconds 60) now (counted v bucket log) (stored w bucket)
  address : ∀ address since, (counted v (ipBucket address) log).countP
    (fun time => Within (seconds 60) since time) ≤ attemptsPerIp
  login : ∀ address login since, (counted v (loginBucket v address login) log).countP
    (fun time => Within (seconds 60) since time) ≤ attemptsPerIpAndLogin

theorem attempts_append (log more : List Entry) :
    attempts (log ++ more) = attempts log ++ attempts more := List.filterMap_append ..

theorem counted_append (bucket : Text) (log more : List Entry) :
    counted v bucket (log ++ more) = counted v bucket log ++ counted v bucket more := by
  simp only [counted, attempts_append, List.filter_append, List.map_append]

theorem counted_kept {bucket : Text} {log more : List Entry} (h : attempts more = []) :
    counted v bucket (log ++ more) = counted v bucket log := by
  rw [counted_append]
  simp [counted, h]

theorem counted_verified (bucket : Text) (log : List Entry) (attempt : Attempt) :
    counted v bucket (log ++ [.verified attempt]) =
      if bucket = ipBucket attempt.address ∨ bucket = loginBucket v attempt.address attempt.login
      then counted v bucket log ++ [attempt.now] else counted v bucket log := by
  rw [counted_append]
  split
  · rename_i hin
    simp [counted, attempts, hin]
  · rename_i hout
    simp [counted, attempts, hout]

theorem counted_step {log more : List Entry} (h : Counted v log w) (hledger : Ledger v w t more)
    (hclock : Chronological (log ++ more)) : Counted v (log ++ more) t := by
  have hlast : ∀ entry ∈ log, ∀ next ∈ more, entry.now ≤ next.now := by
    intro entry hentry next hnext
    rw [Chronological, List.map_append, List.pairwise_append] at hclock
    exact hclock.2.2 _ (List.mem_map_of_mem hentry) _ (List.mem_map_of_mem hnext)
  cases hledger with
  | kept hnone hrates =>
    have hstored : ∀ bucket, stored t bucket = stored w bucket := by
      intro bucket
      rw [stored, stored, hrates]
    constructor
    · intro bucket now hnow
      rw [counted_kept hnone, hstored]
      exact h.covers bucket now fun entry hentry => hnow entry (List.mem_append_left _ hentry)
    · intro address since
      rw [counted_kept hnone]
      exact h.address address since
    · intro address login since
      rw [counted_kept hnone]
      exact h.login address login since
  | @counted attempt hip hown hstored =>
    have hcovers : ∀ bucket, Covers (seconds 60) attempt.now (counted v bucket log)
        (stored w bucket) := by
      intro bucket
      exact h.covers bucket attempt.now fun entry hentry => hlast entry hentry _ (.head _)
    have hpruned : ∀ bucket, Covers (seconds 60) attempt.now (counted v bucket log)
        (recent attempt.now (stored w bucket)) := by
      intro bucket
      exact (hcovers bucket).prune fun later hlater => recent_recent hlater _
    constructor
    · intro bucket now hnow
      have hle : attempt.now ≤ now := hnow _ (List.mem_append_right _ (.head _))
      rw [counted_verified, hstored]
      split
      · exact ((hpruned bucket).append attempt.now).mono hle
      · exact (hcovers bucket).mono hle
    · intro address since
      rw [counted_verified]
      split
      · rename_i hin
        have hsame : ipBucket address = ipBucket attempt.address :=
          hin.resolve_right fun hlogin => bucket_ne v _ _ _ hlogin.symm
        exact within_append (hcovers _) (hip _ hsame) (h.address address since)
      · exact h.address address since
    · intro address login since
      rw [counted_verified]
      split
      · rename_i hin
        have hsame : loginBucket v address login = loginBucket v attempt.address attempt.login :=
          hin.resolve_left (bucket_ne v _ _ _)
        exact within_append (hcovers _) (hown _ hsame) (h.login address login since)
      · exact h.login address login since
  | @cleaned now hstored =>
    constructor
    · intro bucket later hlater
      have hle : now ≤ later := hlater _ (List.mem_append_right _ (.head _))
      rw [counted_kept rfl, hstored]
      have hcovers := h.covers bucket now fun entry hentry => hlast entry hentry _ (.head _)
      exact (hcovers.prune fun last hlast => recent_recent hlast _).mono hle
    · intro address since
      rw [counted_kept rfl]
      exact h.address address since
    · intro address login since
      rw [counted_kept rfl]
      exact h.login address login since

theorem chronological_left {log more : List Entry} (h : Chronological (log ++ more)) :
    Chronological log := by
  rw [Chronological, List.map_append] at h
  exact (List.pairwise_append.mp h).1

theorem history_counted {log : List Entry} (h : History v log w) (hclock : Chronological log) :
    Counted v log w := by
  induction h with
  | start w =>
    constructor
    · intro bucket now _ later _
      exact Nat.zero_le _
    · intro address since
      exact Nat.zero_le _
    · intro address login since
      exact Nat.zero_le _
  | step _ hstep ih =>
    exact counted_step (ih (chronological_left hclock)) (step_ledger hstep) hclock

theorem attempts_counted {log : List Entry} {bucket : Text} {p : Attempt → Prop}
    [DecidablePred p] (hbucket : ∀ attempt, p attempt → bucket = ipBucket attempt.address ∨
      bucket = loginBucket v attempt.address attempt.login) (since : Time) :
    (attempts log).countP (fun attempt => p attempt ∧ Within (seconds 60) since attempt.now) ≤
      (counted v bucket log).countP fun time => Within (seconds 60) since time := by
  rw [counted, List.countP_map, List.countP_filter]
  apply List.countP_mono_left
  intro attempt _ hattempt
  rw [decide_eq_true_eq] at hattempt
  simp only [Function.comp_apply, Bool.and_eq_true, decide_eq_true_eq]
  exact ⟨hattempt.2, hbucket attempt hattempt.1⟩

/-- In every window of 60 seconds at most 10 attempts for an address and a login, and at most
100 for an address, verify a password. A refused attempt only ends. -/
theorem login_throttling {log : List Entry} (h : History v log w) (hclock : Chronological log) :
    (∀ address login since, (attempts log).countP (fun attempt =>
      (attempt.address = address ∧ v.casefold attempt.login = v.casefold login) ∧
        Within (seconds 60) since attempt.now) ≤ 10) ∧
    (∀ address since, (attempts log).countP (fun attempt =>
      attempt.address = address ∧ Within (seconds 60) since attempt.now) ≤ 100) ∧
    ∀ id token csrf now t, step v w (.commitLogin id token csrf) = some t →
      .refused now ∈ entries v w (.commitLogin id token csrf) → t = land id w := by
  have hcounted := history_counted h hclock
  refine ⟨?_, ?_, ?_⟩
  · intro address login since
    have hbucket : ∀ attempt : Attempt,
        attempt.address = address ∧ v.casefold attempt.login = v.casefold login →
        loginBucket v address login = ipBucket attempt.address ∨
          loginBucket v address login = loginBucket v attempt.address attempt.login := by
      rintro attempt ⟨rfl, hlogin⟩
      right
      unfold loginBucket
      rw [hlogin]
    exact le_trans (attempts_counted hbucket since) (hcounted.login address login since)
  · intro address since
    have hbucket : ∀ attempt : Attempt, attempt.address = address →
        ipBucket address = ipBucket attempt.address ∨
          ipBucket address = loginBucket v attempt.address attempt.login := by
      rintro attempt rfl
      left
      rfl
    exact le_trans (attempts_counted hbucket since) (hcounted.address address since)
  · intro id token csrf now t hstep hrefused
    simp only [step] at hstep
    split at hstep
    · rename_i now body requestId address hflight _ _
      split at hstep
      · rename_i hlogin
        simp [entries, hflight, hlogin] at hrefused
      · rename_i hlogin
        simp [entries, hflight, hlogin] at hrefused
      · exact (Option.some.inj hstep).symm
    · cases hstep

/-- A run of given events, with its transactions. -/
def record (v : Service) (es : List Event) (w : World) : Option (List Entry × World) :=
  (Scripts.playLogged (fun _ _ => True) (step v) (entries v) es w []).map Prod.swap

theorem record_history {log : List Entry} {es : List Event} (h : History v [] w)
    (hrecord : record v es w = some (log, t)) : History v log t := by
  obtain ⟨⟨last, more⟩, hplay, heq⟩ := Option.map_eq_some_iff.mp hrecord
  cases heq
  exact Scripts.playLogged_keeps (fun w log => History v log w) (fun h _ hu => h.step hu) h hplay

def guesses (n : ℕ) : List Event :=
  (List.replicate n [.startLogin ['l'] ⟨['n'], ['q']⟩ ['r'] ['i'],
    .commitLogin ['l'] ['k'] ['c']]).flatten

/-- The eleventh guess is refused. -/
theorem login_throttling_eleven : ∃ log w, record shop (guesses 11) opened = some (log, w) ∧
    log.getLast? = some (.refused 0) ∧ (attempts log).length = 10 ∧
    (attempts log).countP (fun attempt =>
      (attempt.address = ['i'] ∧ shop.casefold attempt.login = shop.casefold ['n']) ∧
        Within (seconds 60) 0 attempt.now) ≤ 10 := by
  have hrun : (record shop (guesses 11) opened).any (fun r =>
      r.1.getLast? = some (.refused 0) ∧ (attempts r.1).length = 10 ∧
        (r.1.map Entry.now).Pairwise (· ≤ ·)) = true := by decide +kernel
  obtain ⟨⟨log, w⟩, hw, hlog⟩ := (Option.any_eq_true _ _).mp hrun
  obtain ⟨hlast, hten, hclock⟩ := of_decide_eq_true hlog
  exact ⟨log, w, hw, hlast, hten,
    (login_throttling (record_history (.start opened) hw) hclock).1 ['i'] ['n'] 0⟩

end LoginThrottle
