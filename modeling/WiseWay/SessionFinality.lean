import WiseWay.Fallible
import WiseWay.Scripts
import WiseWay.Sessions

/-! # A refused session stays refused

An expired session is only kept from use by the clock. A touch does not look at the clock, so
a request that outlives its session brings it back. -/
namespace SessionFinality

open Records Sessions
open Fallible (bind_eq_ok)

variable {v : Service}

/-- An `authenticate` with this reading of the clock does not accept the token. -/
def Dead (v : Service) (token : Text) (now : Time) (s : Site) : Prop :=
  ∀ session, s.session[token]? = some session → expiry v session ≤ now

/-- Whenever an `authenticate` is about to succeed, its token had not been refused when it
read the clock, its session has not reached its absolute limit, and no logout, reset or block
has ended it. -/
def Lawful (v : Service) (w : World) : Prop :=
  ∀ (id token : Text) now late session actor, w.flight[id]? = some (.arrived token now late) →
    authenticate v now token w.site = .ok (session, actor) →
    late = false ∧ now < session.created + v.absolute ∧
      w.issued[token]? = some session.created ∧ token ∉ w.ended

/-- A touch is committed before its session has expired, or else leaves the expiry where it
was. -/
def Timely (v : Service) (w : World) : Event → Prop
  | .commitTouch id => ∀ token now session, w.flight[id]? = some (.touching token now) →
    w.site.session[token]? = some session →
    w.clock < expiry v session ∨ expiry v { session with touched := now } ≤ expiry v session
  | _ => True

theorem authenticate_ok {now : Time} {token : Text} {s : Site} {session : Session} {actor : Actor}
    (h : authenticate v now token s = .ok (session, actor)) :
    s.session[token]? = some session ∧ now < expiry v session := by
  unfold authenticate at h
  split at h
  · cases h
  · rename_i found hfound
    split at h
    · cases h
    · split at h
      · cases h
      · rename_i hlive
        cases h
        rw [not_or] at hlive
        exact ⟨hfound, Int.not_le.mp hlive.2⟩

theorem authenticate_error {now : Time} {token : Text} {s : Site} {e : AccountError}
    (howned : ∀ (k : Text) session, s.session[k]? = some session →
      ∃ u, s.user[session.userId]? = some u ∧ u.blocked = false)
    (h : authenticate v now token s = .error e) : Dead v token now s := by
  intro session hsession
  obtain ⟨u, hu, hblocked⟩ := howned token session hsession
  simp only [authenticate, hsession, hu, hblocked, Bool.false_eq_true, false_or] at h
  split at h
  · assumption
  · cases h

/-! What the transactions do. -/

theorem require_ok {α : Type} {e : AccountError} {o : Option α} {a : α}
    (h : Sessions.require e o = .ok a) : o = some a := by
  cases o with
  | none => cases h
  | some b => cases h; rfl

theorem createUser_spec {x : Draw} {userId actorLogin login displayName password : Text}
    {role : Role} {s t : Site}
    (h : createUser v x userId actorLogin login displayName role password s = .ok t) :
    t.session = s.session ∧ ∃ u : User, u.actor.userId = userId ∧ u.blocked = false ∧
      t.user = s.user.insert userId u := by
  obtain ⟨⟨⟩, _, h⟩ := bind_eq_ok.mp h
  obtain ⟨actor, _, h⟩ := bind_eq_ok.mp h
  split at h
  · cases h
  · cases h
    exact ⟨rfl, _, rfl, rfl, rfl⟩

theorem resetPassword_spec {x : Draw} {actorLogin login password : Text} {s t : Site}
    (h : resetPassword x actorLogin login password s = .ok t) :
    ∃ user : User, userByLogin s login = some user ∧
      t.session = s.session.filter (fun _ session => session.userId ≠ user.actor.userId) ∧
      t.user = s.user.insert user.actor.userId { user with passwordHash := x.passwordHash } := by
  obtain ⟨⟨⟩, _, h⟩ := bind_eq_ok.mp h
  obtain ⟨actor, _, h⟩ := bind_eq_ok.mp h
  obtain ⟨user, huser, h⟩ := bind_eq_ok.mp h
  cases h
  exact ⟨user, require_ok huser, rfl, rfl⟩

theorem blockUser_spec {x : Draw} {actorLogin login : Text} {s t : Site}
    (h : blockUser x actorLogin login s = .ok t) :
    ∃ user : User, userByLogin s login = some user ∧
      t.session = s.session.filter (fun _ session => session.userId ≠ user.actor.userId) ∧
      t.user = s.user.insert user.actor.userId { user with blocked := true } := by
  obtain ⟨⟨⟩, _, h⟩ := bind_eq_ok.mp h
  obtain ⟨actor, _, h⟩ := bind_eq_ok.mp h
  obtain ⟨user, huser, h⟩ := bind_eq_ok.mp h
  split at h
  · cases h
  · cases h
    exact ⟨user, require_ok huser, rfl, rfl⟩

theorem unblockUser_spec {x : Draw} {actorLogin login : Text} {s t : Site}
    (h : unblockUser x actorLogin login s = .ok t) :
    ∃ user : User, userByLogin s login = some user ∧ t.session = s.session ∧
      t.user = s.user.insert user.actor.userId { user with blocked := false } := by
  obtain ⟨⟨⟩, _, h⟩ := bind_eq_ok.mp h
  obtain ⟨actor, _, h⟩ := bind_eq_ok.mp h
  obtain ⟨user, huser, h⟩ := bind_eq_ok.mp h
  cases h
  exact ⟨user, require_ok huser, rfl, rfl⟩

theorem login_spec {now : Time} {token csrf requestId address : Text} {body : LoginBody}
    {s t : Site} {r : Except AccountError (SessionView × Text)}
    (h : login v now token csrf body requestId address s = .ok (r, t)) :
    t.user = s.user ∧ ((∃ user : User, userByLogin s body.login = some user ∧
      user.blocked = false ∧ (∃ view, r = .ok view) ∧
      t.session = s.session.insert token ⟨user.actor.userId, csrf, now, now⟩) ∨
      (∃ e, r = .error e) ∧ t.session = s.session) := by
  unfold login at h
  dsimp only at h
  split at h
  · cases h
  split at h
  · rename_i user huser
    split at h
    · rename_i hverified
      cases h
      exact ⟨rfl, .inl ⟨user, huser, hverified.2, ⟨_, rfl⟩, rfl⟩⟩
    · cases h
      exact ⟨rfl, .inr ⟨⟨_, rfl⟩, rfl⟩⟩
  · cases h
    exact ⟨rfl, .inr ⟨⟨_, rfl⟩, rfl⟩⟩

/-- What a transaction does to the accounts, with the tokens it issues and ends. -/
inductive Change (v : Service) (s : Site) (issued : Table Time) (ended : List Text) :
    Site → Table Time → List Text → Prop where
  | opened {token : Text} {session : Session} {user : User} {t : Site} :
      issued[token]? = none → user ∈ list s.user → user.blocked = false →
      session.userId = user.actor.userId → t.user = s.user →
      t.session = s.session.insert token session →
      Change v s issued ended t (issued.insert token session.created) ended
  | closed {t : Site} {more : List Text} : t.user = s.user →
      (∀ (token : Text) session, t.session[token]? = some session →
        s.session[token]? = some session) →
      (∀ token ∈ more, issued[token]? ≠ none ∧ t.session[token]? = none) →
      Change v s issued ended t issued (more ++ ended)
  | created {u : User} {t : Site} : s.user[u.actor.userId]? = none → u.blocked = false →
      t.user = s.user.insert u.actor.userId u → t.session = s.session →
      Change v s issued ended t issued ended
  | unblocked {u : User} {t : Site} : u.blocked = false →
      t.user = s.user.insert u.actor.userId u → t.session = s.session →
      Change v s issued ended t issued ended
  | revoked {user u : User} {t : Site} : user ∈ list s.user →
      u.actor.userId = user.actor.userId → t.user = s.user.insert u.actor.userId u →
      t.session = s.session.filter (fun _ session => session.userId ≠ user.actor.userId) →
      Change v s issued ended t issued (tokensOf s user.actor.userId ++ ended)

/-- Everything one step can do. -/
inductive Move (v : Service) (w : World) (e : Event) : World → Prop where
  | tick {elapsed : ℕ} : Move v w e { w with clock := w.clock + elapsed }
  | arrived {id token : Text} : Move v w e { w with
      flight := w.flight.insert id (.arrived token w.clock (w.refused.contains token)) }
  | flown {id : Text} {f : Flight} {writer} : (∀ token now late, f ≠ .arrived token now late) →
      Move v w e { w with flight := w.flight.insert id f, writer := writer }
  | landed {id : Text} {writer} : Move v w e { land id w with writer := writer }
  | refused {id token : Text} {now late error} : w.flight[id]? = some (.arrived token now late) →
      authenticate v now token w.site = .error error → Move v w e { land id w with
        refused := if (w.issued[token]?).isSome then token :: w.refused else w.refused }
  | touched {id token : Text} {now} : e = .commitTouch id →
      w.flight[id]? = some (.touching token now) →
      Move v w e { land id w with site := touch now token w.site, writer := none }
  | wrote {flight : Table Flight} {s issued ended} :
      (∀ (id : Text) f, flight[id]? = some f → w.flight[id]? = some f) →
      Change v w.site w.issued w.ended s issued ended →
      Move v w e { w with site := s, flight := flight, issued := issued, ended := ended }

theorem launch_some {id : Text} {f : Flight} {w t : World} (h : launch id f w = some t) :
    t = { w with flight := w.flight.insert id f } := by
  unfold launch at h
  split at h
  · exact (Option.some.inj h).symm
  · cases h

theorem write_some {w t : World} {r : Except AccountError Site} (h : write w r = some t) :
    ∃ s, r = .ok s ∧ t = { w with site := s } := by
  unfold write at h
  split at h
  · rename_i s _
    exact ⟨s, rfl, (Option.some.inj h).symm⟩
  · cases h

theorem land_flight {w : World} {id k : Text} {f : Flight} (h : (land id w).flight[k]? = some f) :
    w.flight[k]? = some f := by
  simp only [land, get_delete] at h
  split at h
  · cases h
  · exact h

theorem userByLogin_mem {s : Site} {login : Text} {user : User}
    (h : userByLogin s login = some user) : user ∈ list s.user := List.mem_of_find?_eq_some h

theorem revoked_some {login : Text} {w t : World} {r : Option World}
    (h : revoked login w r = some t) (user : User) (huser : userByLogin w.site login = some user) :
    ∃ u, r = some u ∧ t = { u with ended := tokensOf w.site user.actor.userId ++ u.ended } := by
  obtain ⟨u, hu, rfl⟩ := Option.map_eq_some_iff.mp h
  exact ⟨u, hu, by simp [huser]⟩

theorem step_move {w t : World} {e : Event} (h : step v w e = some t) : Move v w e t := by
  cases e with
  | tick elapsed => cases h; exact .tick
  | arrive id token => rw [launch_some h]; exact .arrived
  | check id =>
    simp only [step] at h
    split at h
    · rename_i token now late hflight
      split at h
      · cases h; exact .flown nofun
      · rename_i e he
        cases h; exact .refused hflight he
    · cases h
  | beginTouch id =>
    simp only [step] at h
    split at h
    · cases h; exact .flown nofun
    · cases h
  | commitTouch id =>
    simp only [step] at h
    split at h
    · rename_i token now hflight
      cases h; exact .touched rfl hflight
    · cases h
  | logout id requestId =>
    simp only [step] at h
    split at h
    · rename_i token session actor hflight _
      cases h
      have hshrink : ∀ (k : Text) found,
          (logout w.clock token actor requestId w.site).session[k]? = some found →
            w.site.session[k]? = some found := by
        intro k found hfound
        simp only [logout, get_delete] at hfound
        split at hfound
        · cases hfound
        · exact hfound
      have hgone : (logout w.clock token actor requestId w.site).session[token]? = none := by
        simp [logout]
      by_cases hissued : (w.issued[token]?).isSome = true
      · simp only [hissued, if_true]
        refine .wrote (s := logout w.clock token actor requestId w.site)
          (fun _ _ => land_flight)
          (show Change _ _ _ _ _ _ ([token] ++ w.ended) from .closed rfl hshrink ?_)
        intro k hk
        rw [List.mem_singleton.mp hk]
        exact ⟨Option.ne_none_iff_isSome.mpr hissued, hgone⟩
      · simp only [hissued, Bool.false_eq_true, if_false]
        exact .wrote (s := logout w.clock token actor requestId w.site) (fun _ _ => land_flight)
          (show Change v w.site w.issued w.ended (logout w.clock token actor requestId w.site)
            w.issued ([] ++ w.ended) from .closed rfl hshrink (by simp))
    · cases h
  | startLogin id body requestId address => rw [launch_some h]; exact .flown nofun
  | commitLogin id token csrf =>
    simp only [step] at h
    split at h
    · rename_i now body requestId address _ _ hfresh
      split at h
      · rename_i view s hlogin
        cases h
        obtain ⟨huser, ⟨user, hfound, hblocked, _, hsession⟩ | ⟨⟨e, he⟩, _⟩⟩ := login_spec hlogin
        · exact .wrote (fun _ _ => land_flight) (.opened hfresh
            (userByLogin_mem hfound) hblocked (by rfl) huser hsession)
        · cases he
      · rename_i e s hlogin
        cases h
        obtain ⟨huser, ⟨user, _, _, ⟨view, hview⟩, _⟩ | ⟨_, hsession⟩⟩ := login_spec hlogin
        · cases hview
        · exact .wrote (fun _ _ => land_flight) (show Change _ _ _ _ _ _ ([] ++ w.ended) from
            .closed huser (fun k found hk => hsession ▸ hk) (by simp))
      · cases h; exact .landed
    · cases h
  | startClean id => rw [launch_some h]; exact .flown nofun
  | commitClean id =>
    simp only [step] at h
    split at h
    · rename_i now _ _
      cases h
      refine .wrote (s := clean v now w.site) (fun _ _ => land_flight)
        (show Change v w.site w.issued w.ended (clean v now w.site) w.issued ([] ++ w.ended) from
          .closed rfl ?_ (by simp))
      intro k found hk
      simp only [clean, Std.ExtTreeMap.getElem?_filter'] at hk
      exact (Option.filter_eq_some_iff.mp hk).1
    · cases h
  | createUser x userId actorLogin login displayName role password =>
    simp only [step] at h
    split at h
    · rename_i hfree
      obtain ⟨s, hs, rfl⟩ := write_some h
      obtain ⟨hsession, u, hid, hblocked, huser⟩ := createUser_spec hs
      exact .wrote (fun _ _ h => h) (.created (hid ▸ hfree) hblocked (hid ▸ huser) hsession)
    · cases h
  | resetPassword x actorLogin login password =>
    simp only [step] at h
    obtain ⟨r, hr, _⟩ := Option.map_eq_some_iff.mp h
    obtain ⟨s, hs, _⟩ := write_some hr
    obtain ⟨user, hfound, hsession, huser⟩ := resetPassword_spec hs
    obtain ⟨u, hu, rfl⟩ := revoked_some h user hfound
    obtain ⟨s', hs', rfl⟩ := write_some hu
    obtain rfl : s = s' := Except.ok.inj (hs.symm.trans hs')
    exact .wrote (fun _ _ h => h) (.revoked (u := { user with passwordHash := x.passwordHash })
      (userByLogin_mem hfound) rfl huser hsession)
  | blockUser x actorLogin login =>
    simp only [step] at h
    obtain ⟨r, hr, _⟩ := Option.map_eq_some_iff.mp h
    obtain ⟨s, hs, _⟩ := write_some hr
    obtain ⟨user, hfound, hsession, huser⟩ := blockUser_spec hs
    obtain ⟨u, hu, rfl⟩ := revoked_some h user hfound
    obtain ⟨s', hs', rfl⟩ := write_some hu
    obtain rfl : s = s' := Except.ok.inj (hs.symm.trans hs')
    exact .wrote (fun _ _ h => h) (.revoked (u := { user with blocked := true })
      (userByLogin_mem hfound) rfl huser hsession)
  | unblockUser x actorLogin login =>
    obtain ⟨s, hs, rfl⟩ := write_some h
    obtain ⟨user, _, hsession, huser⟩ := unblockUser_spec hs
    exact .wrote (fun _ _ h => h)
      (.unblocked (u := { user with blocked := false }) rfl huser hsession)
  | drop id =>
    simp only [step] at h
    split at h
    · cases h; exact .landed
    · cases h

/-! The invariants. -/

/-- Sessions belong to users who are not blocked and to issued tokens that have not ended. -/
structure Ordered (w : World) : Prop where
  key : ∀ (k : Text) u, w.site.user[k]? = some u → u.actor.userId = k
  owned : ∀ (token : Text) session, w.site.session[token]? = some session →
    ∃ u, w.site.user[session.userId]? = some u ∧ u.blocked = false
  issued : ∀ (token : Text) session, w.site.session[token]? = some session →
    w.issued[token]? = some session.created
  known : ∀ token ∈ w.refused, w.issued[token]? ≠ none
  ended : ∀ token ∈ w.ended, w.issued[token]? ≠ none ∧ w.site.session[token]? = none
  past : ∀ (id token : Text) now late, w.flight[id]? = some (.arrived token now late) →
    now ≤ w.clock ∧ (late = true → w.issued[token]? ≠ none)

theorem Ordered.listed {w : World} (h : Ordered w) {user : User} (hu : user ∈ list w.site.user) :
    w.site.user[user.actor.userId]? = some user := by
  obtain ⟨k, hk⟩ := mem_list.mp hu
  rw [h.key k user hk]
  exact hk

theorem insert_key {users : Table User}
    (h : ∀ (k : Text) u, users[k]? = some u → u.actor.userId = k)
    (user : User) (k : Text) (u : User)
    (hu : (users.insert user.actor.userId user)[k]? = some u) : u.actor.userId = k := by
  rw [get_put] at hu
  split at hu
  · rename_i hk
    cases hu
    exact hk
  · exact h k u hu

theorem Ordered.fewer {w : World} {s : Site} {flight : Table Flight} {ended : List Text}
    (h : Ordered w) (hkey : ∀ (k : Text) u, s.user[k]? = some u → u.actor.userId = k)
    (hsession : ∀ (token : Text) session, s.session[token]? = some session →
      w.site.session[token]? = some session)
    (howned : ∀ (token : Text) session, s.session[token]? = some session →
      ∃ u, s.user[session.userId]? = some u ∧ u.blocked = false)
    (hended : ∀ token ∈ ended, w.issued[token]? ≠ none ∧ s.session[token]? = none)
    (hflight : ∀ (id : Text) f, flight[id]? = some f → w.flight[id]? = some f) :
    Ordered { w with site := s, flight := flight, ended := ended } :=
  ⟨hkey, howned, fun token session hs => h.issued token session (hsession token session hs),
    h.known, hended, fun id token now late hf => h.past id token now late (hflight id _ hf)⟩

theorem still_ended {s t : Site} {token : Text} (hsession : ∀ (k : Text) session,
    t.session[k]? = some session → s.session[k]? = some session)
    (h : s.session[token]? = none) : t.session[token]? = none := by
  cases hs : t.session[token]? with
  | none => rfl
  | some session => cases h.symm.trans (hsession token session hs)

theorem ordered_change {w : World} {s : Site} {flight : Table Flight} {issued : Table Time}
    {ended : List Text} (h : Ordered w)
    (hflight : ∀ (id : Text) f, flight[id]? = some f → w.flight[id]? = some f)
    (hc : Change v w.site w.issued w.ended s issued ended) :
    Ordered { w with site := s, flight := flight, issued := issued, ended := ended } := by
  cases hc with
  | @opened token session user _ hfresh huser hblocked hid hsame hput =>
    have hkept : ∀ (k : Text) (at_ : Time), w.issued[k]? ≠ none →
        (w.issued.insert token at_)[k]? ≠ none := by
      intro k at_ hk
      rw [get_put]
      split
      · simp
      · exact hk
    refine ⟨hsame ▸ h.key, fun k found hk => ?_, fun k found hk => ?_,
      fun k hk => hkept k _ (h.known k hk), fun k hk => ⟨hkept k _ (h.ended k hk).1, ?_⟩,
      fun id k now late hf => ⟨(h.past id k now late (hflight id _ hf)).1, fun hl =>
        hkept k _ ((h.past id k now late (hflight id _ hf)).2 hl)⟩⟩
    · simp only [hput, get_put] at hk
      rw [hsame]
      split at hk
      · cases hk
        exact ⟨user, hid ▸ h.listed huser, hblocked⟩
      · exact h.owned k found hk
    · simp only [hput, get_put] at hk ⊢
      split at hk
      · cases hk
        rw [if_pos ‹_›]
      · rw [if_neg ‹_›]
        exact h.issued k found hk
    · have hne : token ≠ k := by
        rintro rfl
        exact (h.ended _ hk).1 hfresh
      simp only [hput, get_put, if_neg hne]
      exact (h.ended k hk).2
  | closed hsame hsession hmore =>
    refine h.fewer (hsame ▸ h.key) hsession (fun k found hk => ?_) (fun k hk => ?_) hflight
    · rw [hsame]
      exact h.owned k found (hsession k found hk)
    · rcases List.mem_append.mp hk with hk | hk
      · exact hmore k hk
      · exact ⟨(h.ended k hk).1, still_ended hsession (h.ended k hk).2⟩
  | @created u _ hfree hblocked hput hsame =>
    refine h.fewer (hput ▸ insert_key h.key u) (fun k found hk => hsame ▸ hk)
      (fun k found hk => ?_) (fun k hk => hsame ▸ h.ended k hk) hflight
    obtain ⟨owner, howner, hfine⟩ := h.owned k found (hsame ▸ hk)
    rw [hput, get_put]
    split
    · exact ⟨u, rfl, hblocked⟩
    · exact ⟨owner, howner, hfine⟩
  | @unblocked u _ hblocked hput hsame =>
    refine h.fewer (hput ▸ insert_key h.key u) (fun k found hk => hsame ▸ hk)
      (fun k found hk => ?_) (fun k hk => hsame ▸ h.ended k hk) hflight
    obtain ⟨owner, howner, hfine⟩ := h.owned k found (hsame ▸ hk)
    rw [hput, get_put]
    split
    · exact ⟨u, rfl, hblocked⟩
    · exact ⟨owner, howner, hfine⟩
  | @revoked user u _ huser hid hput hfilter =>
    have hsession : ∀ (k : Text) found, s.session[k]? = some found →
        w.site.session[k]? = some found ∧ found.userId ≠ user.actor.userId := by
      intro k found hk
      rw [hfilter, Std.ExtTreeMap.getElem?_filter'] at hk
      obtain ⟨hk, hother⟩ := Option.filter_eq_some_iff.mp hk
      exact ⟨hk, by simpa using hother⟩
    refine h.fewer (hput ▸ insert_key h.key u) (fun k found hk => (hsession k found hk).1)
      (fun k found hk => ?_) (fun k hk => ?_) hflight
    · obtain ⟨hk, hother⟩ := hsession k found hk
      obtain ⟨owner, howner, hfine⟩ := h.owned k found hk
      rw [hput, get_put, if_neg (by rw [hid]; exact Ne.symm hother)]
      exact ⟨owner, howner, hfine⟩
    · rcases List.mem_append.mp hk with hk | hk
      · obtain ⟨⟨token, found⟩, hentry, rfl⟩ := List.mem_map.mp hk
        obtain ⟨hentry, howner⟩ := List.mem_filter.mp hentry
        have hrow := Std.ExtTreeMap.mem_toList_iff_getElem?_eq_some.mp hentry
        refine ⟨by simp [h.issued token found hrow], ?_⟩
        cases hs : s.session[token]? with
        | none => rfl
        | some session =>
          obtain ⟨hk, hother⟩ := hsession token session hs
          obtain rfl : found = session := Option.some.inj (hrow.symm.trans hk)
          exact absurd (of_decide_eq_true howner) hother
      · exact ⟨(h.ended k hk).1, still_ended (fun k found hk => (hsession k found hk).1)
          (h.ended k hk).2⟩

theorem touch_session {now : Time} {token k : Text} {s : Site} {session : Session}
    (h : (touch now token s).session[k]? = some session) :
    ∃ old, s.session[k]? = some old ∧ session.userId = old.userId ∧
      session.created = old.created ∧
      (session = old ∨ k = token ∧ session = { old with touched := now }) := by
  unfold touch at h
  split at h
  · rename_i old hold
    simp only [get_put] at h
    split at h
    · rename_i hk
      cases h
      exact ⟨old, hk ▸ hold, rfl, rfl, .inr ⟨hk.symm, rfl⟩⟩
    · exact ⟨session, h, rfl, rfl, .inl rfl⟩
  · exact ⟨session, h, rfl, rfl, .inl rfl⟩

theorem touch_user (now : Time) (token : Text) (s : Site) :
    (touch now token s).user = s.user := by
  unfold touch
  split <;> rfl

theorem Ordered.flown {w : World} (h : Ordered w) {flight : Table Flight} {clock : Time}
    {writer : Option Text} (hpast : ∀ (id token : Text) now late,
      flight[id]? = some (.arrived token now late) →
        now ≤ clock ∧ (late = true → w.issued[token]? ≠ none)) :
    Ordered { w with flight := flight, clock := clock, writer := writer } :=
  ⟨h.key, h.owned, h.issued, h.known, h.ended, hpast⟩

theorem ordered_move {w t : World} {e : Event} (h : Ordered w) (hm : Move v w e t) : Ordered t := by
  cases hm with
  | @tick elapsed =>
    refine h.flown fun id token now late hf => ⟨?_, (h.past id token now late hf).2⟩
    have := (h.past id token now late hf).1
    exact Int.le_trans this (Int.le_add_of_nonneg_right (Int.natCast_nonneg elapsed))
  | @arrived id token =>
    refine h.flown fun k other now late hf => ?_
    rw [get_put] at hf
    split at hf
    · cases hf
      exact ⟨Int.le_refl _, fun hl => h.known _ (List.contains_iff_mem.mp hl)⟩
    · exact h.past k other now late hf
  | @flown id f writer hf =>
    refine h.flown fun k token now late hk => ?_
    rw [get_put] at hk
    split at hk
    · exact absurd (Option.some.inj hk) (hf token now late)
    · exact h.past k token now late hk
  | landed => exact h.flown fun k token now late hk => h.past k token now late (land_flight hk)
  | @refused id token now late error hflight he =>
    refine ⟨h.key, h.owned, h.issued, fun k hk => ?_, h.ended,
      fun k other at_ l hk => h.past k other at_ l (land_flight hk)⟩
    by_cases hissued : (w.issued[token]?).isSome = true
    · simp only [hissued, if_true] at hk
      rcases List.mem_cons.mp hk with rfl | hk
      · exact Option.ne_none_iff_isSome.mpr hissued
      · exact h.known k hk
    · simp only [hissued, Bool.false_eq_true, if_false] at hk
      exact h.known k hk
  | @touched id token now he hflight =>
    refine ⟨fun k u hu => h.key k u (touch_user now token w.site ▸ hu), fun k session hk => ?_,
      fun k session hk => ?_, h.known, fun k hk => ⟨(h.ended k hk).1, ?_⟩,
      fun k other at_ l hk => h.past k other at_ l (land_flight hk)⟩
    · obtain ⟨old, hold, hid, _, _⟩ := touch_session hk
      simp only [touch_user, hid]
      exact h.owned k old hold
    · obtain ⟨old, hold, _, hcreated, _⟩ := touch_session hk
      rw [hcreated]
      exact h.issued k old hold
    · cases hs : (touch now token w.site).session[k]? with
      | none => rfl
      | some session =>
        obtain ⟨old, hold, _⟩ := touch_session hs
        cases (h.ended k hk).2.symm.trans hold
  | wrote hflight hc => exact ordered_change h hflight hc

theorem start_ordered {w : World} (h : Start w) : Ordered w := by
  refine ⟨h.key, ?_, ?_, ?_, ?_, ?_⟩ <;> simp [h.session, h.refused, h.ended, h.flight]

theorem run_ordered {P : World → Event → Prop} {w : World} (h : Run v P w) : Ordered w := by
  induction h with
  | start hs => exact start_ordered hs
  | step _ _ hstep ih => exact ordered_move ih (step_move hstep)

/-- Refused tokens are dead now, and to every `authenticate` that came after the refusal. -/
structure Buried (v : Service) (w : World) : Prop where
  refused : ∀ token ∈ w.refused, Dead v token w.clock w.site
  late : ∀ (id token : Text) now, w.flight[id]? = some (.arrived token now true) →
    Dead v token now w.site

theorem Dead.mono {token : Text} {now later : Time} {s t : Site} (h : Dead v token now s)
    (hle : now ≤ later) (hsession : ∀ session, t.session[token]? = some session →
      s.session[token]? = some session) : Dead v token later t := fun session hs =>
  Int.le_trans (h session (hsession session hs)) hle

theorem change_session {s t : Site} {issued next : Table Time} {ended more : List Text}
    (h : Change v s issued ended t next more) {token : Text} (hissued : issued[token]? ≠ none)
    (session : Session) (hs : t.session[token]? = some session) :
    s.session[token]? = some session := by
  cases h with
  | @opened fresh _ _ _ hfresh _ _ _ _ hput =>
    rw [hput, get_put, if_neg] at hs
    · exact hs
    · rintro rfl
      exact hissued hfresh
  | closed _ hsession => exact hsession token session hs
  | created _ _ _ hsame => exact hsame ▸ hs
  | unblocked _ _ hsame => exact hsame ▸ hs
  | revoked _ _ _ hfilter =>
    rw [hfilter, Std.ExtTreeMap.getElem?_filter'] at hs
    exact (Option.filter_eq_some_iff.mp hs).1

theorem buried_move {w t : World} {e : Event} (ho : Ordered w) (h : Buried v w)
    (htimely : Timely v w e) (hm : Move v w e t) : Buried v t := by
  cases hm with
  | @tick elapsed =>
    refine ⟨fun token hk => (h.refused token hk).mono ?_ fun _ hs => hs, h.late⟩
    exact Int.le_add_of_nonneg_right (Int.natCast_nonneg elapsed)
  | @arrived id token =>
    refine ⟨h.refused, fun k other now hf => ?_⟩
    rw [get_put] at hf
    split at hf
    · injection hf with hf
      injection hf with htoken hnow hlate
      subst htoken hnow
      exact h.refused token (List.contains_iff_mem.mp hlate)
    · exact h.late k other now hf
  | @flown id f writer hf =>
    refine ⟨h.refused, fun k token now hk => ?_⟩
    rw [get_put] at hk
    split at hk
    · exact absurd (Option.some.inj hk) (hf token now true)
    · exact h.late k token now hk
  | landed => exact ⟨h.refused, fun k token now hk => h.late k token now (land_flight hk)⟩
  | @refused id token now late error hflight he =>
    refine ⟨fun k hk => ?_, fun k other at_ hk => h.late k other at_ (land_flight hk)⟩
    have hdead : Dead v token w.clock w.site :=
      (authenticate_error ho.owned he).mono (ho.past id token now late hflight).1 fun _ hs => hs
    by_cases hissued : (w.issued[token]?).isSome = true
    · simp only [hissued, if_true] at hk
      rcases List.mem_cons.mp hk with rfl | hk
      · exact hdead
      · exact h.refused k hk
    · simp only [hissued, Bool.false_eq_true, if_false] at hk
      exact h.refused k hk
  | @touched id token now he hflight =>
    -- A timely touch revives no session that is dead to anyone.
    subst he
    have hkept : ∀ (k : Text) (at_ : Time), at_ ≤ w.clock → Dead v k at_ w.site →
        Dead v k at_ (touch now token w.site) := by
      intro k at_ hle hdead session hs
      obtain ⟨old, hold, _, _, rfl | ⟨rfl, rfl⟩⟩ := touch_session hs
      · exact hdead session hold
      · rcases htimely k now old hflight hold with hlive | hsame
        · exact absurd (Int.le_trans (hdead old hold) hle) (Int.not_le.mpr hlive)
        · exact Int.le_trans hsame (hdead old hold)
    refine ⟨fun k hk => hkept k _ (Int.le_refl _) (h.refused k hk), fun k other at_ hk => ?_⟩
    have hold := land_flight hk
    exact hkept other at_ (ho.past k other at_ true hold).1 (h.late k other at_ hold)
  | wrote hflight hc =>
    refine ⟨fun k hk => (h.refused k hk).mono (Int.le_refl _) ?_, fun k other at_ hk => ?_⟩
    · exact change_session hc (ho.known k hk)
    · have hold := hflight k _ hk
      exact (h.late k other at_ hold).mono (Int.le_refl _)
        (change_session hc ((ho.past k other at_ true hold).2 rfl))

/-- In any run nothing is accepted past the absolute limit or after a logout, a reset or a
block. -/
theorem accepted_in_force {P : World → Event → Prop} {w : World} (h : Run v P w) {now : Time}
    {token : Text} {session : Session} {actor : Actor}
    (haccepted : authenticate v now token w.site = .ok (session, actor)) :
    now < session.created + v.absolute ∧ w.issued[token]? = some session.created ∧
      token ∉ w.ended := by
  obtain ⟨hsession, hlive⟩ := authenticate_ok haccepted
  have hordered := run_ordered h
  refine ⟨Int.lt_of_lt_of_le hlive (Int.min_le_left _ _),
    hordered.issued token session hsession, fun hended => ?_⟩
  cases (hordered.ended token hended).2.symm.trans hsession

theorem run_buried {w : World} (h : Run v (Timely v) w) : Buried v w := by
  induction h with
  | start hs => constructor <;> simp [hs.refused, hs.flight]
  | step hrun htimely hstep ih =>
    exact buried_move (run_ordered hrun) ih htimely (step_move hstep)

/-- In a run whose touches revive no session, a refused token is never accepted again, and no
token is accepted past its absolute limit or its end. -/
theorem session_finality {w : World} (h : Run v (Timely v) w) : Lawful v w := by
  intro id token now late session actor hflight haccepted
  refine ⟨?_, accepted_in_force h haccepted⟩
  cases late with
  | false => rfl
  | true =>
    obtain ⟨hsession, hlive⟩ := authenticate_ok haccepted
    have := (run_buried h).late id token now hflight session hsession
    exact absurd this (Int.not_le.mpr hlive)

/-! One user with a limit of ten for idle sessions and of a hundred for all. -/

def shop : Service where
  absolute := 100
  idle := 10
  casefold := fun t => t.map Char.toLower
  isSpace := Char.isWhitespace
  verify := fun hash password => hash = '$' :: password
  dummyHash := "$-".toList

def visitor : User := ⟨⟨['u'], ['n'], ['N'], .worker⟩, "$p".toList, false⟩

def opened : World where
  site := {
    user := (∅ : Table User).insert ['u'] visitor, session := ∅, loginRate := ∅, audit := [] }
  clock := 0
  writer := none
  flight := ∅
  issued := ∅
  refused := []
  ended := []

theorem opened_start : Start opened := by
  refine ⟨fun k u hu => ?_, rfl, rfl, rfl, rfl, rfl, rfl⟩
  simp only [opened, get_put] at hu
  split at hu
  · rename_i hk
    cases hu
    exact hk
  · simp at hu

/-- `Timely`, for concrete runs. -/
def timely (v : Service) (w : World) : Event → Bool
  | .commitTouch id =>
    match w.flight[id]? with
    | some (.touching token now) => (w.site.session[token]?).all fun session =>
      w.clock < expiry v session ∨ expiry v { session with touched := now } ≤ expiry v session
    | _ => true
  | _ => true

theorem timely_sound {w : World} {e : Event} (h : timely v w e = true) : Timely v w e := by
  cases e with
  | commitTouch id =>
    intro token now session hflight hsession
    simpa only [timely, hflight, hsession, Option.all_some, decide_eq_true_eq] using h
  | _ => trivial

/-- The events one after the other, as long as they are of a kind. -/
def follow (v : Service) (p : World → Event → Bool) (es : List Event) (w : World) : Option World :=
  Scripts.play (fun w e => p w e = true) (step v) es w

theorem follow_run {P : World → Event → Prop} {p : World → Event → Bool}
    (hp : ∀ w e, p w e = true → P w e) {es : List Event} {w t : World} (hw : Run v P w)
    (h : follow v p es w = some t) : Run v P t :=
  Scripts.play_keeps (Run v P) (fun _ hw hkind hu => hw.step (hp _ _ hkind) hu) hw h

def logIn : List Event :=
  [.startLogin ['l'] ⟨['n'], ['p']⟩ ['r'] ['i'], .commitLogin ['l'] ['k'] ['c']]

/-- The first request outlives the session, the second one is refused, and the touch of the
first lets the third one in. -/
def outlived : List Event :=
  logIn ++ [.arrive ['a'] ['k'], .check ['a'], .tick 10, .arrive ['b'] ['k'], .check ['b'],
    .beginTouch ['a'], .commitTouch ['a'], .arrive ['d'] ['k']]

/-- A touch in time, and a request that is accepted after the first idle limit. -/
def inTime : List Event :=
  logIn ++ [.arrive ['a'] ['k'], .check ['a'], .tick 5, .beginTouch ['a'], .commitTouch ['a'],
    .tick 7, .arrive ['d'] ['k']]

/-- The request that is being decided would be accepted. -/
def accepts (v : Service) (id : Text) (late : Bool) (w : World) : Bool :=
  match w.flight[id]? with
  | some (.arrived token now l) => l = late ∧ (authenticate v now token w.site).isOk
  | _ => false

theorem accepts_spec {id : Text} {late : Bool} {w : World} (h : accepts v id late w = true) :
    ∃ token now session actor, w.flight[id]? = some (.arrived token now late) ∧
      authenticate v now token w.site = .ok (session, actor) := by
  unfold accepts at h
  split at h
  · rename_i token now l hflight
    obtain ⟨rfl, hok⟩ := of_decide_eq_true h
    cases hr : authenticate v now token w.site with
    | ok r => exact ⟨token, now, r.1, r.2, hflight, by rw [hr]⟩
    | error e => rw [hr] at hok; cases hok
  · cases h

theorem refused_and_accepted : ∃ w,
    follow shop (fun _ _ => true) outlived opened = some w ∧ Run shop (fun _ _ => True) w ∧
      ¬Lawful shop w := by
  have hrun : (follow shop (fun _ _ => true) outlived opened).any (accepts shop ['d'] true) =
      true := by decide +kernel
  obtain ⟨w, hw, hlast⟩ := (Option.any_eq_true _ _).mp hrun
  obtain ⟨token, now, session, actor, hflight, hok⟩ := accepts_spec hlast
  refine ⟨w, hw, follow_run (fun _ _ _ => trivial) (.start opened_start) hw, fun h => ?_⟩
  cases (h _ _ _ _ _ _ hflight hok).1

theorem session_finality_in_time : ∃ w token now session actor,
    follow shop (timely shop) inTime opened = some w ∧
    w.flight[['d']]? = some (.arrived token now false) ∧
    authenticate shop now token w.site = .ok (session, actor) ∧
    now < session.created + shop.absolute ∧ token ∉ w.ended := by
  have hrun : (follow shop (timely shop) inTime opened).any (accepts shop ['d'] false) = true := by
    decide +kernel
  obtain ⟨w, hw, hlast⟩ := (Option.any_eq_true _ _).mp hrun
  obtain ⟨token, now, session, actor, hflight, hok⟩ := accepts_spec hlast
  obtain ⟨_, habsolute, _, hended⟩ := session_finality
    (follow_run (fun _ _ => timely_sound) (.start opened_start) hw) _ _ _ _ _ _ hflight hok
  exact ⟨w, token, now, session, actor, hw, hflight, hok, habsolute, hended⟩

end SessionFinality
