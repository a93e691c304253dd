import Mathlib.Algebra.Order.Group.Int
import Mathlib.Data.List.DropRight
import WiseWay.Records
import WiseWay.SlidingWindows

/-! # Sessions and accounts

`auth.py`, `accounts.py` and the part of `maintenance.py` that deletes sessions. A session is
stored under the digest of its token, which stands for the token. Requests overlap: each of
them authenticates when it starts and touches its session when it ends. -/
namespace Sessions

open Records

inductive Role where
  | worker | admin
  deriving DecidableEq, Repr

structure Actor where
  userId : Text
  login : Text
  displayName : Text
  role : Role
  deriving DecidableEq, Repr

structure User where
  actor : Actor
  passwordHash : Text
  blocked : Bool
  deriving DecidableEq, Repr

structure Session where
  userId : Text
  csrf : Text
  created : Time
  touched : Time
  deriving DecidableEq, Repr

inductive SystemAction where
  | loginSucceeded | loginFailed | logout | accountCreated | passwordChanged | accountBlocked
  | accountUnblocked
  deriving DecidableEq, Repr

structure SystemEvent where
  actor : Option Actor
  action : SystemAction
  requestId : Text
  occurredAt : Time
  failed : Bool := false
  comment : Option Text := none
  deriving DecidableEq, Repr

inductive AccountError where
  | unauthenticated | loginFailed | rateLimited | forbidden | notFound | validationError
  deriving DecidableEq, Repr

structure Site where
  user : Table User
  session : Table Session
  loginRate : Table (List Time)
  audit : List SystemEvent

/-- The settings, and what `str` and the password hasher provide. -/
structure Service where
  absolute : Time
  idle : Time
  casefold : Text → Text
  isSpace : Char → Bool
  verify : Text → Text → Bool
  dummyHash : Text

def require {α : Type} (e : AccountError) : Option α → Except AccountError α
  | some a => .ok a
  | none => .error e

section Auth

variable (v : Service)

def seconds (n : ℕ) : Time := n * 1000000

def attemptsPerIpAndLogin : ℕ := 10

def attemptsPerIp : ℕ := 100

/-- The attempts of the last minute. -/
def recent (now : Time) (attempts : List Time) : List Time :=
  SlidingWindows.recent (seconds 60) now attempts

def ipBucket (address : Text) : Text := "ip:".toList ++ address

def loginBucket (address login : Text) : Text :=
  "login:".toList ++ address ++ '\x00' :: v.casefold login

def expiry (session : Session) : Time :=
  min (session.created + v.absolute) (session.touched + v.idle)

structure LoginBody where
  login : Text
  password : Text
  deriving DecidableEq, Repr

structure SessionView where
  actor : Actor
  expiresAt : Time
  csrf : Text
  deriving DecidableEq, Repr

def dto (session : Session) (actor : Actor) : SessionView := ⟨actor, expiry v session, session.csrf⟩

def userByLogin (s : Site) (login : Text) : Option User :=
  (list s.user).find? fun u => u.actor.login = login

/-- The outer error rolls the transaction back, the inner one is raised after it. -/
def login (now : Time) (token csrf : Text) (body : LoginBody) (requestId address : Text)
    (s : Site) : Except AccountError (Except AccountError (SessionView × Text) × Site) :=
  let ip := recent now ((s.loginRate[ipBucket address]?).getD [])
  let own := recent now ((s.loginRate[loginBucket v address body.login]?).getD [])
  if attemptsPerIp ≤ ip.length ∨ attemptsPerIpAndLogin ≤ own.length then .error .rateLimited
  else
    let rates := (s.loginRate.insert (ipBucket address) (ip ++ [now])).insert
      (loginBucket v address body.login) (own ++ [now])
    let user := userByLogin s body.login
    let verified := v.verify ((user.map (·.passwordHash)).getD v.dummyHash) body.password
    match user with
    | some user =>
      if verified ∧ user.blocked = false then
        let session : Session :=
          { userId := user.actor.userId, csrf := csrf, created := now, touched := now }
        .ok (.ok (dto v session user.actor, token), { s with
          loginRate := rates
          session := s.session.insert token session
          audit := s.audit ++ [{ actor := user.actor, action := .loginSucceeded
                                 requestId := requestId, occurredAt := now }] })
      else .ok (.error .loginFailed, { s with
        loginRate := rates
        audit := s.audit ++ [{ actor := none, action := .loginFailed, requestId := requestId
                               occurredAt := now, failed := true }] })
    | none => .ok (.error .loginFailed, { s with
        loginRate := rates
        audit := s.audit ++ [{ actor := none, action := .loginFailed, requestId := requestId
                               occurredAt := now, failed := true }] })

def authenticate (now : Time) (token : Text) (s : Site) :
    Except AccountError (Session × Actor) :=
  match s.session[token]? with
  | none => .error .unauthenticated
  | some session =>
    match s.user[session.userId]? with
    | none => .error .unauthenticated
    | some user =>
      if user.blocked ∨ expiry v session ≤ now then .error .unauthenticated
      else .ok (session, user.actor)

def touch (now : Time) (token : Text) (s : Site) : Site :=
  match s.session[token]? with
  | some session => { s with session := s.session.insert token { session with touched := now } }
  | none => s

def logout (now : Time) (token : Text) (actor : Actor) (requestId : Text) (s : Site) : Site :=
  { s with
    session := s.session.erase token
    audit := s.audit ++ [{ actor := actor, action := .logout, requestId := requestId
                           occurredAt := now }] }

/-- The sessions and the login attempts that `Maintenance.run_once` keeps. -/
def clean (now : Time) (s : Site) : Site :=
  { s with
    session := s.session.filter fun _ session => now < expiry v session
    loginRate := s.loginRate.filterMap fun _ attempts =>
      if recent now attempts = [] then none else some (recent now attempts) }

end Auth

section Accounts

variable (v : Service)

def loginShape : Text → Bool
  | [] => false
  | c :: rest => c.isAlphanum && decide (rest.length ≤ 63) &&
    rest.all fun d => d.isAlphanum || d = '.' || d = '_' || d = '-'

def strip (s : Text) : Text := (s.dropWhile v.isSpace).rdropWhile v.isSpace

def displayShape (displayName : Text) : Bool :=
  strip v displayName ≠ [] ∧ displayName.length ≤ 200

def passwordShape (password : Text) : Bool :=
  12 ≤ password.length ∧ (password.map Char.utf8Size).sum ≤ 1024

def validate (valid : Bool) : Except AccountError Unit :=
  if valid then .ok () else .error .validationError

def activeAdmin (u : User) : Bool := u.actor.role = .admin ∧ u.blocked = false

/-- `_admin`. -/
def admin (s : Site) (actorLogin : Text) : Except AccountError User :=
  require .forbidden ((list s.user).find? fun u => u.actor.login = actorLogin ∧ activeAdmin u)

/-- `_target`. -/
def target (s : Site) (login : Text) : Except AccountError User :=
  require .notFound (userByLogin s login)

/-- `_revoke`. -/
def revoke (userId : Text) (s : Site) : Site :=
  { s with session := s.session.filter fun _ session => session.userId ≠ userId }

def administered (actor : User) (action : SystemAction) (requestId : Text) (now : Time)
    (comment : Text) : SystemEvent where
  actor := actor.actor
  action := action
  requestId := requestId
  occurredAt := now
  comment := comment

def putUser (u : User) (s : Site) : Site := { s with user := s.user.insert u.actor.userId u }

def emit (event : SystemEvent) (s : Site) : Site := { s with audit := s.audit ++ [event] }

/-- What an administrative command draws: the identifier of its request, the time and the
hash of a new password. -/
structure Draw where
  requestId : Text
  now : Time
  passwordHash : Text
  deriving DecidableEq, Repr

def createUser (x : Draw) (userId actorLogin login displayName : Text) (role : Role)
    (password : Text) (s : Site) : Except AccountError Site := do
  validate (loginShape login && displayShape v displayName && passwordShape password)
  let actor ← admin s actorLogin
  if (list s.user).any fun u => v.casefold u.actor.login = v.casefold login then
    .error .validationError
  let user : User := ⟨⟨userId, login, strip v displayName, role⟩, x.passwordHash, false⟩
  return emit (administered actor .accountCreated x.requestId x.now
    ("Created account: ".toList ++ login)) (putUser user s)

def resetPassword (x : Draw) (actorLogin login password : Text) (s : Site) :
    Except AccountError Site := do
  validate (loginShape login && passwordShape password)
  let actor ← admin s actorLogin
  let user ← target s login
  let saved := putUser { user with passwordHash := x.passwordHash } s
  return emit (administered actor .passwordChanged x.requestId x.now
    ("Password changed: ".toList ++ login)) (revoke user.actor.userId saved)

def blockUser (x : Draw) (actorLogin login : Text) (s : Site) : Except AccountError Site := do
  validate (loginShape login)
  let actor ← admin s actorLogin
  let user ← target s login
  if activeAdmin user ∧ (list s.user).countP activeAdmin ≤ 1 then .error .validationError
  let saved := putUser { user with blocked := true } s
  return emit (administered actor .accountBlocked x.requestId x.now
    ("Blocked account: ".toList ++ login)) (revoke user.actor.userId saved)

def unblockUser (x : Draw) (actorLogin login : Text) (s : Site) : Except AccountError Site := do
  validate (loginShape login)
  let actor ← admin s actorLogin
  let user ← target s login
  return emit (administered actor .accountUnblocked x.requestId x.now
    ("Unblocked account: ".toList ++ login)) (putUser { user with blocked := false } s)

end Accounts

/-! The service under overlapping requests. -/

/-- How far a request, a login or a cleaning has come. -/
inductive Flight where
  /-- `authenticate` has read the clock; `late` if its token had been refused by then. -/
  | arrived (token : Text) (now : Time) (late : Bool)
  | serving (token : Text) (session : Session) (actor : Actor)
  /-- `touch` has read the clock in its write transaction. -/
  | touching (token : Text) (now : Time)
  | loggingIn (now : Time) (body : LoginBody) (requestId address : Text)
  | cleaning (now : Time)
  deriving DecidableEq, Repr

/-- `writer` is in a write transaction. The last three fields are a ghost: when a token was
issued, which tokens were refused afterwards, and which ended with a logout, a reset or a
block. -/
structure World where
  site : Site
  clock : Time
  writer : Option Text
  flight : Table Flight
  issued : Table Time
  refused : List Text
  ended : List Text

inductive Event where
  | tick (elapsed : ℕ)
  | arrive (id token : Text)
  | check (id : Text)
  | beginTouch (id : Text)
  | commitTouch (id : Text)
  | logout (id requestId : Text)
  | startLogin (id : Text) (body : LoginBody) (requestId address : Text)
  | commitLogin (id token csrf : Text)
  | startClean (id : Text)
  | commitClean (id : Text)
  | createUser (x : Draw) (userId actorLogin login displayName : Text) (role : Role)
      (password : Text)
  | resetPassword (x : Draw) (actorLogin login password : Text)
  | blockUser (x : Draw) (actorLogin login : Text)
  | unblockUser (x : Draw) (actorLogin login : Text)
  /-- A request that ends without touching its session. -/
  | drop (id : Text)

def launch (id : Text) (f : Flight) (w : World) : Option World :=
  match w.flight[id]? with
  | none => some { w with flight := w.flight.insert id f }
  | some _ => none

def land (id : Text) (w : World) : World := { w with flight := w.flight.erase id }

/-- A write transaction that is committed at once; a failed one is no step. -/
def write (w : World) (r : Except AccountError Site) : Option World :=
  match w.writer, r with
  | none, .ok s => some { w with site := s }
  | _, _ => none

def tokensOf (s : Site) (userId : Text) : List Text :=
  (s.session.toList.filter fun entry => entry.2.userId = userId).map Prod.fst

/-- The ghost notes of `_revoke`. -/
def revoked (login : Text) (before : World) (after : Option World) : Option World :=
  after.map fun w => { w with
    ended := (((userByLogin before.site login).map fun u =>
      tokensOf before.site u.actor.userId).getD []) ++ w.ended }

def step (v : Service) (w : World) : Event → Option World
  | .tick elapsed => some { w with clock := w.clock + elapsed }
  | .arrive id token => launch id (.arrived token w.clock (w.refused.contains token)) w
  | .check id =>
    match w.flight[id]? with
    | some (.arrived token now _) =>
      match authenticate v now token w.site with
      | .ok (session, actor) =>
        some { w with flight := w.flight.insert id (.serving token session actor) }
      | .error _ => some { land id w with
          refused := if (w.issued[token]?).isSome then token :: w.refused else w.refused }
    | _ => none
  | .beginTouch id =>
    match w.flight[id]?, w.writer with
    | some (.serving token _ _), none => some { w with
        writer := some id, flight := w.flight.insert id (.touching token w.clock) }
    | _, _ => none
  | .commitTouch id =>
    match w.flight[id]? with
    | some (.touching token now) =>
      some { land id w with site := touch now token w.site, writer := none }
    | _ => none
  | .logout id requestId =>
    match w.flight[id]?, w.writer with
    | some (.serving token _ actor), none => some { land id w with
        site := logout w.clock token actor requestId w.site
        ended := if (w.issued[token]?).isSome then token :: w.ended else w.ended }
    | _, _ => none
  | .startLogin id body requestId address =>
    launch id (.loggingIn w.clock body requestId address) w
  | .commitLogin id token csrf =>
    match w.flight[id]?, w.writer, w.issued[token]? with
    | some (.loggingIn now body requestId address), none, none =>
      match login v now token csrf body requestId address w.site with
      | .ok (.ok _, s) => some { land id w with site := s, issued := w.issued.insert token now }
      | .ok (.error _, s) => some { land id w with site := s }
      | .error _ => some (land id w)
    | _, _, _ => none
  | .startClean id => launch id (.cleaning w.clock) w
  | .commitClean id =>
    match w.flight[id]?, w.writer with
    | some (.cleaning now), none => some { land id w with site := clean v now w.site }
    | _, _ => none
  | .createUser x userId actorLogin login displayName role password =>
    match w.site.user[userId]? with
    | none => write w (createUser v x userId actorLogin login displayName role password w.site)
    | some _ => none
  | .resetPassword x actorLogin login password =>
    revoked login w (write w (resetPassword x actorLogin login password w.site))
  | .blockUser x actorLogin login =>
    revoked login w (write w (blockUser x actorLogin login w.site))
  | .unblockUser x actorLogin login => write w (unblockUser x actorLogin login w.site)
  | .drop id =>
    match w.flight[id]? with
    | some _ => some { land id w with writer := if w.writer = some id then none else w.writer }
    | none => none

/-- Accounts as the bootstrap stores them, and nobody logged in. -/
structure Start (w : World) : Prop where
  key : ∀ (k : Text) u, w.site.user[k]? = some u → u.actor.userId = k
  session : w.site.session = ∅
  writer : w.writer = none
  flight : w.flight = ∅
  issued : w.issued = ∅
  refused : w.refused = []
  ended : w.ended = []

/-- Runs whose every step is of a kind. -/
inductive Run (v : Service) (P : World → Event → Prop) : World → Prop where
  | start {w} : Start w → Run v P w
  | step {w e t} : Run v P w → P w e → step v w e = some t → Run v P t

end Sessions
