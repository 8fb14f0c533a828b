import Dockgraph.Auth.Password
import Dockgraph.Auth.RateLimiter
import Dockgraph.Auth.Session
import Dockgraph.Library.Checks

/-!
# The gate (`auth/middleware.go`, `auth/handlers.go`)

Every request meets the middleware first. Only three kinds of request are answered without a
session; one of them, the login, is where sessions come from.
-/
namespace Dockgraph.Auth

open Checks Text Transition

/-! ## The middleware -/

structure GateRequest where
  method : String
  path : String
  /-- The `Upgrade` header. -/
  upgrade : String := ""
  /-- The value of the session cookie. -/
  cookie : Option String := none

def loginScriptPath : String := "/login.js"

def isPublicPath (method path : String) : Bool :=
  if path = "/healthz" then true
  else if method = "POST" ∧ path = "/api/login" then true
  else if method = "GET" ∧ path = loginScriptPath then true
  else false

inductive GateAnswer
  /-- To the handlers, with the claims of the session, if one was needed. -/
  | next (claims : Option Claims)
  /-- 401. -/
  | unauthorized
  | loginPage

def serveUnauthorized (r : GateRequest) : GateAnswer :=
  if "/api/".toList.isPrefixOf r.path.toList ∨ r.upgrade = "websocket" then .unauthorized else .loginPage

def Service.middleware (codec : Codec) (s : Service) (now : Int) (r : GateRequest) : GateAnswer :=
  if isPublicPath r.method r.path then .next none
  else
    match s.validateRequest codec now r.cookie with
    | none => serveUnauthorized r
    | some claims => .next (some claims)

/-! ## The login -/

/-- What a login brings along: `password` is `none` for a body that is no JSON of one, `slot` says
whether a slot to check it came free in time, and `jti` is what `GenerateJTI` makes. -/
structure LoginRequest where
  contentType : String
  /-- `ClientKey`. -/
  key : String
  password : Option (List UInt8)
  slot : Bool
  jti : String

inductive LoginAnswer
  | unsupportedContentType
  | rateLimited
  | invalidBody
  | busy
  | invalidPassword
  | session (token : String)

/-- `Login`. -/
def Service.login (codec : Codec) (argon2 : Argon2) (s : Service) (passwordHash : String) (limiter : RateLimiter)
    (now : Int) (r : LoginRequest) : LoginAnswer × RateLimiter :=
  if ¬"application/json".toList.isPrefixOf r.contentType.toList then (.unsupportedContentType, limiter)
  else
    let ((allowed, _), limiter) := limiter.attempt r.key now
    if ¬allowed then (.rateLimited, limiter)
    else
      match r.password with
      | none => (.invalidBody, limiter)
      | some password =>
        -- the password was never checked, so the attempt does not count
        if ¬r.slot then (.busy, limiter.forget r.key)
        else
          match checkPassword argon2 password passwordHash with
          | .ok true => (.session (s.setSessionCookie codec now r.jti), limiter)
          | _ => (.invalidPassword, limiter)

/-- A login with the right password that is let in and gets a slot. -/
theorem login_right {codec : Codec} {argon2 : Argon2} {s : Service} {hash : String} {limiter : RateLimiter}
    {now : Int} {r : LoginRequest} {password : List UInt8}
    (json : "application/json".toList.isPrefixOf r.contentType.toList = true)
    (allowed : (limiter.attempt r.key now).1.1 = true) (sent : r.password = some password)
    (slot : r.slot = true) (right : checkPassword argon2 password hash = .ok true) :
    s.login codec argon2 hash limiter now r =
      (.session (s.setSessionCookie codec now r.jti), (limiter.attempt r.key now).2) := by
  unfold Service.login
  rw [if_neg (not_not.mpr json)]
  simp [allowed, sent, slot, right]

theorem login_session {codec : Codec} {argon2 : Argon2} {s : Service} {hash : String} {limiter : RateLimiter}
    {now : Int} {r : LoginRequest} {token : String}
    (answer : (s.login codec argon2 hash limiter now r).1 = .session token) :
    token = s.setSessionCookie codec now r.jti ∧
      ∃ password, r.password = some password ∧ checkPassword argon2 password hash = .ok true := by
  unfold Service.login at answer
  dsimp only at answer
  split at answer
  · cases answer
  split at answer
  · cases answer
  split at answer
  · cases answer
  case h_2 password sent =>
    split at answer
    · cases answer
    split at answer
    case h_1 right =>
      cases answer
      exact ⟨rfl, password, sent, right⟩
    case h_2 => cases answer

/-! ## Runs -/

/-- History: a token, and the password it was given for. -/
structure Issued where
  time : Int
  token : String
  password : List UInt8

/-- History: a request that got to the handlers. -/
structure Reached where
  time : Int
  request : GateRequest
  claims : Option Claims

structure Gate where
  clock : Int
  service : Service
  passwordHash : String
  limiter : RateLimiter
  issued : List Issued := []
  logouts : List Int := []
  reached : List Reached := []

/-- A request some time after the one before. -/
structure Arriving where
  wait : Nat
  request : GateRequest
  /-- What a login brings along. -/
  login : LoginRequest

namespace Gate

/-- What the handlers do that bears on sessions. -/
def handle (codec : Codec) (argon2 : Argon2) (g : Gate) (r : GateRequest) (l : LoginRequest) : Gate :=
  if r.method = "POST" ∧ r.path = "/api/login" then
    let (answer, limiter) := g.service.login codec argon2 g.passwordHash g.limiter g.clock l
    match answer with
    | .session token =>
      { g with limiter, issued := g.issued ++ [⟨g.clock, token, l.password.getD []⟩] }
    | _ => { g with limiter }
  else if r.method = "POST" ∧ r.path = "/api/logout" then
    { g with service := g.service.logout g.clock, logouts := g.logouts ++ [g.clock] }
  else g

def step (codec : Codec) (argon2 : Argon2) (g : Gate) (a : Arriving) : Option Gate :=
  let g := { g with clock := g.clock + a.wait + 1 }
  match g.service.middleware codec g.clock a.request with
  | .next claims =>
    let reached := g.reached ++ [{ time := g.clock, request := a.request, claims }]
    some (({ g with reached } : Gate).handle codec argon2 a.request a.login)
  | _ => some g

def start (clock : Int) (signingKey : List UInt8) (passwordHash : String) (limiter : RateLimiter) : Gate :=
  { clock, service := { signingKey }, passwordHash, limiter }

end Gate

/-! ## What a token that is accepted says -/

/-- An accepted token carries the code of its header and payload, which hold the claims. -/
theorem verifyToken_ok {codec : Codec} {token : String} {key : List UInt8} {now : Int} {claims : Claims}
    (accepted : verifyToken codec token key now = .ok claims) :
    ∃ header payload sig json raw, tokenParts token = some (header, payload, sig) ∧
      Base64.decode sig = some (codec.hmac key (header ++ "." ++ payload)) ∧
      Base64.decode payload = some json ∧ codec.unmarshal json = some raw ∧
      claims.issuedAt = raw.iat * second ∧ now ≤ raw.exp * second := by
  unfold verifyToken at accepted
  obtain ⟨⟨header, payload, sig⟩, parts, accepted⟩ := bind_ok.mp accepted
  obtain ⟨headerJSON, -, accepted⟩ := bind_ok.mp accepted
  obtain ⟨alg, -, accepted⟩ := bind_ok.mp accepted
  dsimp only at accepted
  split at accepted
  · cases accepted
  obtain ⟨actual, code, accepted⟩ := bind_ok.mp accepted
  split at accepted
  · cases accepted
  case isFalse same =>
    obtain ⟨json, body, accepted⟩ := bind_ok.mp accepted
    obtain ⟨raw, read, accepted⟩ := bind_ok.mp accepted
    split at accepted
    · cases accepted
    case isFalse fresh =>
      cases accepted
      refine ⟨header, payload, sig, json, raw, orError_ok.mp parts, ?_, orError_ok.mp body, orError_ok.mp read, rfl,
        not_lt.mp fresh⟩
      rw [orError_ok.mp code, not_not.mp same]

/-- A client that can't make codes sends only headers and payloads of tokens it was given. -/
def Unforged (codec : Codec) (key : List UInt8) (g : Gate) (a : Arriving) : Prop :=
  ∀ token ∈ a.request.cookie, ∀ header payload sig, tokenParts token = some (header, payload, sig) →
    Base64.decode sig = some (codec.hmac key (header ++ "." ++ payload)) →
    ∃ i ∈ g.issued, ∃ own, tokenParts i.token = some (header, payload, own)

variable {codec : Codec} {argon2 : Argon2} {key : List UInt8} {hash : String} {g h : Gate}

/-- A session the password was given for, which no logout before `now` ended. -/
structure Session (argon2 : Argon2) (hash : String) (g : Gate) (now : Int) (i : Issued) : Prop where
  issued : i ∈ g.issued
  password : checkPassword argon2 i.password hash = .ok true
  earlier : i.time < now
  fresh : now ≤ unix (i.time + sessionMaxAge) * second
  lasting : ∀ l ∈ g.logouts, l < now → l < unix i.time * second

/-- Later logouts end no visit before them. -/
theorem Session.mono {now : Int} {i : Issued} (session : Session argon2 hash g now i)
    (issued : ∀ i ∈ g.issued, i ∈ h.issued) (logouts : ∀ l ∈ h.logouts, l < now → l ∈ g.logouts) :
    Session argon2 hash h now i :=
  { session with
    issued := issued i session.issued
    lasting := fun l member earlier => session.lasting l (logouts l member earlier) earlier }

namespace Gate

/-- What holds between requests. -/
structure Guarded (codec : Codec) (argon2 : Argon2) (key : List UInt8) (hash : String) (g : Gate) : Prop where
  sameKey : g.service.signingKey = key
  sameHash : g.passwordHash = hash
  past : ∀ l ∈ g.logouts, l ≤ g.clock
  valid : ∀ t, g.service.sessions.isValid t = true ↔ ∀ l ∈ g.logouts, l < t
  given : ∀ i ∈ g.issued, i.time ≤ g.clock ∧ checkPassword argon2 i.password hash = .ok true ∧ ∃ jti,
    i.token = signToken codec { issuedAt := i.time, expiresAt := i.time + sessionMaxAge, jti } key
  reached : ∀ r ∈ g.reached, r.time ≤ g.clock ∧
    (isPublicPath r.request.method r.request.path = false → ∃ i, Session argon2 hash g r.time i)

/-- All of it happened before now. -/
structure Late (g : Gate) : Prop where
  logouts : ∀ l ∈ g.logouts, l < g.clock
  issued : ∀ i ∈ g.issued, i.time < g.clock

theorem guarded_start {limiter : RateLimiter} (clock : Int) :
    Guarded codec argon2 key hash (start clock key hash limiter) where
  sameKey := rfl
  sameHash := rfl
  past := by simp [start]
  valid := by simp [start, SessionManager.isValid]
  given := by simp [start]
  reached := by simp [start]

theorem guarded_wait (before : Guarded codec argon2 key hash g) (wait : Nat) :
    Guarded codec argon2 key hash { g with clock := g.clock + wait + 1 } ∧
      Late { g with clock := g.clock + wait + 1 } := by
  have later : g.clock < g.clock + wait + 1 := by omega
  refine ⟨⟨before.sameKey, before.sameHash, fun l member => ?_, before.valid, fun i member => ?_,
    fun r member => ?_⟩, ⟨fun l member => ?_, fun i member => ?_⟩⟩
  · exact (before.past l member).trans later.le
  · exact ⟨(before.given i member).1.trans later.le, (before.given i member).2⟩
  · obtain ⟨old, guarded⟩ := before.reached r member
    refine ⟨old.trans later.le, fun private_ => ?_⟩
    obtain ⟨i, issued, password, earlier, fresh, lasting⟩ := guarded private_
    exact ⟨i, issued, password, earlier, fresh, lasting⟩
  · exact (before.past l member).trans_lt later
  · exact (before.given i member).1.trans_lt later

theorem serveUnauthorized_ne (r : GateRequest) (claims : Option Claims) : serveUnauthorized r ≠ .next claims := by
  unfold serveUnauthorized
  split <;> simp

/-- What gets past the middleware without being public brings a session that is still valid. -/
theorem validateRequest_of_next {s : Service} {now : Int} {r : GateRequest} {claims : Option Claims}
    (private_ : isPublicPath r.method r.path = false) (passed : s.middleware codec now r = .next claims) :
    ∃ token c, r.cookie = some token ∧ verifyToken codec token s.signingKey now = .ok c ∧
      s.sessions.isValid c.issuedAt = true := by
  simp only [Service.middleware, private_, Bool.false_eq_true, if_false, Service.validateRequest] at passed
  cases sent : r.cookie with
  | none =>
    simp only [sent] at passed
    exact absurd passed (serveUnauthorized_ne r claims)
  | some token =>
    simp only [sent] at passed
    cases verified : verifyToken codec token s.signingKey now with
    | error e =>
      simp only [verified] at passed
      exact absurd passed (serveUnauthorized_ne r claims)
    | ok c =>
      simp only [verified] at passed
      cases valid : s.sessions.isValid c.issuedAt with
      | true => exact ⟨token, c, rfl, verified, valid⟩
      | false =>
        simp only [valid, Bool.not_false, if_true] at passed
        exact absurd passed (serveUnauthorized_ne r claims)

theorem session_of_next (before : Guarded codec argon2 key hash g) (late : Late g) {a : Arriving}
    {claims : Option Claims} (private_ : isPublicPath a.request.method a.request.path = false)
    (unforged : Unforged codec key g a) (passed : g.service.middleware codec g.clock a.request = .next claims) :
    ∃ i, Session argon2 hash g g.clock i := by
  obtain ⟨token, c, sent, verified, valid⟩ := validateRequest_of_next private_ passed
  rw [before.sameKey] at verified
  obtain ⟨header, payload, sig, json, raw, parts, code, body, read, issuedAt, fresh⟩ := verifyToken_ok verified
  obtain ⟨i, issued, own, ownParts⟩ := unforged token sent header payload sig parts code
  obtain ⟨_, password, jti, ownToken⟩ := before.given i issued
  -- the payload is that of a token the server made
  rw [ownToken, signToken, jwtHeader, tokenParts_encode] at ownParts
  cases ownParts
  rw [Base64.decode_encode, Option.some.injEq] at body
  rw [← body, codec.unmarshal_marshal, Option.some.injEq] at read
  rw [← read] at issuedAt fresh
  refine ⟨i, issued, password, late.issued i issued, fresh, fun l member _ => ?_⟩
  rw [← issuedAt]
  exact (before.valid c.issuedAt).mp valid l member

theorem guarded_reach (before : Guarded codec argon2 key hash g) (late : Late g) {a : Arriving}
    {claims : Option Claims} (unforged : Unforged codec key g a)
    (passed : g.service.middleware codec g.clock a.request = .next claims) :
    Guarded codec argon2 key hash
      { g with reached := g.reached ++ [{ time := g.clock, request := a.request, claims }] } := by
  refine ⟨before.sameKey, before.sameHash, before.past, before.valid, before.given, ?_⟩
  intro r member
  rcases List.mem_append.mp member with old | new
  · obtain ⟨past, guarded⟩ := before.reached r old
    exact ⟨past, fun private_ => (guarded private_).imp fun i session => session.mono (fun _ => id) fun _ m _ => m⟩
  · rw [List.mem_singleton.mp new]
    refine ⟨le_rfl, fun private_ => ?_⟩
    exact (session_of_next before late private_ unforged passed).imp fun i session =>
      session.mono (fun _ => id) fun _ m _ => m

theorem guarded_login (before : Guarded codec argon2 key hash g) (r : LoginRequest) (limiter : RateLimiter)
    {token : String} (answer : (g.service.login codec argon2 g.passwordHash g.limiter g.clock r).1 = .session token) :
    Guarded codec argon2 key hash
      { g with limiter, issued := g.issued ++ [⟨g.clock, token, r.password.getD []⟩] } := by
  obtain ⟨cookie, password, sent, right⟩ := login_session answer
  refine ⟨before.sameKey, before.sameHash, before.past, before.valid, ?_, fun v member => ?_⟩
  · intro i member
    rcases List.mem_append.mp member with old | new
    · exact before.given i old
    · rw [List.mem_singleton.mp new, sent, Option.getD_some]
      rw [before.sameHash] at right
      refine ⟨le_rfl, right, r.jti, ?_⟩
      rw [cookie, Service.setSessionCookie, before.sameKey]
  · obtain ⟨past, guarded⟩ := before.reached v member
    exact ⟨past, fun private_ => (guarded private_).imp fun i session =>
      session.mono (fun i => List.mem_append_left _) fun _ m _ => m⟩

theorem guarded_logout (before : Guarded codec argon2 key hash g) (late : ∀ l ∈ g.logouts, l < g.clock) :
    Guarded codec argon2 key hash
      { g with service := g.service.logout g.clock, logouts := g.logouts ++ [g.clock] } := by
  refine ⟨before.sameKey, before.sameHash, ?_, ?_, before.given, fun v member => ?_⟩
  · intro l member
    rcases List.mem_append.mp member with old | new
    · exact before.past l old
    · exact (List.mem_singleton.mp new).le
  · -- the latest logout is the one that counts
    intro t
    change decide (t > g.clock) = true ↔ ∀ l ∈ g.logouts ++ [g.clock], l < t
    rw [decide_eq_true_eq, List.forall_mem_append, List.forall_mem_singleton]
    exact ⟨fun after => ⟨fun l member => (late l member).trans after, after⟩, And.right⟩
  · obtain ⟨past, guarded⟩ := before.reached v member
    -- nobody was let in after this moment
    refine ⟨past, fun private_ => (guarded private_).imp fun i session => session.mono (fun _ => id) ?_⟩
    intro l m earlier
    rcases List.mem_append.mp m with old | new
    · exact old
    · rw [List.mem_singleton.mp new] at earlier
      exact absurd past (not_le.mpr earlier)

theorem guarded_limiter (before : Guarded codec argon2 key hash g) (limiter : RateLimiter) :
    Guarded codec argon2 key hash { g with limiter } :=
  ⟨before.sameKey, before.sameHash, before.past, before.valid, before.given, fun r member =>
    ⟨(before.reached r member).1, fun private_ => ((before.reached r member).2 private_).imp fun _ session =>
      session.mono (fun _ => id) fun _ m _ => m⟩⟩

theorem guarded_handle (before : Guarded codec argon2 key hash g) (late : ∀ l ∈ g.logouts, l < g.clock)
    (r : GateRequest) (l : LoginRequest) : Guarded codec argon2 key hash (g.handle codec argon2 r l) := by
  unfold handle
  split
  · dsimp only
    split
    case h_1 token answer => exact guarded_login before l _ answer
    case h_2 => exact guarded_limiter before _
  · split
    · exact guarded_logout before late
    · exact before

theorem guarded_step {a : Arriving} (before : Guarded codec argon2 key hash g) (unforged : Unforged codec key g a)
    (made : g.step codec argon2 a = some h) : Guarded codec argon2 key hash h := by
  obtain ⟨waited, late⟩ := guarded_wait before a.wait
  unfold step at made
  dsimp only at made
  split at made
  case h_1 claims passed =>
    cases made
    have reached := guarded_reach waited late (a := a) unforged passed
    exact guarded_handle reached late.logouts a.request a.login
  case h_2 =>
    cases made
    exact waited

/-- Whoever gets to a handler that is not public holds a session the right password was given for,
no more than `sessionMaxAge` ago and after the second of every logout before: as long as clients
can't make codes of their own, the gate has no other way in. -/
theorem reached_session {limiter : RateLimiter} {clock : Int} {arrivals : List Arriving}
    (unforged : Along (step codec argon2) (Unforged codec key) (start clock key hash limiter) arrivals)
    (run : exec (step codec argon2) (start clock key hash limiter) arrivals = some g) :
    ∀ r ∈ g.reached, isPublicPath r.request.method r.request.path = false →
      ∃ i, Session argon2 hash g r.time i := by
  have guarded : Guarded codec argon2 key hash g :=
    exec_invariant (fun _ _ _ before ok made => guarded_step before ok made) (guarded_start clock) unforged run
  exact fun r member => (guarded.reached r member).2

/-! ### A visit -/

theorem step_next {a : Arriving} {claims : Option Claims}
    (passed : g.service.middleware codec (g.clock + a.wait + 1) a.request = .next claims) :
    g.step codec argon2 a = some (({ g with
      clock := g.clock + a.wait + 1
      reached := g.reached ++ [{ time := g.clock + a.wait + 1, request := a.request, claims }] } : Gate).handle
        codec argon2 a.request a.login) := by
  simp only [step, passed]

theorem handle_session {r : GateRequest} {l : LoginRequest} {token : String} {limiter : RateLimiter}
    (login : r.method = "POST" ∧ r.path = "/api/login")
    (answer : g.service.login codec argon2 g.passwordHash g.limiter g.clock l = (.session token, limiter)) :
    g.handle codec argon2 r l =
      { g with limiter, issued := g.issued ++ [⟨g.clock, token, l.password.getD []⟩] } := by
  simp [handle, login, answer]

/-- The hash of the empty password. -/
def emptyHash : String := hashPassword CheckSlots.zeroKeys [] (List.replicate 16 0)

theorem checkPassword_emptyHash : checkPassword CheckSlots.zeroKeys [] emptyHash = .ok true := by
  rw [emptyHash, checkPassword_hashPassword _ _ _ _ (by decide)]
  simp

def emptyLogin : LoginRequest :=
  { contentType := "application/json", key := "", password := some [], slot := true, jti := "a" }

/-- The token of a login in the first nanosecond. -/
def firstToken : String := (Service.mk [] {}).setSessionCookie Server.commaCodec 1 "a"

/-- A login, and a request with its token. -/
def visit : List Arriving :=
  [{ wait := 0, request := { method := "POST", path := "/api/login" }, login := emptyLogin },
    { wait := 0, request := { method := "GET", path := "/ws", cookie := some firstToken }, login := emptyLogin }]

def fresh : Gate := start 0 [] emptyHash (newRateLimiter 5 60)

/-- The login has got past the middleware. -/
def atLogin : Gate :=
  { fresh with clock := 1, reached := [⟨1, { method := "POST", path := "/api/login" }, none⟩] }

def loggedIn : Gate :=
  { atLogin with limiter := (atLogin.limiter.attempt "" 1).2, issued := [⟨1, firstToken, []⟩] }

theorem handle_login : atLogin.handle Server.commaCodec CheckSlots.zeroKeys
    { method := "POST", path := "/api/login" } emptyLogin = loggedIn := by
  have right : checkPassword CheckSlots.zeroKeys [] atLogin.passwordHash = .ok true := checkPassword_emptyHash
  exact handle_session ⟨rfl, rfl⟩ (login_right (by decide) (by decide) rfl rfl right)

theorem step_login : fresh.step Server.commaCodec CheckSlots.zeroKeys
    ⟨0, { method := "POST", path := "/api/login" }, emptyLogin⟩ = some loggedIn := by
  have passed : fresh.service.middleware Server.commaCodec (fresh.clock + (0 : Nat) + 1)
      { method := "POST", path := "/api/login" } = .next none := by
    rw [Service.middleware, if_pos (by decide)]
  exact (step_next passed).trans (congrArg some handle_login)

theorem exec_visit : ∃ g, exec (step Server.commaCodec CheckSlots.zeroKeys) fresh visit = some g ∧
    g.reached = [⟨1, { method := "POST", path := "/api/login" }, none⟩,
      ⟨2, { method := "GET", path := "/ws", cookie := some firstToken },
        some { issuedAt := 0, expiresAt := sessionMaxAge, jti := "a" }⟩] := by
  have passed : loggedIn.service.middleware Server.commaCodec (loggedIn.clock + (0 : Nat) + 1)
      { method := "GET", path := "/ws", cookie := some firstToken } =
        .next (some { issuedAt := 0, expiresAt := sessionMaxAge, jti := "a" }) := by
    have verified : verifyToken Server.commaCodec firstToken [] 2 =
        .ok { issuedAt := 0, expiresAt := sessionMaxAge, jti := "a" } := by
      rw [firstToken, Service.setSessionCookie, verifyToken_signToken, if_neg (by decide)]
      rfl
    have same : verifyToken Server.commaCodec firstToken loggedIn.service.signingKey
      (loggedIn.clock + ((0 : Nat) : Int) + 1) = .ok { issuedAt := 0, expiresAt := sessionMaxAge, jti := "a" } := verified
    rw [Service.middleware, if_neg (by decide)]
    simp only [Service.validateRequest, same]
    rfl
  have second : loggedIn.step Server.commaCodec CheckSlots.zeroKeys
      ⟨0, { method := "GET", path := "/ws", cookie := some firstToken }, emptyLogin⟩ = some _ := step_next passed
  rw [visit]
  simp only [exec, step_login, Option.bind_some, second]
  exact ⟨_, rfl, rfl⟩

theorem reached_session_visit : ∃ g, exec (step Server.commaCodec CheckSlots.zeroKeys) fresh visit = some g ∧
    ∃ i, Session CheckSlots.zeroKeys emptyHash g 2 i := by
  obtain ⟨g, run, reached⟩ := exec_visit
  have unforged : Along (step Server.commaCodec CheckSlots.zeroKeys) (Unforged Server.commaCodec []) fresh visit := by
    refine along_cons (t := loggedIn) ?_ step_login ⟨?_, fun _ _ => trivial⟩
    · intro token sent
      cases sent
    · intro token sent header payload sig parts _
      cases sent
      exact ⟨⟨1, firstToken, []⟩, List.mem_singleton_self _, sig, parts⟩
  refine ⟨g, run, ?_⟩
  exact reached_session unforged run
    ⟨2, { method := "GET", path := "/ws", cookie := some firstToken },
      some { issuedAt := 0, expiresAt := sessionMaxAge, jti := "a" }⟩ (by simp [reached]) (by decide)

end Gate

end Dockgraph.Auth
