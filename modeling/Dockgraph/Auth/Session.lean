import Dockgraph.Auth.Jwt
import Dockgraph.Library.Transition

/-!
# Sessions (`auth/session.go`, `auth/handlers.go`, `auth/middleware.go`)

A logout turns away every token with an earlier issue time. A token's issue time is the start of the
second it was issued in, so a login right after a logout is turned away with the ones before it.
-/
namespace Dockgraph.Auth

open Transition

structure SessionManager where
  /-- `none` is the zero time. -/
  invalidatedAt : Option Int := none

def SessionManager.invalidate (_ : SessionManager) (now : Int) : SessionManager :=
  { invalidatedAt := some now }

def SessionManager.isValid (sm : SessionManager) (issuedAt : Int) : Bool :=
  sm.invalidatedAt.all fun t => issuedAt > t

def sessionMaxAge : Int := 7 * 24 * 3600 * second

structure Service where
  signingKey : List UInt8
  sessions : SessionManager := {}

/-- The cookie's value; `jti` is what `GenerateJTI` makes. -/
def Service.setSessionCookie (codec : Codec) (s : Service) (now : Int) (jti : String) : String :=
  signToken codec { issuedAt := now, expiresAt := now + sessionMaxAge, jti } s.signingKey

def Service.logout (s : Service) (now : Int) : Service :=
  { s with sessions := s.sessions.invalidate now }

/-- `cookie` is the value of the session cookie, if the request has one. -/
def Service.validateRequest (codec : Codec) (s : Service) (now : Int) (cookie : Option String) :
    Option Claims :=
  match cookie with
  | none => none
  | some token =>
    match verifyToken codec token s.signingKey now with
    | .error _ => none
    | .ok claims => if !s.sessions.isValid claims.issuedAt then none else some claims

/-! ## Runs -/

/-- History: a token that was issued. -/
structure Login where
  time : Int
  token : String

/-- History: a request, and whether it got past the middleware. -/
structure Visit where
  time : Int
  cookie : Option String
  accepted : Bool

structure Server where
  clock : Int
  service : Service
  logins : List Login := []
  logouts : List Int := []
  visits : List Visit := []

inductive Event
  /-- The password was right. -/
  | login (jti : String)
  | logout
  | request (cookie : Option String)

namespace Server

def handle (codec : Codec) (s : Server) : Event → Server
  | .login jti =>
    { s with logins := s.logins ++ [⟨s.clock, s.service.setSessionCookie codec s.clock jti⟩] }
  | .logout => { s with service := s.service.logout s.clock, logouts := s.logouts ++ [s.clock] }
  | .request cookie =>
    let accepted := (s.service.validateRequest codec s.clock cookie).isSome
    { s with visits := s.visits ++ [⟨s.clock, cookie, accepted⟩] }

/-- An event some time after the one before. -/
structure Step where
  wait : Nat
  event : Event

def step (codec : Codec) (s : Server) (i : Step) : Option Server :=
  some ({ s with clock := s.clock + i.wait + 1 }.handle codec i.event)

def start (clock : Int) (signingKey : List UInt8) : Server := { clock, service := { signingKey } }

/-- What the history says about the state and about the answers given. -/
structure Recorded (codec : Codec) (key : List UInt8) (s : Server) : Prop where
  sameKey : s.service.signingKey = key
  past : ∀ l ∈ s.logouts, l ≤ s.clock
  asked : ∀ v ∈ s.visits, v.time ≤ s.clock
  valid : ∀ t, s.service.sessions.isValid t = true ↔ ∀ l ∈ s.logouts, l < t
  signed : ∀ i ∈ s.logins, ∃ jti,
    i.token = signToken codec { issuedAt := i.time, expiresAt := i.time + sessionMaxAge, jti } key
  judged : ∀ v ∈ s.visits, ∀ token, v.cookie = some token →
    (v.accepted = true ↔ ∃ claims, verifyToken codec token key v.time = .ok claims ∧
      ∀ l ∈ s.logouts, l < v.time → l < claims.issuedAt)

variable {codec : Codec} {key : List UInt8} {s t : Server}

theorem recorded_start (clock : Int) : Recorded codec key (start clock key) where
  sameKey := rfl
  past := nofun
  asked := nofun
  valid _ := ⟨nofun, fun _ => rfl⟩
  signed := nofun
  judged := nofun

/-- Time passes until just before the next event. -/
theorem recorded_wait (before : Recorded codec key s) (d : Nat) :
    Recorded codec key { s with clock := s.clock + d } where
  sameKey := before.sameKey
  past l member := by
    have := before.past l member
    dsimp only
    omega
  asked v member := by
    have := before.asked v member
    dsimp only
    omega
  valid := before.valid
  signed := before.signed
  judged := before.judged

theorem accepted_iff (before : Recorded codec key s) (token : String) (now : Int) :
    (s.service.validateRequest codec now (some token)).isSome = true ↔
      ∃ claims, verifyToken codec token key now = .ok claims ∧ ∀ l ∈ s.logouts, l < claims.issuedAt := by
  unfold Service.validateRequest
  dsimp only
  rw [before.sameKey]
  cases verifyToken codec token key now with
  | error e => simp
  | ok claims =>
    have valid := before.valid claims.issuedAt
    cases judged : s.service.sessions.isValid claims.issuedAt with
    | true => simpa [judged] using valid
    | false => simpa [judged] using valid

theorem recorded_handle (before : Recorded codec key s) (late : ∀ l ∈ s.logouts, l < s.clock)
    (answered : ∀ v ∈ s.visits, v.time < s.clock) (e : Event) :
    Recorded codec key (s.handle codec e) := by
  cases e with
  | login jti =>
    refine ⟨before.sameKey, before.past, before.asked, before.valid, ?_, before.judged⟩
    intro i member
    rcases List.mem_append.mp member with old | new
    · exact before.signed i old
    · rw [List.mem_singleton.mp new, ← before.sameKey]
      exact ⟨jti, rfl⟩
  | logout =>
    refine ⟨before.sameKey, ?_, before.asked, ?_, before.signed, ?_⟩
    · intro l member
      rcases List.mem_append.mp member with old | new
      · exact before.past l old
      · exact (List.mem_singleton.mp new).le
    · -- the latest logout is the one that counts
      intro t
      change decide (t > s.clock) = true ↔ ∀ l ∈ s.logouts ++ [s.clock], l < t
      rw [decide_eq_true_eq, List.forall_mem_append, List.forall_mem_singleton]
      exact ⟨fun after => ⟨fun l member => (late l member).trans after, after⟩, And.right⟩
    · -- it is no earlier than any request answered
      intro v member token cookie
      have earlier := answered v member
      refine (before.judged v member token cookie).trans (exists_congr fun claims =>
        and_congr_right fun _ => ?_)
      change _ ↔ ∀ l ∈ s.logouts ++ [s.clock], l < v.time → l < claims.issuedAt
      rw [List.forall_mem_append, List.forall_mem_singleton]
      exact ⟨fun all => ⟨all, fun soon => absurd soon (not_lt.mpr earlier.le)⟩, And.left⟩
  | request cookie =>
    refine ⟨before.sameKey, before.past, ?_, before.valid, before.signed, ?_⟩
    · intro v member
      rcases List.mem_append.mp member with old | new
      · exact before.asked v old
      · rw [List.mem_singleton.mp new]
        exact le_refl s.clock
    · intro v member token sent
      rcases List.mem_append.mp member with old | new
      · exact before.judged v old token sent
      · cases List.mem_singleton.mp new
        have cookie : cookie = some token := sent
        subst cookie
        refine (accepted_iff before token s.clock).trans (exists_congr fun claims =>
          and_congr_right fun _ => ?_)
        exact ⟨fun all l member _ => all l member, fun all l member => all l member (late l member)⟩

theorem recorded_step {i : Step} (before : Recorded codec key s) (made : s.step codec i = some t) :
    Recorded codec key t := by
  cases made
  have waited := recorded_wait before (i.wait + 1)
  have later : s.clock + ((i.wait + 1 : Nat) : Int) = s.clock + i.wait + 1 := by omega
  rw [later] at waited
  refine recorded_handle waited (fun l member => ?_) (fun v member => ?_) i.event
  · have := before.past l member
    dsimp only
    omega
  · have := before.asked v member
    dsimp only
    omega

theorem recorded_run {clock : Int} {steps : List Step}
    (run : exec (step codec) (start clock key) steps = some s) : Recorded codec key s := by
  have any : Along (step codec) (fun _ _ => True) (start clock key) steps :=
    along_of_forall fun _ _ => trivial
  exact exec_invariant (fun _ _ _ before _ made => recorded_step before made)
    (recorded_start clock) any run

/-! ## Logouts between -/

/-- A request with the token, up to the token's expiry, is let in when no logout since falls on or
after the second the token was issued in. -/
theorem accepted_iff_second (recorded : Recorded codec key s) {i : Login} {v : Visit}
    (issued : i ∈ s.logins) (asked : v ∈ s.visits) (sent : v.cookie = some i.token)
    (fresh : v.time ≤ unix (i.time + sessionMaxAge) * second) :
    v.accepted = true ↔ ∀ l ∈ s.logouts, l < v.time → l < unix i.time * second := by
  obtain ⟨jti, token⟩ := recorded.signed i issued
  rw [recorded.judged v asked i.token sent, token, verifyToken_signToken, if_neg (not_lt.mpr fresh)]
  constructor
  · rintro ⟨claims, read, all⟩
    cases read
    exact all
  · exact fun all => ⟨_, rfl, all⟩

/-- A logout while the token is out. -/
def LoggedOut (s : Server) (i : Login) (v : Visit) : Prop := ∃ l ∈ s.logouts, i.time < l ∧ l < v.time

theorem accepted_iff_not_loggedOut (key : List UInt8) (clock : Int) (steps : List Step) (s : Server)
    (run : exec (step codec) (start clock key) steps = some s) (i : Login) (issued : i ∈ s.logins)
    (v : Visit) (asked : v ∈ s.visits) (sent : v.cookie = some i.token) (later : i.time < v.time)
    (fresh : v.time ≤ unix (i.time + sessionMaxAge) * second) :
    (v.accepted = true ↔ ¬s.LoggedOut i v) ↔
      s.LoggedOut i v ∨ ∀ l ∈ s.logouts, l ≤ i.time → l < unix i.time * second := by
  have accepted := accepted_iff_second (recorded_run run) issued asked sent fresh
  have start := unix_mul_second_le i.time
  by_cases out : s.LoggedOut i v
  · -- the token is turned away, as it should be
    obtain ⟨l, member, after, before⟩ := out
    have refused : ¬v.accepted = true := by
      intro passed
      have := accepted.mp passed l member before
      omega
    have out : s.LoggedOut i v := ⟨l, member, after, before⟩
    simp [refused, out]
  · have earlier : ∀ l ∈ s.logouts, l < v.time ↔ l ≤ i.time := by
      intro l member
      constructor
      · intro before
        exact not_lt.mp fun after => out ⟨l, member, after, before⟩
      · intro before
        exact before.trans_lt later
    have same : v.accepted = true ↔ ∀ l ∈ s.logouts, l ≤ i.time → l < unix i.time * second := by
      rw [accepted]
      exact forall₂_congr fun l member => by rw [earlier l member]
    simp [out, same]

/-! ## A login right after a logout -/

/-- The claims separated by commas. -/
def commaText (p : Payload) : List Char :=
  (toString p.exp).toList ++ ',' :: ((toString p.iat).toList ++ ',' :: p.jti.toList)

def readCommaText (cs : List Char) : Option Payload := do
  let (exp, rest) ← Text.cut ',' cs
  let (iat, jti) ← Text.cut ',' rest
  return { iat := Text.readInt iat, exp := Text.readInt exp, jti := .ofList jti }

theorem readCommaText_commaText (p : Payload) : readCommaText (commaText p) = some p := by
  have comma (n : Int) : ',' ∉ (toString n).toList := fun member =>
    Text.forall_mem_toString (p := fun c => c ≠ ',') (fun _ digit same => by subst same; cases digit)
      (by decide) n ',' member rfl
  rw [readCommaText, commaText, Text.cut_append (comma p.exp), Option.bind_eq_bind, Option.bind_some]
  dsimp only
  rw [Text.cut_append (comma p.iat), Option.bind_some, Text.readInt_toString, Text.readInt_toString,
    String.ofList_toList]
  rfl

theorem fromUTF8?_toByteArray (s : String) : String.fromUTF8? s.toByteArray = some s :=
  dif_pos s.isValidUTF8

/-- A codec that tells apart what JSON does. -/
def commaCodec : Codec where
  marshal p := (String.ofList (commaText p)).toByteArray.data.toList
  unmarshal bs := (String.fromUTF8? (ByteArray.mk bs.toArray)).bind fun s => readCommaText s.toList
  algorithm _ := some "HS256"
  hmac key _ := key
  unmarshal_marshal p := by
    rw [Array.toArray_toList]
    change (String.fromUTF8? (String.ofList (commaText p)).toByteArray).bind _ = _
    rw [fromUTF8?_toByteArray, Option.bind_some, String.toList_ofList, readCommaText_commaText]
  algorithm_header := rfl

/-- A logout, a login, and a request with its token. -/
def relogin (logoutAt loginAt requestAt : Nat) : List Step :=
  let token := (Service.mk [] {}).setSessionCookie commaCodec loginAt "a"
  [⟨logoutAt - 1, .logout⟩, ⟨loginAt - logoutAt - 1, .login "a"⟩,
    ⟨requestAt - loginAt - 1, .request (some token)⟩]

theorem exec_relogin (logoutAt loginAt requestAt : Nat) (first : 0 < logoutAt)
    (second : logoutAt < loginAt) (third : loginAt < requestAt) :
    ∃ s accepted, exec (step commaCodec) (start 0 []) (relogin logoutAt loginAt requestAt) = some s ∧
      s.logouts = [(logoutAt : Int)] ∧
      let token := (Service.mk [] {}).setSessionCookie commaCodec loginAt "a"
      s.logins = [⟨loginAt, token⟩] ∧ s.visits = [⟨requestAt, some token, accepted⟩] := by
  have logout : (0 : Int) + (logoutAt - 1 : Nat) + 1 = logoutAt := by omega
  have login : (logoutAt : Int) + (loginAt - logoutAt - 1 : Nat) + 1 = loginAt := by omega
  have request : (loginAt : Int) + (requestAt - loginAt - 1 : Nat) + 1 = requestAt := by omega
  simp only [relogin, exec, step, start, handle, Option.bind_some, logout, login, request]
  exact ⟨_, _, rfl, rfl, rfl, rfl⟩

theorem accepted_iff_not_loggedOut_later :
    ∃ s i v, exec (step commaCodec) (start 0 []) (relogin 500000000 1600000000 1700000000) = some s ∧
      i ∈ s.logins ∧ v ∈ s.visits ∧
      ((v.accepted = true ↔ ¬s.LoggedOut i v) ↔
        s.LoggedOut i v ∨ ∀ l ∈ s.logouts, l ≤ i.time → l < unix i.time * second) := by
  obtain ⟨s, accepted, run, -, logins, visits⟩ :=
    exec_relogin 500000000 1600000000 1700000000 (by decide) (by decide) (by decide)
  have issued := logins ▸ List.mem_cons_self
  have asked := visits ▸ List.mem_cons_self
  have later : ((1600000000 : Nat) : Int) < (1700000000 : Nat) := by decide
  have fresh : ((1700000000 : Nat) : Int) ≤ unix ((1600000000 : Nat) + sessionMaxAge) * second := by
    decide
  exact ⟨s, _, _, run, issued, asked,
    accepted_iff_not_loggedOut [] 0 _ s run _ issued _ asked rfl later fresh⟩

/-- A login a tenth of a second after a logout: its token is turned away. -/
theorem relogin_refused :
    ¬∀ (codec : Codec) (key : List UInt8) (clock : Int) (steps : List Step) (s : Server),
      exec (step codec) (start clock key) steps = some s →
      ∀ i ∈ s.logins, ∀ v ∈ s.visits, v.cookie = some i.token → i.time < v.time →
        v.time ≤ unix (i.time + sessionMaxAge) * second →
        (v.accepted = true ↔ ¬s.LoggedOut i v) := by
  intro claimed
  obtain ⟨s, accepted, run, logouts, logins, visits⟩ :=
    exec_relogin 500000000 600000000 700000000 (by decide) (by decide) (by decide)
  have issued := logins ▸ List.mem_cons_self
  have asked := visits ▸ List.mem_cons_self
  have later : ((600000000 : Nat) : Int) < (700000000 : Nat) := by decide
  have fresh : ((700000000 : Nat) : Int) ≤ unix ((600000000 : Nat) + sessionMaxAge) * second := by
    decide
  have between := claimed commaCodec [] 0 _ s run _ issued _ asked rfl later fresh
  have cut := accepted_iff_second (recorded_run run) issued asked rfl fresh
  rw [LoggedOut, logouts] at between
  rw [logouts] at cut
  -- the only logout is before the login, in its second
  have inside : ¬∀ l ∈ [((500000000 : Nat) : Int)], l < (700000000 : Nat) →
      l < unix (600000000 : Nat) * second := by decide
  have outside : ¬∃ l ∈ [((500000000 : Nat) : Int)], ((600000000 : Nat) : Int) < l ∧ l < (700000000 : Nat) := by
    decide
  exact inside (cut.mp (between.mpr outside))

end Server

end Dockgraph.Auth
