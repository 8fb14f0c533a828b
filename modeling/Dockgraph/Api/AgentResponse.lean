import Dockgraph.Api.AgentProxy
import Dockgraph.Api.RemoteMask
import Dockgraph.Library.Http

/-!
# Agents' answers to clients (`api/remote.go`)

A container's requests go to the agent of its node through a reverse proxy, whose writer lets nothing through
but the final status, the body and a few headers. Whatever an agent sends, the client sees an answer of the
server's own making.
-/
namespace Dockgraph.Api

open Checks Http

/-! ## The server's own answers (`api/validation.go`, `api/server.go`) -/

/-- `^[a-zA-Z0-9][a-zA-Z0-9_.-]+$` -/
def validResourceName (name : String) : Bool :=
  match name.toList with
  | c :: d :: rest =>
    c.isAlphanum && (d :: rest).all fun c => c.isAlphanum || c = '_' || c = '.' || c = '-'
  | _ => false

/-- `{"error": msg}`, of texts with nothing to escape. -/
def errorBody (msg : String) : Bytes := ("\x7b\"error\":\"" ++ msg ++ "\"\x7d\n").toUTF8.toList

def jsonError (msg : String) (code : Nat) : List Call :=
  [.header fun h => h.set "Content-Type" "application/json", .writeHeader code, .write (errorBody msg)]

def contentSecurityPolicy : String :=
  "default-src 'self'; style-src 'self' 'unsafe-inline'; connect-src 'self'; " ++
    "base-uri 'none'; form-action 'self'; frame-ancestors 'none'"

/-- What `securityHeaders` sets before the handler runs. -/
def securityHeaders : Header :=
  ((((((Header.none.set "X-Content-Type-Options" "nosniff").set "X-Frame-Options" "DENY").set
    "Content-Security-Policy" contentSecurityPolicy).set "Referrer-Policy" "strict-origin-when-cross-origin").set
    "Permissions-Policy" "camera=(), microphone=(), geolocation=()").set "X-XSS-Protection" "0")

/-! ## Agents -/

def maxRemoteResponseBytes : Nat := 4 <<< 20

def maxRemoteInspectBytes : Nat := 1 <<< 20

inductive ProxyError
  | unreachable
  | auth
  | unexpected
  | tooLarge
  | read
  | inspect (e : DecodeError)

def errAgentAuth : String :=
  "agent rejected the server's credentials (check DG_AGENT_KEY on the server against DG_AGENT_PUBLIC_KEY on the " ++
    "agents, or DG_AGENT_TOKEN without keys)"

def errAgentBusy : String := "too many requests for this node's agent; retry shortly"

/-- An informational response. -/
structure Info where
  code : Nat
  header : Header
  informational : 100 ≤ code ∧ code < 200

/-- An agent's final response, with its body as it arrives. -/
structure AgentAnswer where
  status : Nat
  header : Header
  contentLength : Option Nat
  chunks : List Bytes
  /-- Reading on fails after the chunks. -/
  broken : Bool
  announced : List String
  trailer : List (String × List String)
  threeDigits : status ≤ 999

/-- What comes back for a request: `none` when nothing does. -/
structure RoundTrip where
  infos : List Info
  answer : Option AgentAnswer

/-- What an agent is sent. -/
structure AgentRequest where
  method : String
  scheme : String
  host : String
  path : String
  rawQuery : String
  accept : Option String
  body : Bytes
  credentials : Option String
  deriving DecidableEq

/-! ## What is made of an answer -/

def agentResponseHeader (status : Nat) (stream : Bool) : Header :=
  if stream ∧ status = 200 then
    ((Header.none.set "Content-Type" "text/event-stream").set "Cache-Control" "no-cache").set "X-Accel-Buffering" "no"
  else Header.none.set "Content-Type" "application/json"

/-- At most a byte more than the limit is read, so what fails past it is not noticed. -/
def readBounded (a : AgentAnswer) (limit : Nat) : Except ProxyError Bytes :=
  if a.contentLength.any (limit < ·) then .error .tooLarge
  else
    let body := a.chunks.flatten.take (limit + 1)
    if limit < body.length then .error .tooLarge
    else if a.broken then .error .read
    else .ok body

/-- The trailers have come with the body that was read. -/
def setBody (a : AgentAnswer) (body : Bytes) : AgentAnswer :=
  { a with
    chunks := [body]
    broken := false
    announced := a.trailer.map Prod.fst
    contentLength := some body.length
    header := a.header.set "Content-Length" (String.ofList (Nat.toDigits 10 body.length)) }

section Proxy

variable (parse : Bytes → Option Json) (print : Json → Bytes)

/-- `remaskInspect`, on the bytes. -/
def remask (body : Bytes) : Except ProxyError Bytes :=
  ((remaskInspect (parse body)).mapError .inspect).map print

/-- An inspect's body is masked again. -/
def passed (suffix : String) (status : Nat) (body : Bytes) : Except ProxyError Bytes :=
  if suffix = "" ∧ status = 200 then remask parse print body else .ok body

/-- The `ModifyResponse` of a route. -/
def modifyResponse (suffix : String) (stream : Bool) (a : AgentAnswer) : Except ProxyError AgentAnswer :=
  if a.status = 401 ∨ a.status = 403 then .error .auth
  else if a.status < 400 ∧ a.status ≠ 200 then .error .unexpected
  else
    let a := { a with header := agentResponseHeader a.status stream }
    -- only a log stream is read as it comes
    if stream ∧ a.status = 200 then .ok a
    else do
      let body ← readBounded a (if suffix = "" then maxRemoteInspectBytes else maxRemoteResponseBytes)
      let body ← passed parse print suffix a.status body
      return setBody a body

def ProxyError.msg : ProxyError → String
  | .auth => errAgentAuth
  | _ => "agent unreachable"

/-- The `ErrorHandler` of a route; the client of a stream may be gone. -/
def errorHandler (stream gone : Bool) (e : ProxyError) : List Call :=
  if gone ∧ stream then []
  else jsonError e.msg 502

/-- What `httputil.ReverseProxy` does with an answer: its header is copied, its body flushed write by write, and
its trailers follow. -/
def copied (a : AgentAnswer) : List Call :=
  -- `handleUpgradeResponse`
  if a.status = 101 then [.hijack]
  else
    [.header fun h => h.add a.header] ++
      (if a.announced = [] then [] else
        [.header fun h => h.add (Header.none.set "Trailer" (", ".intercalate a.announced))]) ++
      [.writeHeader a.status, .flush] ++ (a.chunks.flatMap fun p => [.write p, .flush]) ++
      if a.broken then [.abort]
      else (if a.trailer = [] then [] else [.flush]) ++
        a.trailer.map fun (k, values) =>
          let name := if a.trailer.length = a.announced.length then k else "Trailer:" ++ k
          .header fun h n => if n = name then h n ++ values else h n

/-- `httputil.ReverseProxy`, past the request. Informational responses are passed on with their headers, and the
map is cleared after each. -/
def reverseProxy (modify : AgentAnswer → Except ProxyError AgentAnswer) (onError : ProxyError → List Call)
    (trip : RoundTrip) : List Call :=
  (trip.infos.flatMap fun i => [.header fun h => h.add i.header, .writeHeader i.code, .header fun _ => .none]) ++
    match trip.answer with
    | none => onError .unreachable
    | some a =>
      match modify a with
      | .error e => onError e
      | .ok a => copied a

end Proxy

/-! ## The writer -/

def agentResponseHeaders : List String := ["Content-Type", "Content-Length", "Cache-Control", "X-Accel-Buffering"]

structure AgentResponseWriter where
  w : Response
  header : Header := .none
  wrote : Bool := false

namespace AgentResponseWriter

/-- The kept headers are set on the client's response. -/
def keep (h client : Header) : Header := fun name =>
  if name ∈ agentResponseHeaders ∧ h name ≠ [] then h name else client name

def writeHeader (a : AgentResponseWriter) (code : Nat) : AgentResponseWriter :=
  if a.wrote ∨ code < 200 then a
  else
    { w := { a.w with header := keep a.header a.w.header }.writeHeader code
      header := .none
      wrote := true }

def write (a : AgentResponseWriter) (p : Bytes) : AgentResponseWriter :=
  let a := if a.wrote then a else a.writeHeader 200
  { a with w := a.w.write p }

def call (a : AgentResponseWriter) : Call → AgentResponseWriter
  | .header f => { a with header := f a.header }
  | .writeHeader code => a.writeHeader code
  | .write p => a.write p
  | .flush => { a with w := a.w.call .flush }
  -- it has no `Hijack`
  | .hijack => a
  | .abort => { a with w := a.w.call .abort }

def run (a : AgentResponseWriter) (calls : List Call) : AgentResponseWriter := calls.foldl call a

end AgentResponseWriter

/-! ## Routes (`AgentProxy.wrap`) -/

structure ClientRequest where
  id : String
  method : String
  rawQuery : String
  header : Header
  body : Bytes

/-- What the local daemon says of a container. -/
inductive Probe
  | present
  | notFound
  | failed
  deriving DecidableEq

structure Target where
  scheme : String
  host : String

/-- What stands around a route while it answers a request. -/
structure Surroundings where
  probe : Probe
  /-- `LocateContainer` -/
  located : Option String
  credentialsRejected : Bool
  now : ℚ
  /-- The client has left by the time an error is to be answered. -/
  gone : Bool

def agentAPIPrefix : String := "/agent/v1"

/-- The request `Rewrite` makes: the browser's own header is left behind but for what it accepts. A valid
name needs no escaping. -/
def rewritten (target : Target) (suffix : String) (r : ClientRequest) : AgentRequest where
  method := r.method
  scheme := target.scheme
  host := target.host
  path := agentAPIPrefix ++ "/containers/" ++ r.id ++ suffix
  rawQuery := r.rawQuery
  accept := (r.header "Accept").head?.filter (· ≠ "")
  body := r.body
  credentials := none

section Routes

variable (parse : Bytes → Option Json) (print : Json → Bytes) (parseURL : String → Option Target)
  (authorize : AgentRequest → AgentRequest) (agent : AgentRequest → RoundTrip)
  (clientKey : Option (ClientRequest → String)) (own : ClientRequest → List Call) (suffix : String) (stream : Bool)

/-- What the route does with its writer, and what the proxy becomes. -/
def wrap (p : AgentProxy) (s : Surroundings) (r : ClientRequest) (w : Response) : Response × AgentProxy :=
  if !validResourceName r.id then (w.run (own r), p)
  else if s.probe ≠ .notFound then (w.run (own r), p)
  else match s.located with
    | none => if s.credentialsRejected then (w.run (jsonError errAgentAuth 502), p) else (w.run (own r), p)
    | some base =>
      match (parseURL base).filter fun target => target.host ≠ "" with
      | none => (w.run (own r), p)
      | some target =>
        let (allowed, p) := p.allowRequest clientKey r target.host s.now
        if !allowed then
          (w.run (.header (fun h => h.set "Retry-After" "1") :: jsonError errAgentBusy 503), p)
        else
          let calls := reverseProxy (modifyResponse parse print suffix stream) (errorHandler stream s.gone)
            (agent (authorize (rewritten target suffix r)))
          ((({ w } : AgentResponseWriter).run calls).w, p)

/-! ## What a client is to see -/

inductive Answered
  /-- The server's own handler answers. -/
  | own (calls : List Call)
  | error (msg : String) (code : Nat)
  | busy
  | whole (status : Nat) (body : Bytes)
  | stream (body : Bytes) (broken : Bool)
  | nothing

/-- An answer is within what is read whole. -/
def Whole (a : AgentAnswer) (limit : Nat) : Prop :=
  a.contentLength.all (· ≤ limit) ∧ a.chunks.flatten.length ≤ limit ∧ a.broken = false

instance (a : AgentAnswer) (limit : Nat) : Decidable (Whole a limit) := inferInstanceAs (Decidable (_ ∧ _ ∧ _))

/-- The body of an answer that is read whole. -/
def wholeBody (a : AgentAnswer) : Option Bytes :=
  if Whole a (if suffix = "" then maxRemoteInspectBytes else maxRemoteResponseBytes) then
    (passed parse print suffix a.status a.chunks.flatten).toOption
  else none

/-- What becomes of an agent's answer. -/
def answered (gone : Bool) (answer : Option AgentAnswer) : Answered :=
  let unreachable := if gone ∧ stream then .nothing else .error "agent unreachable" 502
  match answer with
  | none => unreachable
  | some a =>
    if a.status = 401 ∨ a.status = 403 then
      if gone ∧ stream then .nothing else .error errAgentAuth 502
    else if stream ∧ a.status = 200 then .stream a.chunks.flatten a.broken
    else if a.status = 200 ∨ 400 ≤ a.status then
      match wholeBody parse print suffix a with
      | some body => .whole a.status body
      | none => unreachable
    else unreachable

def Answered.seen : Answered → Seen
  | .own calls => (({ header := securityHeaders } : Response).run calls).seen
  | .error msg code =>
    ⟨[], some (code, securityHeaders.set "Content-Type" "application/json"), errorBody msg, .none, false, false⟩
  | .busy =>
    ⟨[], some (503, (securityHeaders.set "Retry-After" "1").set "Content-Type" "application/json"),
      errorBody errAgentBusy, .none, false, false⟩
  | .whole status body =>
    ⟨[], some (status, (securityHeaders.set "Content-Type" "application/json").set "Content-Length"
      (String.ofList (Nat.toDigits 10 body.length))), body, .none, false, false⟩
  | .stream body broken =>
    ⟨[], some (200, ((securityHeaders.set "Content-Type" "text/event-stream").set "Cache-Control" "no-cache").set
      "X-Accel-Buffering" "no"), body, .none, false, broken⟩
  | .nothing => ⟨[], some (200, securityHeaders), [], .none, false, false⟩

end Routes

/-! ## Past the writer -/

namespace AgentResponseWriter

variable {a : AgentResponseWriter}

theorem run_append (a : AgentResponseWriter) (calls more : List Call) :
    a.run (calls ++ more) = (a.run calls).run more := List.foldl_append

/-- An informational response leaves no trace. -/
theorem run_infos (empty : a.header = .none) (infos : List Info) :
    a.run (infos.flatMap fun i => [.header fun h => h.add i.header, .writeHeader i.code, .header fun _ => .none]) =
      a := by
  induction infos with
  | nil => rfl
  | cons i infos ih =>
    have dropped (h : Header) : ({ a with header := h } : AgentResponseWriter).writeHeader i.code = { a with header := h } :=
      if_pos (.inr i.informational.2)
    have first : a.run [.header fun h => h.add i.header, .writeHeader i.code, .header fun _ => .none] = a := by
      simp only [run, List.foldl_cons, List.foldl_nil, call, dropped]
      rw [← empty]
    rw [List.flatMap_cons, run_append, first, ih]

/-- Calls that reach the client's response. -/
def Passed : Call → Prop
  | .write _ | .flush | .abort => True
  | _ => False

/-- Past the status, the header is the writer's own. -/
theorem run_passed (wrote : a.wrote = true) (calls : List Call) (passed : ∀ c ∈ calls, Passed c) :
    a.run calls = { a with w := a.w.run calls } := by
  induction calls generalizing a with
  | nil => rfl
  | cons c calls ih =>
    have one : a.call c = { a with w := a.w.call c } := by
      have known := passed c List.mem_cons_self
      cases c <;> simp_all [Passed, call, write, Response.call]
    have rest := ih (a := { a with w := a.w.call c }) wrote fun d listed => passed d (List.mem_cons_of_mem _ listed)
    simp only [run, List.foldl_cons, one] at rest ⊢
    exact rest

theorem run_headers (a : AgentResponseWriter) (calls : List Call) (headers : ∀ c ∈ calls, ∃ f, c = .header f) :
    (a.run calls).w = a.w := by
  induction calls generalizing a with
  | nil => rfl
  | cons c calls ih =>
    obtain ⟨f, rfl⟩ := headers c List.mem_cons_self
    exact ih { a with header := f a.header } fun d listed => headers d (List.mem_cons_of_mem _ listed)

/-- What the client's response becomes when the proxy copies an answer. -/
theorem run_copied {r : Response} (fresh : r.head = none) (answer : AgentAnswer) (final : 200 ≤ answer.status)
    (allowed : bodyAllowedForStatus answer.status = true)
    (room : ∀ n, contentLength (keep answer.header r.header) = some n →
      r.body.length + answer.chunks.flatten.length ≤ n) :
    (({ w := r } : AgentResponseWriter).run (copied answer)).w =
      { r with
        header := keep answer.header r.header
        head := some (answer.status, keep answer.header r.header)
        body := r.body ++ answer.chunks.flatten
        aborted := r.aborted || answer.broken } := by
  have upgrade : answer.status ≠ 101 := by omega
  -- the names of the trailers are no kept header
  obtain ⟨h, headers, kept⟩ : ∃ h : Header,
      ({ w := r } : AgentResponseWriter).run ([.header fun h => h.add answer.header] ++
        if answer.announced = [] then [] else
          [.header fun h => h.add (Header.none.set "Trailer" (", ".intercalate answer.announced))]) =
        { w := r, header := h } ∧ keep h r.header = keep answer.header r.header := by
    by_cases none : answer.announced = []
    · exact ⟨answer.header, by rw [if_pos none]; rfl, rfl⟩
    · refine ⟨answer.header.add (Header.none.set "Trailer" (", ".intercalate answer.announced)), ?_, ?_⟩
      · rw [if_neg none]
        rfl
      · funext name
        by_cases trailer : name = "Trailer"
        · subst trailer
          simp [keep, agentResponseHeaders]
        · simp [keep, trailer]
  have written : ({ w := r, header := h } : AgentResponseWriter).run [.writeHeader answer.status, .flush] =
      { w := { r with
          header := keep answer.header r.header, head := some (answer.status, keep answer.header r.header) }
        wrote := true } := by
    have status : ({ w := r, header := h } : AgentResponseWriter).writeHeader answer.status =
        { w := { r with
            header := keep answer.header r.header, head := some (answer.status, keep answer.header r.header) }
          wrote := true } := by
      have head := Response.writeHeader_final (r := { r with header := keep h r.header }) fresh final answer.threeDigits
      rw [writeHeader, if_neg (by simp; omega), head, kept]
    simp [run, call, status, Response.call, Response.begun]
  have body := Response.run_writes (r := { r with
    header := keep answer.header r.header, head := some (answer.status, keep answer.header r.header) })
    rfl allowed answer.chunks room
  have passed : ∀ c ∈ answer.chunks.flatMap (fun p => [Call.write p, .flush]), Passed c := by
    simp only [List.mem_flatMap, List.mem_cons, List.not_mem_nil, or_false]
    rintro c ⟨p, -, rfl | rfl⟩ <;> trivial
  rw [copied, if_neg upgrade, run_append, run_append, run_append, headers, written, run_passed rfl _ passed, body]
  cases broken : answer.broken with
  | true => simp [run, call, Response.call]
  | false =>
    rw [if_neg (by simp), run_append, run_headers]
    · by_cases none : answer.trailer = []
      · simp [none, run]
      · simp [none, run, call, Response.call, Response.begun]
    · intro c listed
      obtain ⟨entry, -, rfl⟩ := List.mem_map.mp listed
      exact ⟨_, rfl⟩

/-- An error of the proxy comes before any status. -/
theorem run_jsonError {r : Response} (fresh : r.head = none) (msg : String) {code : Nat} (final : 200 ≤ code)
    (valid : code ≤ 999) (allowed : bodyAllowedForStatus code = true)
    (unsized : contentLength (r.header.set "Content-Type" "application/json") = none) :
    (({ w := r } : AgentResponseWriter).run (jsonError msg code)).w =
      { r with
        header := r.header.set "Content-Type" "application/json"
        head := some (code, r.header.set "Content-Type" "application/json")
        body := r.body ++ errorBody msg } := by
  have kept : keep (Header.none.set "Content-Type" "application/json") r.header =
      r.header.set "Content-Type" "application/json" := by
    funext name
    by_cases type : name = "Content-Type" <;> simp [keep, agentResponseHeaders, type]
  have head := Response.writeHeader_final
    (r := { r with header := r.header.set "Content-Type" "application/json" }) fresh final valid
  have body := Response.write_of_room (p := errorBody msg) (r := { r with
    header := r.header.set "Content-Type" "application/json"
    head := some (code, r.header.set "Content-Type" "application/json") }) rfl allowed (by simp [unsized])
  have status : ({ w := r, header := Header.none.set "Content-Type" "application/json" } : AgentResponseWriter).writeHeader
      code = { w := { r with
        header := r.header.set "Content-Type" "application/json"
        head := some (code, r.header.set "Content-Type" "application/json") }, wrote := true } := by
    rw [writeHeader, if_neg (by simp; omega), kept, head]
  simp only [run, jsonError, List.foldl_cons, List.foldl_nil, call, status, write, if_true, body]

end AgentResponseWriter

/-- The server's own answer, past no writer. -/
theorem run_jsonError {r : Response} (fresh : r.head = none) (msg : String) {code : Nat} (final : 200 ≤ code)
    (valid : code ≤ 999) (allowed : bodyAllowedForStatus code = true)
    (unsized : contentLength (r.header.set "Content-Type" "application/json") = none) :
    r.run (jsonError msg code) =
      { r with
        header := r.header.set "Content-Type" "application/json"
        head := some (code, r.header.set "Content-Type" "application/json")
        body := r.body ++ errorBody msg } := by
  have head := Response.writeHeader_final
    (r := { r with header := r.header.set "Content-Type" "application/json" }) fresh final valid
  have body := Response.write_of_room (p := errorBody msg) (r := { r with
    header := r.header.set "Content-Type" "application/json"
    head := some (code, r.header.set "Content-Type" "application/json") }) rfl allowed (by simp [unsized])
  simp only [Response.run, jsonError, List.foldl_cons, List.foldl_nil, Response.call, head, body]

/-! ## What a client sees -/

theorem quiet_securityHeaders : Quiet securityHeaders :=
  (((((quiet_none.set (by decide) _).set (by decide) _).set (by decide) _).set (by decide) _).set (by decide) _).set
    (by decide) _

theorem contentLength_of_absent {h : Header} (absent : h "Content-Length" = []) : contentLength h = none := by
  simp [contentLength, absent]

/-- The length promised is the length written. -/
theorem contentLength_set (h : Header) (n : Nat) {m : Nat}
    (promised : contentLength (h.set "Content-Length" (String.ofList (Nat.toDigits 10 n))) = some m) : m = n := by
  have text : (String.ofList (Nat.toDigits 10 n)).toList = Nat.toDigits 10 n := String.toList_ofList
  simp only [contentLength, Header.set_apply, if_true, List.head?_cons, Option.bind_some, text,
    Text.parseUint_toDigits_eq, Option.ite_none_right_eq_some, Option.some_inj] at promised
  exact promised.2.symm

theorem readBounded_whole {a : AgentAnswer} {limit : Nat} (whole : Whole a limit) :
    readBounded a limit = .ok a.chunks.flatten := by
  obtain ⟨length, fits, unbroken⟩ := whole
  have promised : a.contentLength.any (limit < ·) = false := by
    cases known : a.contentLength <;> simp_all
  have all : a.chunks.flatten.take (limit + 1) = a.chunks.flatten := List.take_of_length_le (by omega)
  rw [readBounded, if_neg (by simp [promised])]
  dsimp only
  rw [all, if_neg (by omega), if_neg (by simp [unbroken])]

theorem readBounded_error {a : AgentAnswer} {limit : Nat} (exceeds : ¬Whole a limit) :
    readBounded a limit = .error .tooLarge ∨ readBounded a limit = .error .read := by
  by_cases promised : a.contentLength.any (limit < ·) = true
  · exact .inl (if_pos promised)
  rw [readBounded, if_neg promised]
  by_cases large : limit < (a.chunks.flatten.take (limit + 1)).length
  · exact .inl (if_pos large)
  dsimp only
  rw [if_neg large]
  have fits : a.chunks.flatten.length ≤ limit := by
    rw [List.length_take] at large
    omega
  have length : a.contentLength.all (· ≤ limit) = true := by
    cases known : a.contentLength <;> simp_all
  cases broken : a.broken with
  | true => exact .inr (if_pos rfl)
  | false => exact absurd ⟨length, fits, broken⟩ exceeds

section Routes

variable {parse : Bytes → Option Json} {print : Json → Bytes} {suffix : String} {stream gone : Bool}

theorem seen_errorHandler (e : ProxyError) :
    (({ w := { header := securityHeaders } } : AgentResponseWriter).run (errorHandler stream gone e)).w.seen =
      (if gone ∧ stream then Answered.nothing else .error e.msg 502).seen := by
  by_cases left : gone ∧ stream
  · rw [errorHandler, if_pos left, if_pos left]
    exact Response.seen_of_quiet (r := ({ header := securityHeaders } : Response).begun) rfl quiet_securityHeaders rfl
  · rw [errorHandler, if_neg left, if_neg left, AgentResponseWriter.run_jsonError rfl _ (by decide) (by decide) (by decide)
      (contentLength_of_absent (by decide))]
    have quiet : Quiet (securityHeaders.set "Content-Type" "application/json") :=
      quiet_securityHeaders.set (by decide) _
    rw [Response.seen_of_quiet rfl quiet rfl]
    cases e <;> rfl

/-- What the client sees of an answer that is copied. -/
theorem seen_copied (a : AgentAnswer) (final : 200 ≤ a.status) (allowed : bodyAllowedForStatus a.status = true)
    {h : Header} (kept : AgentResponseWriter.keep a.header securityHeaders = h) (quiet : Quiet h)
    (room : ∀ n, contentLength h = some n → a.chunks.flatten.length ≤ n) :
    (({ w := { header := securityHeaders } } : AgentResponseWriter).run (copied a)).w.seen =
      ⟨[], some (a.status, h), a.chunks.flatten, .none, false, a.broken⟩ := by
  subst kept
  rw [AgentResponseWriter.run_copied rfl a final allowed (by simpa using room), Response.seen_of_quiet rfl quiet rfl]
  simp

theorem keep_stream :
    AgentResponseWriter.keep (agentResponseHeader 200 true) securityHeaders =
      ((securityHeaders.set "Content-Type" "text/event-stream").set "Cache-Control" "no-cache").set
        "X-Accel-Buffering" "no" := by
  funext name
  by_cases buffering : name = "X-Accel-Buffering"
  · simp [AgentResponseWriter.keep, agentResponseHeader, agentResponseHeaders, buffering]
  by_cases cache : name = "Cache-Control"
  · simp [AgentResponseWriter.keep, agentResponseHeader, agentResponseHeaders, cache]
  by_cases type : name = "Content-Type"
  · simp [AgentResponseWriter.keep, agentResponseHeader, agentResponseHeaders, type]
  simp [AgentResponseWriter.keep, agentResponseHeader, buffering, cache, type]

theorem keep_whole (length : String) :
    AgentResponseWriter.keep ((Header.none.set "Content-Type" "application/json").set "Content-Length" length)
        securityHeaders =
      (securityHeaders.set "Content-Type" "application/json").set "Content-Length" length := by
  funext name
  by_cases sized : name = "Content-Length"
  · simp [AgentResponseWriter.keep, agentResponseHeaders, sized]
  by_cases type : name = "Content-Type"
  · simp [AgentResponseWriter.keep, agentResponseHeaders, type]
  simp [AgentResponseWriter.keep, sized, type]

theorem bodyAllowed_of_answer {status : Nat} (known : status = 200 ∨ 400 ≤ status) :
    bodyAllowedForStatus status = true := by
  simp [bodyAllowedForStatus]
  omega

theorem passed_error {status : Nat} {body : Bytes} {e : ProxyError}
    (failed : passed parse print suffix status body = .error e) : e.msg = "agent unreachable" := by
  rw [passed] at failed
  split at failed
  · rw [remask] at failed
    obtain ⟨e', -, rfl⟩ := mapError_error.mp (map_error.mp failed)
    rfl
  · cases failed

/-- What the route makes of an answer that is not refused, read whole. -/
theorem modifyResponse_whole {a : AgentAnswer} (permitted : ¬(a.status = 401 ∨ a.status = 403))
    (known : a.status = 200 ∨ 400 ≤ a.status) (oneShot : ¬(stream ∧ a.status = 200)) :
    match wholeBody parse print suffix a with
    | some body => modifyResponse parse print suffix stream a =
        .ok (setBody { a with header := Header.none.set "Content-Type" "application/json" } body)
    | none => ∃ e, modifyResponse parse print suffix stream a = .error e ∧ e.msg = "agent unreachable" := by
  have header : agentResponseHeader a.status stream = Header.none.set "Content-Type" "application/json" := if_neg oneShot
  rw [modifyResponse, if_neg permitted, if_neg (by omega)]
  dsimp only
  rw [if_neg oneShot, header]
  -- a body that is cut off or too large is an error, whatever it says
  by_cases whole : Whole a (if suffix = "" then maxRemoteInspectBytes else maxRemoteResponseBytes)
  · rw [wholeBody, if_pos whole,
      readBounded_whole (a := { a with header := Header.none.set "Content-Type" "application/json" }) whole]
    cases body : passed parse print suffix a.status a.chunks.flatten with
    | ok body' => simp [Except.toOption, bind, Except.bind, body, pure, Except.pure]
    | error e => exact ⟨e, by simp [bind, Except.bind, body], passed_error body⟩
  · rw [wholeBody, if_neg whole]
    rcases readBounded_error (a := { a with header := Header.none.set "Content-Type" "application/json" }) whole with
      large | cut
    · exact ⟨.tooLarge, by rw [large]; rfl, rfl⟩
    · exact ⟨.read, by rw [cut]; rfl, rfl⟩

/-- The proxy and its writer make of a round trip what a client is to see of it. -/
theorem seen_reverseProxy (trip : RoundTrip) :
    (({ w := { header := securityHeaders } } : AgentResponseWriter).run
      (reverseProxy (modifyResponse parse print suffix stream) (errorHandler stream gone) trip)).w.seen =
      (answered parse print suffix stream gone trip.answer).seen := by
  rw [reverseProxy, AgentResponseWriter.run_append, AgentResponseWriter.run_infos rfl]
  cases trip.answer with
  | none => exact seen_errorHandler _
  | some a =>
    -- the agent refused the server's own credentials
    by_cases refused : a.status = 401 ∨ a.status = 403
    · have modified : modifyResponse parse print suffix stream a = .error .auth := if_pos refused
      simp only [modified, answered, if_pos refused]
      exact seen_errorHandler _
    -- a live stream is copied as it comes
    by_cases live : stream ∧ a.status = 200
    · have modified : modifyResponse parse print suffix stream a =
          .ok { a with header := agentResponseHeader a.status stream } := by
        rw [modifyResponse, if_neg refused, if_neg (by omega)]
        exact if_pos live
      simp only [modified, answered, if_neg refused, if_pos live]
      obtain ⟨streams, ok⟩ := live
      have quiet : Quiet (((securityHeaders.set "Content-Type" "text/event-stream").set "Cache-Control" "no-cache").set
          "X-Accel-Buffering" "no") :=
        ((quiet_securityHeaders.set (by decide) _).set (by decide) _).set (by decide) _
      rw [seen_copied _ (by simp [ok]) (by simp [ok, bodyAllowedForStatus]) (by simpa [ok, streams] using keep_stream) quiet
        fun n promised => ?_]
      · simp [Answered.seen, ok]
      · rw [contentLength_of_absent (by decide)] at promised
        cases promised
    · -- anything else is read whole first, and redirects are not passed on
      by_cases known : a.status = 200 ∨ 400 ≤ a.status
      · have modified := @modifyResponse_whole parse print suffix stream a refused known live
        simp only [answered, if_neg refused, if_neg live, if_pos known]
        cases read : wholeBody parse print suffix a with
        | none =>
          rw [read] at modified
          obtain ⟨e, failed, msg⟩ := modified
          simp only [failed, ← msg]
          exact seen_errorHandler e
        | some body =>
          rw [read] at modified
          simp only [modified]
          have quiet : Quiet ((securityHeaders.set "Content-Type" "application/json").set "Content-Length"
              (String.ofList (Nat.toDigits 10 body.length))) :=
            (quiet_securityHeaders.set (by decide) _).set (by decide) _
          rw [seen_copied _ (by simp [setBody]; omega) (by simpa [setBody] using bodyAllowed_of_answer known)
            (keep_whole _) quiet fun n promised => ?_]
          · simp [Answered.seen, setBody]
          · rw [contentLength_set _ _ promised]
            simp [setBody]
      · have modified : modifyResponse parse print suffix stream a = .error .unexpected := by
          rw [modifyResponse, if_neg refused]
          exact if_pos (by omega)
        simp only [modified, answered, if_neg refused, if_neg live, if_neg known]
        exact seen_errorHandler _

end Routes

section Client

variable {parse : Bytes → Option Json} {print : Json → Bytes} {parseURL : String → Option Target}
  {authorize : AgentRequest → AgentRequest} {clientKey : Option (ClientRequest → String)}
  {own : ClientRequest → List Call} {suffix : String} {stream : Bool}

/-- A fresh response to a client. -/
def started : Response := { header := securityHeaders }

/-- A client sees its server's answer, or what is to be seen of an agent's, and nothing else the agent sends. -/
theorem wrap_seen (agent : AgentRequest → RoundTrip) (p : AgentProxy) (s : Surroundings) (r : ClientRequest) :
    (wrap parse print parseURL authorize agent clientKey own suffix stream p s r started).1.seen =
      (if validResourceName r.id ∧ s.probe = .notFound then
        match s.located with
        | none => if s.credentialsRejected then .error errAgentAuth 502 else .own (own r)
        | some base =>
          match (parseURL base).filter fun target => target.host ≠ "" with
          | none => .own (own r)
          | some target =>
            if (p.allowRequest clientKey r target.host s.now).1 then
              answered parse print suffix stream s.gone (agent (authorize (rewritten target suffix r))).answer
            else .busy
      else Answered.own (own r)).seen := by
  -- only a container the server does not have is asked of an agent
  by_cases routed : validResourceName r.id ∧ s.probe = .notFound
  · have quiet : Quiet (securityHeaders.set "Content-Type" "application/json") :=
      quiet_securityHeaders.set (by decide) _
    rw [if_pos routed, wrap, if_neg (by simp [routed.1]), if_neg (by simp [routed.2])]
    cases s.located with
    | none =>
      by_cases rejected : s.credentialsRejected
      · simp only [if_pos rejected]
        rw [run_jsonError rfl _ (by decide) (by decide) (by decide) (contentLength_of_absent (by decide))]
        exact Response.seen_of_quiet rfl quiet rfl
      · simp only [if_neg rejected]
        rfl
    | some base =>
      -- a base that is no URL with a host is not asked
      cases url : (parseURL base).filter fun target => target.host ≠ "" with
      | none =>
        simp only [url]
        rfl
      | some target =>
        simp only [url]
        by_cases allowed : (p.allowRequest clientKey r target.host s.now).1 = true
        · rw [if_neg (by simp [allowed]), if_pos allowed]
          exact seen_reverseProxy _
        · have busy : Quiet ((securityHeaders.set "Retry-After" "1").set "Content-Type" "application/json") :=
            (quiet_securityHeaders.set (by decide) _).set (by decide) _
          rw [if_pos (by simpa using allowed), if_neg allowed]
          have run := @run_jsonError { header := securityHeaders.set "Retry-After" "1" } rfl errAgentBusy 503
            (by decide) (by decide) (by decide) (contentLength_of_absent (by decide))
          exact (congrArg Response.seen run).trans (Response.seen_of_quiet rfl busy rfl)
  · rw [if_neg routed, wrap]
    by_cases named : validResourceName r.id = true
    · rw [if_neg (by simp [named]), if_pos fun found => routed ⟨named, found⟩]
      rfl
    · rw [if_pos (by simpa using named)]
      rfl

open Secrets (FlagName PlainValue OutputsAlike flagText isSensitiveKey isBreak)

end Client

end Dockgraph.Api
