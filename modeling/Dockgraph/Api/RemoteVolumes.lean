import Dockgraph.Api.AgentResponse
import Dockgraph.Api.RequestRates

/-!
# Volumes of all nodes (`api/remote_volumes.go`, `api/volumes.go`)

A volume is looked for on every node at once. The goroutines take their turns at the rate limits in any order.
-/
namespace Dockgraph.Api

open Checks Http Secrets TokenBucket

/-! ## The server's own volumes -/

/-- `volume.Volume` -/
structure DockerVolume where
  name : List Char
  driver : List Char := []
  mountpoint : List Char := []
  createdAt : List Char := []
  scope : List Char := []
  status : Option Fields := none
  labels : Option Texts := none
  options : Option Texts := none
  /-- Size and references. -/
  usageData : Option (Int × Int) := none

inductive Inspected
  | volume (v : DockerVolume)
  | notFound
  | failed

structure RemoteAgent where
  hostname : String
  baseURL : String

inductive LookupError
  | request
  | busy
  | credentials
  | unreachable
  | auth
  | body
  | status (code : Nat)
  deriving DecidableEq

/-- Without an error and a response, the node has no such volume. -/
structure VolumeLookup where
  node : String
  answer : Except LookupError (Option Fields)

section Lookups

variable (parse : Bytes → Option Json) (newRequest : String → Option AgentRequest)
  (authorize : AgentRequest → Option AgentRequest) (agent : AgentRequest → Option AgentAnswer)

/-- The request for an agent; a valid name needs no escaping. -/
def volumeRequest (name : String) (a : RemoteAgent) : Option AgentRequest :=
  newRequest (a.baseURL ++ agentAPIPrefix ++ "/volumes/" ++ name)

variable (clientKey : Option (ClientRequest → String)) (r : ClientRequest) (now : Nat → ℚ)

variable (print : Json → Bytes) (localHostname : String) (credentialsRejected : Bool)

/-- The host of an agent that a request can be made for. -/
def hostOf (name : String) (agents : List RemoteAgent) (i : Nat) : Option String :=
  agents[i]?.bind fun a => (volumeRequest newRequest name a).map AgentRequest.host

def VolumeLookup.found (l : VolumeLookup) : Option (String × Fields) :=
  match l.answer with
  | .ok (some resp) => some (l.node, resp)
  | _ => none

def VolumeLookup.failed (l : VolumeLookup) : Bool :=
  match l.answer with
  | .error _ => true
  | .ok _ => false

def VolumeLookup.rejected (l : VolumeLookup) : Bool :=
  match l.answer with
  | .error e => e = .auth
  | .ok _ => false

end Lookups

/-! ## Turns at the rate limits -/

namespace Limiters

variable {limit : ℚ} {burst : Nat} {limiters : Limiters limit burst} {key other : String}

/-- With room for its limiter, a key takes nothing from another one. -/
theorem left_allow_of_room (ne : other ≠ key) {keys : Finset String} (room : keys.card ≤ maxAgentLimiters)
    (held : ∀ k ∈ limiters, k ∈ keys) (asked : key ∈ keys) (now at_ : ℚ) :
    (limiters.allow key now).2.left other at_ = limiters.left other at_ := by
  rw [left, lookup_allow_ne ne, if_neg (not_afresh room held asked), left]

end Limiters

section Turns

variable {clientKey : Option (ClientRequest → String)} {r : ClientRequest} {now : Nat → ℚ} {host : Nat → String}

/-- There is room for the limiters of all that are asked about. -/
structure LimiterRoom (clientKey : Option (ClientRequest → String)) (r : ClientRequest) (host : Nat → String)
    (p : AgentProxy) (arrivals : List Nat) (clients agents : Finset String) : Prop where
  few : clients.card ≤ maxAgentLimiters ∧ agents.card ≤ maxAgentLimiters
  clientsHeld : ∀ k ∈ p.clientLimiters, k ∈ clients
  agentsHeld : ∀ k ∈ p.limiters, k ∈ agents
  asked : ∀ i ∈ arrivals, host i ++ " " ++ clientOf clientKey r ∈ clients ∧ host i ∈ agents

variable {p : AgentProxy} {arrivals : List Nat} {clients agents : Finset String} {i j : Nat}

/-- The turn of an agent, as a call. -/
def turn (r : ClientRequest) (now : Nat → ℚ) (host : Nat → String) (i : Nat) : ProxyCall ClientRequest :=
  ⟨r, host i, now i⟩

theorem LimiterRoom.next (room : LimiterRoom clientKey r host p (j :: arrivals) clients agents) :
    LimiterRoom clientKey r host (p.answer clientKey (turn r now host j)).2 arrivals clients agents := by
  obtain ⟨keyed, hosted⟩ := room.asked j List.mem_cons_self
  refine ⟨room.few, ?_, ?_, fun i later => room.asked i (List.mem_cons_of_mem j later)⟩
  · rw [clientLimiters_answer]
    exact Limiters.held_allow room.clientsHeld keyed _
  · rw [limiters_answer]
    split
    · exact Limiters.held_allow room.agentsHeld hosted _
    · exact room.agentsHeld

/-- The turn of one agent makes no difference to another one's. -/
theorem LimiterRoom.allowed (room : LimiterRoom clientKey r host p (j :: arrivals) clients agents)
    (apart : host i ≠ host j) :
    ((p.answer clientKey (turn r now host j)).2.answer clientKey (turn r now host i)).1.allowed =
      (p.answer clientKey (turn r now host i)).1.allowed := by
  obtain ⟨keyed, hosted⟩ := room.asked j List.mem_cons_self
  have keys : (turn r now host i).key clientKey ≠ (turn r now host j).key clientKey := fun same =>
    apart ((String.append_left_inj _).mp ((String.append_left_inj _).mp same))
  have client := Limiters.left_allow_of_room keys room.few.1 room.clientsHeld keyed (now j) (now i)
  have agent := Limiters.left_allow_of_room apart room.few.2 room.agentsHeld hosted (now j) (now i)
  rw [allowed_answer, allowed_answer, clientLimiters_answer, limiters_answer]
  simp only [Limiters.allow_fst, turn] at client agent ⊢
  rw [client]
  split
  · rw [agent]
  · rfl

end Turns

/-! ## Credentials and order make no difference -/

section Alike

variable {parse : Bytes → Option Json} {newRequest : String → Option AgentRequest}
  {authorize : AgentRequest → Option AgentRequest} {agent agent' : AgentRequest → Option AgentAnswer}
  {clientKey : Option (ClientRequest → String)} {r : ClientRequest} {now : Nat → ℚ} {print : Json → Bytes}
  {localHostname : String} {credentialsRejected : Bool}

end Alike

/-! ### A mount's password -/

def workers : List RemoteAgent := [⟨"w1", "http://10.0.0.2:7777"⟩, ⟨"w2", "http://10.0.0.3:7777"⟩]

end Dockgraph.Api
