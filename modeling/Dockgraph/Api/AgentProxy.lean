import Dockgraph.Library.TokenBucket
import Mathlib.Data.List.AList

/-!
# Requests made to agents for clients (`api/remote.go`)

Times are seconds. The maps hold pointers to limiters, so what a limiter becomes is written back.
-/
namespace Dockgraph.Api

open TokenBucket

def agentRequestRate : ℚ := 100

def agentRequestBurst : Nat := 100

def agentClientRequestRate : ℚ := 25

def agentClientRequestBurst : Nat := 25

def maxAgentLimiters : Nat := 1024

abbrev Limiters (limit : ℚ) (burst : Nat) := AList (fun _ : String => Limiter limit burst)

namespace Limiters

variable {limit : ℚ} {burst : Nat}

/-- The key needs a limiter and there is no room for one. -/
def Afresh (limiters : Limiters limit burst) (key : String) : Prop :=
  limiters.lookup key = none ∧ limiters.entries.length ≥ maxAgentLimiters

instance (limiters : Limiters limit burst) (key : String) : Decidable (limiters.Afresh key) :=
  decidable_of_iff ((limiters.lookup key).isNone ∧ limiters.entries.length ≥ maxAgentLimiters)
    (by simp [Afresh])

def limiterFor (limiters : Limiters limit burst) (key : String) : Limiter limit burst × Limiters limit burst :=
  match limiters.lookup key with
  | some l => (l, limiters)
  | none =>
    let limiters := if limiters.entries.length ≥ maxAgentLimiters then ∅ else limiters
    let l := .newLimiter limit burst
    (l, limiters.insert key l)

/-- `limiterFor(…).Allow()` -/
def allow (limiters : Limiters limit burst) (key : String) (now : ℚ) : Bool × Limiters limit burst :=
  let (l, limiters) := limiters.limiterFor key
  let (allowed, l) := l.allow now
  (allowed, limiters.insert key l)

end Limiters

structure AgentProxy where
  /-- By agent. -/
  limiters : Limiters agentRequestRate agentRequestBurst := ∅
  /-- By agent and client. -/
  clientLimiters : Limiters agentClientRequestRate agentClientRequestBurst := ∅

section Requests

variable {ρ : Type}

/-- The client of a request. -/
def clientOf (clientKey : Option (ρ → String)) (r : ρ) : String :=
  match clientKey with
  | none => ""
  | some f => f r

def AgentProxy.allowRequest (clientKey : Option (ρ → String)) (p : AgentProxy) (r : ρ) (host : String)
    (now : ℚ) : Bool × AgentProxy :=
  let (perClient, clientLimiters) := p.clientLimiters.allow (host ++ " " ++ clientOf clientKey r) now
  if perClient then
    let (allowed, limiters) := p.limiters.allow host now
    (allowed, { limiters, clientLimiters })
  else (false, { p with clientLimiters })

end Requests

end Dockgraph.Api
