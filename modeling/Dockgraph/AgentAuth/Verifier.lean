import Dockgraph.AgentAuth.Signature
import Mathlib.Data.Finset.Basic

/-!
# The agent's verifier (`agentauth/verify.go`)

Times are nanoseconds since the Unix epoch. A call of `Verify` samples the clock, checks the
request by itself, and then takes the lock twice: for the addresses and for the nonce.
-/
namespace Dockgraph.AgentAuth

inductive VerifyError
  | unsigned
  | malformed
  | stale
  | badSignature
  | wrongHost
  | replayed
  deriving DecidableEq

def second : Int := 10 ^ 9

def maxClockSkew : Int := 120 * second

def localAddrRefresh : Int := second

def seenPruneSize : Nat := 1024

def maxSeenNonces : Nat := 65536

/-- The verifier's keys, `ed25519.Verify`, and the address a `host:port` names: `SplitHostPort`,
`ParseAddr`, `Unmap` and `WithZone`. -/
structure Env (Key Addr : Type) where
  keys : List Key
  verify : Key → String → List UInt8 → Bool
  hostAddr : String → Option Addr

/-- The part of a verifier under its lock. `local` in the source is `localAddrs` here. -/
structure Verifier (Addr : Type) where
  seen : AList (fun _ : String => Int) := ∅
  pruneAt : Nat := seenPruneSize
  localAddrs : List Addr := []
  /-- The zero time is the start of the year 1. -/
  localRead : Int := -62135596800 * second

variable {Key Addr : Type} [DecidableEq Addr]

def signedByKnownKey (env : Env Key Addr) (msg : String) (sig : List UInt8) : Bool :=
  env.keys.any fun key => env.verify key msg sig

/-- `Verify` up to the address check: the timestamp and nonce of an acceptable signature. -/
def checkSignature (env : Env Key Addr) (now : Int) (r : Request) :
    Except VerifyError (Int × String) :=
  if r.signature = "" then .error .unsigned
  else match parseSignature r.signature with
    | none => .error .malformed
    | some (ts, nonce, sig) =>
      let skew := now - ts * second
      if skew > maxClockSkew ∨ skew < -maxClockSkew then .error .stale
      else if !signedByKnownKey env (payload r.method r.host r.requestURI ts nonce) sig then
        .error .badSignature
      else .ok (ts, nonce)

namespace Verifier

/-- `addrs` is what the interfaces list, `none` on an error. -/
def readLocalAddrs (v : Verifier Addr) (now : Int) (addrs : Option (List Addr)) : Verifier Addr :=
  let v := { v with localRead := now }
  match addrs with
  | none => v
  | some listed => { v with localAddrs := listed }

def isLocal (env : Env Key Addr) (v : Verifier Addr) (now : Int) (hostport : String)
    (addrs : Option (List Addr)) : Bool × Verifier Addr :=
  match env.hostAddr hostport with
  | none => (false, v)
  | some addr =>
    if addr ∈ v.localAddrs then (true, v)
    else if now - v.localRead < localAddrRefresh then (false, v)
    else
      let v := v.readLocalAddrs now addrs
      (addr ∈ v.localAddrs, v)

/-- Body of the loop over the cache. -/
def dropExpired (now : Int) (seen : AList (fun _ : String => Int)) (entry : (_ : String) × Int) :
    AList (fun _ : String => Int) :=
  if now > entry.2 then seen.erase entry.1 else seen

omit [DecidableEq Addr] in
def prune (v : Verifier Addr) (now : Int) : Verifier Addr :=
  let seen := v.seen.entries.foldl (dropExpired now) v.seen
  { v with
    seen
    pruneAt := min maxSeenNonces (max seenPruneSize (2 * seen.entries.length)) }

/-- The cache is full enough to be pruned. -/
def Pruning (v : Verifier Addr) : Prop := v.seen.entries.length ≥ v.pruneAt

instance (v : Verifier Addr) : Decidable v.Pruning := inferInstanceAs (Decidable (_ ≥ _))

def remember (v : Verifier Addr) (nonce : String) (expiry now : Int) : Bool × Verifier Addr :=
  if nonce ∈ v.seen then (false, v)
  else
    let v := if v.Pruning then v.prune now else v
    if v.seen.entries.length ≥ maxSeenNonces then (false, v)
    else (true, { v with seen := v.seen.insert nonce expiry })

end Verifier

/-- A call of `Verify` that got past the signature. -/
structure Call where
  id : Nat
  request : Request
  ts : Int
  nonce : String
  /-- The clock as the call sampled it. -/
  now : Int
  isLocal : Bool := false

def Call.expiry (c : Call) : Int := c.ts * second + maxClockSkew

/-- History: a call that returned. -/
structure Outcome where
  request : Request
  error : Option VerifyError

/-- An agent with any number of calls of `Verify` under way. -/
structure Agent (Addr : Type) where
  clock : Int
  verifier : Verifier Addr := {}
  calls : List Call := []
  nextID : Nat := 0
  outcomes : List Outcome := []

inductive Step (Addr : Type)
  | tick (d : Nat)
  | arrive (r : Request)
  | checkHost (id : Nat) (addrs : Option (List Addr))
  | remember (id : Nat)

namespace Agent

/-- `Verify` returns. -/
def finish (a : Agent Addr) (c : Call) (error : Option VerifyError) : Agent Addr :=
  { a with
    calls := a.calls.filter fun d => d.id ≠ c.id
    outcomes := a.outcomes ++ [⟨c.request, error⟩] }

def arrive (env : Env Key Addr) (a : Agent Addr) (r : Request) : Agent Addr :=
  match checkSignature env a.clock r with
  | .error e => { a with outcomes := a.outcomes ++ [⟨r, some e⟩] }
  | .ok (ts, nonce) =>
    { a with
      calls := a.calls ++ [{ id := a.nextID, request := r, ts, nonce, now := a.clock }]
      nextID := a.nextID + 1 }

def checkHost (env : Env Key Addr) (a : Agent Addr) (id : Nat) (addrs : Option (List Addr)) :
    Option (Agent Addr) :=
  match a.calls.find? fun c => c.id = id ∧ !c.isLocal with
  | none => none
  | some c =>
    let (found, verifier) := a.verifier.isLocal env a.clock c.request.host addrs
    let a := { a with verifier }
    if found then
      some { a with calls := a.calls.map fun d => if d.id = id then { d with isLocal := true } else d }
    else some (a.finish c (some .wrongHost))

def remember (a : Agent Addr) (id : Nat) : Option (Agent Addr) :=
  match a.calls.find? fun c => c.id = id ∧ c.isLocal with
  | none => none
  | some c =>
    let (new, verifier) := a.verifier.remember c.nonce c.expiry c.now
    let a := { a with verifier }
    some (a.finish c (if new then none else some .replayed))

def step (env : Env Key Addr) (a : Agent Addr) : Step Addr → Option (Agent Addr)
  | .tick d => some { a with clock := a.clock + d }
  | .arrive r => some (a.arrive env r)
  | .checkHost id addrs => a.checkHost env id addrs
  | .remember id => a.remember id

end Agent

/-- A new verifier at a time. -/
def newAgent (clock : Int) : Agent Addr := { clock }

end Dockgraph.AgentAuth
