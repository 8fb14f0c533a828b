import Dockgraph.Collector.Types

/-!
# The pool of agents (`collector/agent_pool.go`)

`Refresh` asks the resolver for the agents, each agent for its node, and the swarm for its tasks. A
`Round` is what they answer to one call.
-/
namespace Dockgraph.Collector

structure AgentInfo where
  nodeID : String
  hostname : String

structure AgentEndpoint where
  addr : String
  hostname : String
  deriving DecidableEq

/-- A task of the swarm's task list. `containerID` is empty while the task has no container. -/
structure Task where
  id : String
  nodeID : String
  containerID : String := ""
  /-- The addresses of each network attachment, with their prefix lengths. -/
  networksAttachments : List (List String) := []

/-- `SplitHostPort`, `ParseAddr`, the address of `ParsePrefix`, and `Unmap`. -/
structure Netip (Addr : Type) where
  splitHost : String → Option String
  parseAddr : String → Option Addr
  parsePrefix : String → Option Addr
  unmap : Addr → Addr

structure AgentPoolConfig where
  localNodeID : String := ""
  /-- `Tasks` is not nil. -/
  tasks : Bool := true

abbrev Claims := AList fun _ : String => String

structure AgentPool where
  cfg : AgentPoolConfig
  agents : AList (fun _ : String => AgentEndpoint) := ∅
  resolved : List String := []
  verified : Claims := ∅
  owners : Claims := ∅
  names : Claims := ∅
  tasks : Claims := ∅
  placements : Claims := ∅

inductive LookupError
  | notFound
  | transient
  deriving DecidableEq

structure Round where
  /-- What `resolve` returns. -/
  addrs : List String
  err : Option LookupError := none
  cancelled : Bool := false
  /-- The `/info` answer at each place of the list, if it could be read. -/
  info : Nat → Option AgentInfo
  /-- The running tasks, if the list could be read. -/
  tasks : Option (List Task)

namespace Round

/-- `Refresh` keeps what it has. -/
def Keeps (r : Round) : Prop := (r.err ≠ none ∧ r.cancelled = true) ∨ r.err = some .transient

instance (r : Round) : Decidable r.Keeps := inferInstanceAs (Decidable (_ ∨ _))

/-- Each address with its node, where it names one. -/
def infos (r : Round) : List (String × AgentInfo) :=
  r.addrs.zipIdx.filterMap fun (addr, i) =>
    ((r.info i).filter fun info => info.nodeID ≠ "").map fun info => (addr, info)

end Round

variable {Addr : Type} [DecidableEq Addr] (net : Netip Addr)

def hostIP (addr : String) : Option Addr :=
  (net.parseAddr ((net.splitHost addr).getD addr)).map net.unmap

/-- Addresses of running tasks with the nodes of the tasks, in the order they are entered. -/
def taskAddresses (tasks : List Task) : List (Addr × String) :=
  tasks.flatMap fun t => t.networksAttachments.flatten.filterMap fun cidr =>
    (net.parsePrefix cidr).map fun ip => (net.unmap ip, t.nodeID)

namespace AgentPool

/-- Writes each confirmed address. -/
def confirm (confirmed : String → String → Bool) (infos : List (String × AgentInfo)) : Claims :=
  infos.foldl (fun verified (addr, info) =>
    if confirmed addr info.nodeID then verified.insert addr info.nodeID else verified) ∅

def verifyNodes (p : AgentPool) (infos : List (String × AgentInfo)) (tasks : Option (List Task)) :
    Claims :=
  if !p.cfg.tasks then confirm (fun _ _ => true) infos
  else
    match tasks with
    | none => confirm (fun addr nodeID => p.verified.lookup addr = some nodeID) infos
    | some tasks =>
      let nodesByIP := taskAddresses net tasks
      confirm (fun addr nodeID => (hostIP net addr).any fun ip => (ip, nodeID) ∈ nodesByIP) infos

/-- Body of the loop that fills `agents`. -/
def addAgent (verified : Claims) (agents : AList fun _ : String => AgentEndpoint)
    (found : String × AgentInfo) : AList fun _ : String => AgentEndpoint :=
  let (addr, info) := found
  if verified.lookup addr ≠ some info.nodeID then agents
  else if info.nodeID ∈ agents then agents
  else agents.insert info.nodeID { addr, hostname := info.hostname }

def refresh (p : AgentPool) (r : Round) : AgentPool :=
  if r.Keeps then p
  else
    let verified := p.verifyNodes net r.infos r.tasks
    { p with
      agents := r.infos.foldl (addAgent verified) ∅
      resolved := r.addrs
      verified }

end AgentPool

def newAgentPool (cfg : AgentPoolConfig) : AgentPool := { cfg }

end Dockgraph.Collector
