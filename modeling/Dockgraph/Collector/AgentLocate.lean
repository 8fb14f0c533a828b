import Dockgraph.Collector.AgentPool
import Dockgraph.Library.Keyed

/-!
# Locating a container (`collector/agent_locate.go`)

The swarm's task list places the containers of tasks, the agents' reports the others. Both are
claims: an agent speaks for its own node only.
-/
namespace Dockgraph.Collector

/-! ## Reports (`collector/agent_stats.go`) -/

def swarmTaskIDLabel : String := "com.docker.swarm.task.id"

structure ContainerSample where
  id : String
  name : String
  labels : StringMap := none

def ContainerSample.taskID (s : ContainerSample) : String := s.labels.get swarmTaskIDLabel

/-- An agent's answer. `Refresh` takes no agent without a node. -/
structure Report where
  nodeID : String
  samples : List ContainerSample
  known : nodeID ≠ ""

def claim (claims : Claims) (key value : String) : Claims :=
  match claims.lookup key with
  -- two values under one key leave it unusable
  | some claimed => if claimed ≠ value then claims.insert key "" else claims.insert key value
  | none => claims.insert key value

/-- The maps that `Samples` fills. -/
structure Reported where
  owners : Claims := ∅
  names : Claims := ∅
  tasks : Claims := ∅

/-- Body of the loop over an agent's samples. -/
def Reported.add (nodeID : String) (r : Reported) (s : ContainerSample) : Reported :=
  if s.id = "" ∨ s.name = "" then r
  else
    let tid := s.taskID
    -- a task's container is placed by the swarm, not by the agent that reports it
    if tid ≠ "" then { r with tasks := claim (claim (claim r.tasks s.id tid) s.name tid) tid tid }
    else { r with owners := claim r.owners s.id nodeID, names := claim r.names s.name nodeID }

/-- The reports in the order the goroutines get the lock. -/
def reported (reports : List Report) : Reported :=
  reports.foldl (fun r report => report.samples.foldl (Reported.add report.nodeID) r) {}

namespace AgentPool

/-- What `Samples` leaves in the pool. Placements of tasks not sampled any more go. -/
def poll (p : AgentPool) (reports : List Report) : AgentPool :=
  let r := reported reports
  { p with
    owners := r.owners
    names := r.names
    tasks := r.tasks
    placements := p.placements.keys.foldl
      (fun placements taskID => if taskID ∈ r.tasks then placements else placements.erase taskID)
      p.placements }

end AgentPool

/-! ## Names -/

def isHexDigit (c : Char) : Bool := ('0' ≤ c ∧ c ≤ '9') ∨ ('a' ≤ c ∧ c ≤ 'f')

def maybeContainerID (id : String) : Bool :=
  12 ≤ id.utf8ByteSize ∧ id.utf8ByteSize ≤ 64 ∧ id.toList.all isHexDigit

def hasPrefix (key id : String) : Bool := id.toList.isPrefixOf key.toList

/-- What follows the last dot. -/
def taskIDOfName (name : String) : String :=
  String.ofList (name.toList.reverse.takeWhile fun c => c ≠ '.').reverse

/-! ## Lookups -/

/-- The loop of `uniquePrefixMatch`; `value` is what was found so far. -/
def uniquePrefixMatch.loop (id : String) : List ((_ : String) × String) → Option String → Option String
  | [], value => value
  | ⟨key, v⟩ :: rest, value =>
    if !hasPrefix key id then uniquePrefixMatch.loop id rest value
    else
      match value with
      -- the first contradiction ends the loop
      | some found => if v ≠ found then some "" else uniquePrefixMatch.loop id rest (some v)
      | none => uniquePrefixMatch.loop id rest (some v)

/-- `none` when nothing is found. -/
def uniquePrefixMatch (ord : Keyed.RangeOrder) (values : Claims) (id : String) : Option String :=
  if !maybeContainerID id then none else uniquePrefixMatch.loop id (ord.visit values.entries) none

namespace AgentPool

/-- The node, or `none` when nothing matched. -/
def standaloneClaims (p : AgentPool) (ord : Keyed.RangeOrder) (id : String) : Option String :=
  let found := [p.owners.lookup id, p.names.lookup id, uniquePrefixMatch ord p.owners id].filterMap fun v => v
  match found with
  | [] => none
  | first :: rest => some (if rest.any fun n => n ≠ first then "" else first)

def sampledTask (p : AgentPool) (id : String) : String := (p.tasks.lookup id).getD ""

/-- `listed` is the task list filtered by the ID, `none` when it could not be read. -/
def placement (p : AgentPool) (listed : Option (List Task)) (taskID : String) :
    Option String × AgentPool :=
  match p.placements.lookup taskID with
  | some cached => (some cached, p)
  | none =>
    match listed with
    -- the task list could not be read
    | none => (none, p)
    | some tasks =>
      match tasks.find? fun t => t.id = taskID with
      | none => (some "", p)
      | some t =>
        -- only the placement of a task whose container is known is cached
        if t.containerID ≠ "" ∧ taskID ∈ p.tasks then
          (some t.nodeID, { p with placements := p.placements.insert taskID t.nodeID })
        else (some t.nodeID, p)

def taskNode (p : AgentPool) (listed : Option (List Task)) (taskID id : String) :
    Option String × AgentPool :=
  if taskID = "" ∨ !p.cfg.tasks ∨ taskIDOfName id ≠ taskID then (some "", p)
  else p.placement listed taskID

/-- The task's container is, or starts with, the ID. -/
def claims (id : String) (t : Task) : Bool :=
  t.containerID ≠ "" ∧ (t.containerID = id ∨ (12 ≤ id.utf8ByteSize ∧ hasPrefix t.containerID id))

/-- The loop of `ownerFromTasks`. -/
def ownerFromTasks.loop (taskID id : String) : List Task → String → String
  | [], owner => owner
  | t :: rest, owner =>
    -- the ID is a task's own
    if t.id = taskID then t.nodeID
    else if claims id t then
      -- two nodes: the same answer as no node
      if owner ≠ "" ∧ owner ≠ t.nodeID then "" else ownerFromTasks.loop taskID id rest t.nodeID
    else ownerFromTasks.loop taskID id rest owner

/-- `none` when the task list could not be read. -/
def ownerFromTasks (p : AgentPool) (listed : Option (List Task)) (id : String) : Option String :=
  if !p.cfg.tasks then some ""
  else
    let taskID := taskIDOfName id
    if taskID = "" then some ""
    else listed.map fun tasks => ownerFromTasks.loop taskID id tasks ""

def agentURL (p : AgentPool) (nodeID : String) : Option String :=
  if nodeID = "" ∨ nodeID = p.cfg.localNodeID then none
  else (p.agents.lookup nodeID).map fun a => "http://" ++ a.addr

/-- `placed` and `listed` answer the calls of `TaskList` in `placement` and in `ownerFromTasks`. -/
def locateContainer (p : AgentPool) (ord : Keyed.RangeOrder) (placed listed : Option (List Task))
    (id : String) : Option String × AgentPool :=
  let (node, p) := if !maybeContainerID id then p.taskNode placed (p.sampledTask id) id else (some "", p)
  match node with
  | some "" =>
    let owner := p.ownerFromTasks listed id
    let standalone := p.standaloneClaims ord id
    match owner with
    | none => (p.agentURL "", p)
    | some nodeID =>
      -- the swarm and the reports contradict each other
      if nodeID ≠ "" ∧ maybeContainerID id ∧ standalone.any fun s => s ≠ nodeID then (none, p)
      else if nodeID = "" then (p.agentURL (standalone.getD ""), p)
      else (p.agentURL nodeID, p)
  | some nodeID => (p.agentURL nodeID, p)
  | none => (p.agentURL "", p)

end AgentPool

end Dockgraph.Collector
