import Dockgraph.Collector.DockerSnapshot
import Dockgraph.Secrets.Masker

/-!
# The graph of a swarm (`collector/swarm_snapshot.go`)

A service stands for the containers of its tasks. Standalone containers of the local daemon keep
their own nodes, under names of their own.
-/
namespace Dockgraph.Collector

open Keyed

/-! ## What the manager lists

Times are nanoseconds from the first of January of year 1, which is the zero time. -/

namespace Swarm

/-- `mount.Mount`; the driver is that of the volume options, `none` without a configured one. -/
structure Mount where
  type : String
  source : String := ""
  target : String := ""
  driver : Option String := none

structure ContainerSpec where
  image : String := ""
  labels : StringMap := none
  mounts : List Mount := []

structure PortConfig where
  protocol : String := ""
  targetPort : UInt32
  publishedPort : UInt32

/-- `none` for a nil pointer. -/
structure ReplicatedJob where
  maxConcurrent : Option UInt64 := none
  totalCompletions : Option UInt64 := none

structure ServiceMode where
  /-- The inner option is the pointer to the count. -/
  replicated : Option (Option UInt64) := none
  global : Bool := false
  replicatedJob : Option ReplicatedJob := none
  globalJob : Bool := false

structure Service where
  id : String
  name : String
  createdAt : Int := 0
  labels : StringMap := none
  containerSpec : Option ContainerSpec := none
  /-- The targets of the task template's networks. -/
  networks : List String := []
  mode : ServiceMode := {}
  ports : List PortConfig := []
  /-- The networks of the endpoint's virtual IPs. -/
  virtualIPs : List String := []
  updateState : Option String := none
  desiredTasks : Option UInt64 := none
  jobIteration : Option UInt64 := none

structure Task where
  id : String
  serviceID : String
  nodeID : String := ""
  slot : Int := 0
  state : String
  desiredState : String
  err : String := ""
  timestamp : Int := 0
  containerID : Option String := none
  jobIteration : Option UInt64 := none

structure Node where
  id : String
  hostname : String
  createdAt : Int := 0
  updatedAt : Int := 0
  role : String := ""
  availability : String := ""
  state : String := ""
  addr : String := ""
  engineVersion : String := ""
  nanoCPUs : Int := 0
  memoryBytes : Int := 0
  /-- Whether a manager leads; `none` for a worker. -/
  leader : Option Bool := none

end Swarm

structure SwarmResources extends DockerResources where
  services : List Swarm.Service := []
  tasks : List Swarm.Task := []
  nodes : List Swarm.Node := []

/-- A time on the wire; the zero time is left out. -/
def timeText (time : Int) : String := if time = 0 then "" else Timestamp.rfc3339 time

/-- `int` of an unsigned number. -/
def goInt (n : UInt64) : Int := n.toInt64.toInt

/-! ## Nodes of the cluster -/

def swarmNodeName (n : Swarm.Node) : String := if n.hostname ≠ "" then n.hostname else n.id

/-- Whether `a` replaces `b` under one hostname. -/
def preferSwarmNode (a b : Swarm.Node) : Bool :=
  let aReady := a.state = "ready"
  let bReady := b.state = "ready"
  if aReady ≠ bReady then aReady
  else if a.updatedAt ≠ b.updatedAt then b.updatedAt < a.updatedAt
  else a.id < b.id

def buildSwarmNodeNode (name : String) (n : Swarm.Node) : Node :=
  let state := if n.state = "" then "unknown" else n.state
  { id := "swarmnode:" ++ name
    type := "swarmnode"
    name
    status := state
    createdAt := timeText n.createdAt
    swarmNode := some
      { id := n.id
        role := n.role
        leader := n.leader.getD false
        availability := n.availability
        state
        addr := n.addr
        engineVersion := n.engineVersion
        nanoCPUs := n.nanoCPUs
        memoryBytes := n.memoryBytes } }

/-- Body of the loop over the nodes. -/
def chooseNode (chosen : AList fun _ : String => Swarm.Node) (n : Swarm.Node) :
    AList fun _ : String => Swarm.Node :=
  match chosen.lookup (swarmNodeName n) with
  | some prev => if preferSwarmNode n prev then chosen.insert (swarmNodeName n) n else chosen
  | none => chosen.insert (swarmNodeName n) n

def buildSwarmNodeNodes (ord : RangeOrder) (nodes : List Swarm.Node) : List Node :=
  (ord.visit (nodes.foldl chooseNode ∅).entries).map fun e => buildSwarmNodeNode e.1 e.2

def nodeHostnames (nodes : List Swarm.Node) : AList fun _ : String => String :=
  nodes.foldl (fun m n => m.insert n.id n.hostname) ∅

def countEligibleNodes (nodes : List Swarm.Node) : Nat :=
  nodes.countP fun n => n.state = "ready" ∧ n.availability = "active"

/-! ## Services: networks, mounts and ports -/

def isServiceSelfExcluded (svc : Swarm.Service) : Bool :=
  isSelfExcluded svc.labels || (svc.containerSpec.map fun cs => isSelfExcluded cs.labels).getD false

/-- Body of the loop over the targets. A target that is no ID may be a name. -/
def addTarget (networkIDToName : NetworkNames) (result : List String) (t : String) : List String :=
  let name := match networkIDToName.lookup t with
    | some name => some name
    | none => if t ∈ values networkIDToName then some t else none
  match name with
  | some name => if name ∈ result then result else result ++ [name]
  | none => result

/-- Without networks of its own a service is on those of its virtual IPs. -/
def serviceNetworks (svc : Swarm.Service) (networkIDToName : NetworkNames) : List String :=
  let targets := if svc.networks.isEmpty then svc.virtualIPs else svc.networks
  targets.foldl (addTarget networkIDToName) []

def serviceVolumeMounts (svc : Swarm.Service) : List Swarm.Mount :=
  match svc.containerSpec with
  | none => []
  | some cs => cs.mounts.filter fun m => m.type = "volume" ∧ m.source ≠ ""

def servicePorts (ports : List Swarm.PortConfig) : Slice PortMapping :=
  .appended (portRanges ((ports.filter fun p => p.publishedPort ≠ 0).map fun p =>
    { host := p.publishedPort.toNat, container := p.targetPort.toNat, protocol := p.protocol }))

def stripImageDigest (image : String) : String :=
  String.ofList (Secrets.cut '@' image.toList).1

/-! ## Services: tasks and status -/

def serviceMode (m : Swarm.ServiceMode) : String :=
  if m.global then "global"
  else if m.replicatedJob.isSome then "replicated-job"
  else if m.globalJob then "global-job"
  else "replicated"

def isJobMode (m : Swarm.ServiceMode) : Bool := m.replicatedJob.isSome || m.globalJob

def desiredReplicas (svc : Swarm.Service) (eligibleNodes : Nat) : Int :=
  match svc.mode.replicated with
  | some none => 1
  | some (some replicas) => goInt replicas
  | none =>
    match svc.desiredTasks with
    | some tasks => goInt tasks
    | none => if svc.mode.global then eligibleNodes else 0

/-- What a replicated job completes by default is its concurrency, which is one by default. -/
def jobTotalCompletions (job : Swarm.ReplicatedJob) : Int :=
  match job.totalCompletions, job.maxConcurrent with
  | some total, _ => goInt total
  | none, some concurrent => goInt concurrent
  | none, none => 1

def jobFinished (mode : Swarm.ServiceMode) (r : ReplicaCount) : Bool :=
  match mode.replicatedJob with
  | some job => jobTotalCompletions job ≤ r.completed
  | none => mode.globalJob && 0 < r.completed && r.running = 0 && r.desired = 0

/-- A task or a service without an iteration counts. -/
def completedInCurrentRun (svc : Swarm.Service) (completed : List Swarm.Task) : Nat :=
  match svc.jobIteration with
  | none => completed.length
  | some index => completed.countP fun t => t.jobIteration.getD index = index

def serviceStatusOf (svc : Swarm.Service) (replicas : ReplicaCount) : String :=
  if svc.updateState = some "updating" ∨ svc.updateState = some "rollback_started" then "updating"
  else if jobFinished svc.mode replicas then "completed"
  else if replicas.desired = 0 then "stopped"
  else if replicas.desired ≤ replicas.running then "running"
  else "degraded"

/-- `maxFailedTasks` and `maxCompletedTasks`. -/
def maxFailedTasks : Nat := 3
def maxCompletedTasks : Nat := 3

def mostRecentTasks (ord : RangeOrder) (tasks : List Swarm.Task) (n : Nat) : List Swarm.Task :=
  ((ord.visit tasks).mergeSort fun a b => b.timestamp ≤ a.timestamp).take n

def buildTaskInfo (t : Swarm.Task) (hostnames : AList fun _ : String => String) : TaskInfo :=
  { id := t.id
    slot := t.slot
    nodeID := t.nodeID
    nodeHostname := (hostnames.lookup t.nodeID).getD ""
    state := t.state
    desiredState := t.desiredState
    error := String.ofList (Secrets.maskValue t.err.toList)
    containerID := t.containerID.getD ""
    timestamp := timeText t.timestamp }

/-- The order of a service's tasks on the wire. -/
def TaskInfo.rank (t : TaskInfo) : Int ×ₗ String ×ₗ String :=
  toLex (t.slot, toLex (t.nodeHostname, t.id))

/-- The tasks of a service that the loop of `buildServiceInfo` tells apart. -/
structure TaskGroups where
  active : List Swarm.Task := []
  completed : List Swarm.Task := []
  failed : List Swarm.Task := []
  running : Int := 0

/-- Body of that loop. A task to be shut down counts only if it failed. -/
def TaskGroups.add (g : TaskGroups) (t : Swarm.Task) : TaskGroups :=
  if t.desiredState ∈ ["shutdown", "remove"] then
    if t.state ∈ ["failed", "rejected"] then { g with failed := g.failed ++ [t] } else g
  else if t.state = "complete" then { g with completed := g.completed ++ [t] }
  else
    { g with
      active := g.active ++ [t]
      running := if t.state = "running" then g.running + 1 else g.running }

def buildServiceInfo (ord : RangeOrder) (svc : Swarm.Service) (tasks : List Swarm.Task)
    (hostnames : AList fun _ : String => String) (eligibleNodes : Nat) : ServiceInfo :=
  let groups := tasks.foldl TaskGroups.add {}
  let completed := mostRecentTasks ord groups.completed maxCompletedTasks
  let failed := mostRecentTasks ord groups.failed maxFailedTasks
  let listed := (groups.active ++ completed ++ failed).map fun t => buildTaskInfo t hostnames
  { mode := serviceMode svc.mode
    updateStatus := svc.updateState.getD ""
    replicas :=
      { running := groups.running
        desired := desiredReplicas svc eligibleNodes
        -- counted before the history is trimmed
        completed := if isJobMode svc.mode then completedInCurrentRun svc groups.completed else 0 }
    tasks := .appended (listed.mergeSort fun a b => a.rank ≤ b.rank) }

/-! ## Services: nodes and edges -/

def groupTasksByService (tasks : List Swarm.Task) : AList fun _ : String => List Swarm.Task :=
  tasks.foldl (fun m t => m.insert t.serviceID ((m.lookup t.serviceID).getD [] ++ [t])) ∅

/-- Lookups that the services of a cluster share. -/
structure ServiceContext where
  networkIDToName : NetworkNames
  networkProjects : NetworkProjects
  hostnames : AList fun _ : String => String
  tasks : AList fun _ : String => List Swarm.Task
  eligibleNodes : Nat

def classifyServiceNetworks (svc : Swarm.Service) (networkIDToName : NetworkNames)
    (networkProjects : NetworkProjects) : String × List String :=
  classifyNetworks (serviceNetworks svc networkIDToName) (projectOf svc.labels) networkProjects

def buildSwarmServiceNode (ord : RangeOrder) (svc : Swarm.Service) (sc : ServiceContext) :
    Node × List Edge :=
  let name := svc.name
  let nodeID := "service:" ++ name
  let image := (svc.containerSpec.map fun cs => stripImageDigest cs.image).getD ""
  let info := buildServiceInfo ord svc ((sc.tasks.lookup svc.id).getD []) sc.hostnames sc.eligibleNodes
  let (primary, secondary) := classifyServiceNetworks svc sc.networkIDToName sc.networkProjects
  ({ id := nodeID
     type := "service"
     name
     image
     status := serviceStatusOf svc info.replicas
     ports := servicePorts svc.ports
     labels := projectLabels svc.labels
     stack := projectOf svc.labels
     service := some info
     createdAt := timeText svc.createdAt
     networkID := if primary ≠ "" then "network:" ++ primary else "" },
    secondary.map (networkEdge name nodeID) ++
      (serviceVolumeMounts svc).map fun m => mountEdge m.source name nodeID m.target)

/-! ## The snapshot -/

def isTaskContainer (labels : StringMap) : Bool := labels.get swarmTaskIDLabel ≠ ""

/-- What the daemon of the manager has apart from containers of tasks. -/
def SwarmResources.local (res : SwarmResources) : DockerResources :=
  { res.toDockerResources with containers := res.containers.filter fun c => !isTaskContainer c.labels }

/-- A snapshot and the volumes it has nodes for. -/
structure Assembled where
  snap : GraphSnapshot
  knownVolumes : Finset String

/-- Body of the loop over a service's mounts. Its volume may be on another daemon. -/
def addServiceVolume (stack : String) (acc : Assembled) (m : Swarm.Mount) : Assembled :=
  if m.source ∈ acc.knownVolumes then acc
  else
    let driver := if m.driver.getD "" ≠ "" then m.driver.getD "" else "local"
    let vol := buildVolumeNode m.source driver "created"
    let owned := stack ≠ "" ∧ hasPrefix m.source (stack ++ "_")
    { snap := { acc.snap with nodes := acc.snap.nodes ++ [{ vol with stack := if owned then stack else "" }] }
      knownVolumes := insert m.source acc.knownVolumes }

/-- Body of the loop over the services. -/
def addService (ord : RangeOrder) (sc : ServiceContext) (acc : Assembled) (svc : Swarm.Service) :
    Assembled :=
  if isServiceSelfExcluded svc then acc
  else
    let (node, edges) := buildSwarmServiceNode ord svc sc
    let snap := { nodes := acc.snap.nodes ++ [node], edges := acc.snap.edges ++ edges }
    (serviceVolumeMounts svc).foldl (addServiceVolume node.stack) { acc with snap }

/-- The members of projects: standalone containers, and services in place of their tasks. -/
def members (res : SwarmResources) : List ProjectMember :=
  containerMembers res.local.containers ++
    res.services.map fun svc => ⟨projectOf svc.labels, isServiceSelfExcluded svc⟩

def localSnapshot (res : SwarmResources) : GraphSnapshot :=
  assembleSnapshot res.local (selfOnlyProjects (members res))

def serviceContext (res : SwarmResources) : ServiceContext :=
  { networkIDToName := resolveNetworkNames res.networks
    networkProjects := networkProjectMap res.networks
    hostnames := nodeHostnames res.nodes
    tasks := groupTasksByService res.tasks
    eligibleNodes := countEligibleNodes res.nodes }

/-- The names of the volumes that have a node. -/
def volumeNames (nodes : List Node) : Finset String :=
  ((nodes.filter fun n => n.type = "volume").map Node.name).toFinset

/-- `ord` is the order of elements a sort does not tell apart, and of the hostnames in their map. -/
def buildSwarmSnapshot (ord : RangeOrder) (res : SwarmResources) : GraphSnapshot :=
  let start := localSnapshot res
  let withServices := res.services.foldl (addService ord (serviceContext res))
    ⟨start, volumeNames start.nodes⟩
  sortSnapshot ord { withServices.snap with
    nodes := withServices.snap.nodes ++ buildSwarmNodeNodes ord res.nodes }

end Dockgraph.Collector
