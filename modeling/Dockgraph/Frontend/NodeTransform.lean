import Dockgraph.Frontend.GraphTransform
import Dockgraph.Library.CodeUnits
import Dockgraph.Library.Comparator
import Dockgraph.Library.Grouped
import Dockgraph.Library.Runs
import Mathlib.Algebra.GroupWithZero.Nat

/-!
# The per-node view (`utils/nodeTransform.ts`)

Every service has one card in the box of each swarm node that it has tasks on. The comparison of names
by the locale is a parameter.
-/
namespace Dockgraph.Frontend

open Comparator Keyed Runs

def CONTROL_SUMMARY_ID : String := "controlsummary"

def UNASSIGNED_NODE_GROUP_ID : String := "nodegroup:unassigned"

structure PlacedTask where
  service : DGNode
  task : TaskInfo
  deriving DecidableEq

section Orders

variable (localeCompare : String → String → Int)

/-- The display order of a swarm node: the leader, the other managers, the workers. -/
def swarmRank (n : DGNode) : Int :=
  if n.swarmNode.bind SwarmNodeInfo.leader = some true then 0
  else if n.swarmNode.map SwarmNodeInfo.role = some "manager" then 1 else 2

def compareSwarmNodes (a b : DGNode) : Int :=
  orElse (swarmRank a - swarmRank b) (localeCompare a.name b.name)

def comparePlacedTasks (a b : PlacedTask) : Int :=
  let sa := projectOf a.service
  let sb := projectOf b.service
  if sa ≠ sb then noneLast localeCompare sa sb
  else
    orElse (localeCompare a.service.name b.service.name)
      (orElse (a.task.slot.getD 0 - b.task.slot.getD 0)
        (orElse (localeCompare (a.task.nodeId.getD "") (b.task.nodeId.getD ""))
          (localeCompare a.task.id b.task.id)))

def listSwarmNodes (dgNodes : List DGNode) : List DGNode :=
  (dgNodes.filter fun n => n.type = "swarmnode").mergeSort fun a b => compareSwarmNodes localeCompare a b ≤ 0

/-! ## Tasks -/

def isActiveTask (task : TaskInfo) : Bool :=
  task.desiredState ≠ some "shutdown" ∧ task.desiredState ≠ some "remove" ∧ task.state ≠ some "complete"

/-- The active tasks, service by service. -/
def activeTasks (dgNodes : List DGNode) : List PlacedTask :=
  (dgNodes.filter fun n => n.type = "service").flatMap fun service =>
    (((service.service.bind ServiceInfo.tasks).getD []).filter isActiveTask).map fun task => { service, task }

/-- The IDs of the swarm nodes by hostname. -/
def byHostname (dgNodes : List DGNode) : AList fun _ : String => String :=
  (dgNodes.filter fun n => n.type = "swarmnode").foldl (assign (fun n => some n.name) DGNode.id) ∅

/-- The IDs of the swarm nodes by the ID that Swarm gives them. -/
def byNodeId (dgNodes : List DGNode) : AList fun _ : String => String :=
  (dgNodes.filter fun n => n.type = "swarmnode").foldl
    (assign (fun n => truthy (n.swarmNode.map SwarmNodeInfo.id)) DGNode.id) ∅

def taskGroup (dgNodes : List DGNode) (task : TaskInfo) : String :=
  (truthy ((truthy task.nodeHostname).bind (byHostname dgNodes).lookup) <|>
    truthy ((truthy task.nodeId).bind (byNodeId dgNodes).lookup)).getD UNASSIGNED_NODE_GROUP_ID

def placeTasks (dgNodes : List DGNode) : AList fun _ : String => List PlacedTask :=
  mapValues (fun list => list.mergeSort fun a b => comparePlacedTasks localeCompare a b ≤ 0)
    (group (fun p => some (taskGroup dgNodes p.task)) id (activeTasks dgNodes))

end Orders

/-! ## IDs -/

/-- The box of the local daemon's node. -/
def localGroupId (dgNodes : List DGNode) (localNodeId : Option String) : Option String :=
  (truthy localNodeId).bind fun id =>
    (dgNodes.find? fun n => n.type = "swarmnode" ∧ n.swarmNode.map SwarmNodeInfo.id = some id).map DGNode.id

def swarmRole (n : DGNode) : SwarmRole :=
  if n.swarmNode.map SwarmNodeInfo.role = some "manager" then .manager else .worker

def ROLE_GROUP_PREFIX : String := "rolegroup:"

def roleGroupId : SwarmRole → String
  | .manager => ROLE_GROUP_PREFIX ++ "manager"
  | .worker => ROLE_GROUP_PREFIX ++ "worker"

def UNASSIGNED_CARD_HOST : String := "*"

def nodeServiceCardId (hostname serviceName : String) : String :=
  "nodesvc:" ++ hostname ++ ":" ++ serviceName

def isSwarmNodeInactive (n : DGNode) : Bool :=
  let state := n.swarmNode.map SwarmNodeInfo.state <|> n.status
  let availability := n.swarmNode.map SwarmNodeInfo.availability
  (state ≠ none ∧ state ≠ some "ready") ∨ availability = some "drain" ∨ availability = some "pause"

def groupByService (tasks : List PlacedTask) : List (Run DGNode TaskInfo) :=
  runs PlacedTask.service PlacedTask.task DGNode.id tasks

/-! ## The view -/

/-- What `addBox` adds: the box, its cards, and the count it returns. -/
structure AddedBox where
  box : RFNode
  cards : List RFNode
  taskCount : Nat

/-- A service's card. -/
def serviceCard (id host : String) (inactive : Bool) (run : Run DGNode TaskInfo) : RFNode :=
  let cardId := nodeServiceCardId host run.head.name
  let stack := projectOf run.head
  { id := cardId
    type := .nodeServiceCard
    parentId := some id
    data := .nodeServiceCard
      { dgNode := { id := cardId, type := "service", name := run.head.name, status := run.head.status, stack }
        serviceId := run.head.id
        serviceName := run.head.name
        stack
        mode := run.head.service.bind ServiceInfo.mode
        tasks := run.items
        nodeInactive := inactive } }

/-- A container, in a box or free. -/
def containerNode (parentId : Option String) (c : DGNode) : RFNode :=
  { id := c.id, type := .containerNode, parentId, data := .graphNode c }

def addBox (placed : AList fun _ : String => List PlacedTask) (localGroup : Option String)
    (containers : List DGNode) (id : String) (dgNode : DGNode) (parentId : Option String)
    (role : Option SwarmRole) : AddedBox :=
  let tasks := (placed.lookup id).getD []
  let localContainers := if localGroup = some id then containers else []
  let taskCount := tasks.length + localContainers.length
  let host := if role.isSome then dgNode.name else UNASSIGNED_CARD_HOST
  let inactive := if role.isSome then isSwarmNodeInactive dgNode else false
  { box :=
      { id
        type := .nodeGroup
        parentId := truthy parentId
        data := .swarmNodeGroup { dgNode, taskCount, role, unassigned := role.isNone } }
    cards := (groupByService tasks).map (serviceCard id host inactive) ++
      localContainers.map (containerNode (some id))
    taskCount }

section View

variable (localeCompare : String → String → Int) (dgNodes : List DGNode) (localNodeId : Option String)

/-- The containers that are drawn. -/
def runningContainers : List DGNode :=
  dgNodes.filter fun n => n.type = "container" ∧ n.status ≠ some "not_running"

def roleMembers (role : SwarmRole) : List DGNode :=
  (listSwarmNodes localeCompare dgNodes).filter fun n => swarmRole n = role

def addBoxOf := addBox (placeTasks localeCompare dgNodes) (localGroupId dgNodes localNodeId)
  (runningContainers dgNodes)

def roleBoxes (role : SwarmRole) : List AddedBox :=
  (roleMembers localeCompare dgNodes role).map fun n =>
    addBoxOf localeCompare dgNodes localNodeId n.id n (some (roleGroupId role)) (some role)

/-- A role's group, if it has nodes. -/
def roleGroup (role : SwarmRole) : List RFNode :=
  if roleMembers localeCompare dgNodes role = [] then []
  else
    [{ id := roleGroupId role
       type := .roleGroup
       data := .roleGroup
         { role
           nodeCount := (roleMembers localeCompare dgNodes role).length
           taskCount := ((roleBoxes localeCompare dgNodes localNodeId role).map AddedBox.taskCount).sum } }]

/-- The badge between the groups, if there are both. -/
def controlSummary : List RFNode :=
  let workers := roleMembers localeCompare dgNodes .worker
  if roleMembers localeCompare dgNodes .manager ≠ [] ∧ workers ≠ [] then
    let ready := (workers.filter fun n =>
      (n.swarmNode.map SwarmNodeInfo.state <|> n.status) = some "ready").length
    [{ id := CONTROL_SUMMARY_ID
       type := .controlSummary
       data := .controlSummary { ready, total := workers.length, healthy := ready = workers.length } }]
  else []

def unassignedNode : DGNode := { id := UNASSIGNED_NODE_GROUP_ID, type := "swarmnode", name := "Unassigned" }

/-- The box of the tasks without a node, if there are any. -/
def unassignedBox : List AddedBox :=
  if UNASSIGNED_NODE_GROUP_ID ∈ placeTasks localeCompare dgNodes then
    [addBoxOf localeCompare dgNodes localNodeId UNASSIGNED_NODE_GROUP_ID unassignedNode none none]
  else []

/-- All boxes, as they are added. -/
def addedBoxes : List AddedBox :=
  roleBoxes localeCompare dgNodes localNodeId .manager ++ roleBoxes localeCompare dgNodes localNodeId .worker ++
    unassignedBox localeCompare dgNodes localNodeId

/-- The containers while the local node is unknown. -/
def freeContainers : List RFNode :=
  if (truthy (localGroupId dgNodes localNodeId)).isSome then []
  else (runningContainers dgNodes).map (containerNode none)

def toNodeGroupedFlowNodes : List RFNode :=
  let roles := roleGroup localeCompare dgNodes localNodeId .manager ++
    roleGroup localeCompare dgNodes localNodeId .worker ++ controlSummary localeCompare dgNodes
  let added := addedBoxes localeCompare dgNodes localNodeId
  roles ++ added.map AddedBox.box ++ added.flatMap AddedBox.cards ++ freeContainers dgNodes localNodeId

/-! ## The key -/

/-- The task rows of a card. -/
def rowCount (n : RFNode) : Nat :=
  match n.type, n.data with
  | .nodeServiceCard, .nodeServiceCard data => data.tasks.length
  | _, _ => 0

def nodeRow (n : RFNode) : String := n.id ++ ">" ++ n.parentId.getD "" ++ "#" ++ toString (rowCount n)

def nodeGroupedTopologyKey : String :=
  CodeUnits.join ',' (CodeUnits.sort ((toNodeGroupedFlowNodes localeCompare dgNodes localNodeId).map nodeRow))

end View

end Dockgraph.Frontend
