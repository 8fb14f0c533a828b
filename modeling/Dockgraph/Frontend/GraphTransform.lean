import Dockgraph.Frontend.Flow
import Dockgraph.Library.Keyed

/-!
# The network view (`utils/graphTransform.ts`, `utils/stack.ts`)

Workloads and volumes are drawn inside the groups of their networks. The colour of a network is taken
as a function of its name and stack.
-/
namespace Dockgraph.Frontend

open Keyed

/-! ## Stacks -/

def COMPOSE_PROJECT_LABEL : String := "com.docker.compose.project"

def STACK_NAMESPACE_LABEL : String := "com.docker.stack.namespace"

/-- `node.labels?.[name]`. -/
def labelOf (node : DGNode) (name : String) : Option String := node.labels.bind fun labels => labels.lookup name

def projectOf (node : DGNode) : Option String :=
  truthy node.stack <|> truthy (labelOf node COMPOSE_PROJECT_LABEL) <|> truthy (labelOf node STACK_NAMESPACE_LABEL)

def isServiceLive (node : DGNode) : Bool :=
  match node.service with
  | some service => 0 < service.replicas.running
  | none => node.status = some "running"

/-! ## Nodes -/

def UNMANAGED_GROUP_ID : String := "group:unmanaged"

def isEndpointActive : Option DGNode → Bool
  | none => false
  | some node =>
    if node.type = "service" then isServiceLive node
    else if node.type ≠ "container" then true
    else node.status = some "running"

/-- The size of a group before the layout. -/
def groupSize : Size := { width := 200, height := 150 }

def unmanagedNode : DGNode := { id := UNMANAGED_GROUP_ID, type := "network", name := "unmanaged" }

def buildNetworkGroups (networks containers : List DGNode) (dgEdges : List DGEdge) : List RFNode :=
  let networksWithChildren := containers.filterMap fun c => truthy c.networkId
  let networksWithEdges := (dgEdges.filter fun e => e.type = "secondary_network").map DGEdge.target
  let shown := networks.filter fun net => net.id ∈ networksWithChildren ∨ net.id ∈ networksWithEdges
  let groups := shown.map fun net =>
    { id := net.id, type := .networkGroup, data := .graphNode net, style := some groupSize : RFNode }
  let hasUnmanaged := containers.any fun c => truthy c.source = none ∧ truthy c.networkId = none
  if hasUnmanaged then
    groups ++ [{ id := UNMANAGED_GROUP_ID, type := .networkGroup, data := .graphNode unmanagedNode
                 style := some groupSize }]
  else groups

/-- The group a workload asks for. An empty network ID asks for none. -/
def groupOf (c : DGNode) : Option String :=
  truthy (c.networkId <|> if truthy c.source = none then some UNMANAGED_GROUP_ID else none)

/-- Parent only to a group that was created. -/
def parentAmong (groupIds : List String) (group : Option String) : Option String :=
  group.filter fun id => id ∈ groupIds

def buildContainerNodes (containers : List DGNode) (groupIds : List String) : List RFNode :=
  containers.map fun c =>
    { id := c.id
      type := if c.type = "service" then .serviceNode else .containerNode
      parentId := parentAmong groupIds (groupOf c)
      data := .graphNode c }

/-- The group whose volumes a workload's are. -/
def volumesGroupOf (c : DGNode) : Option String :=
  truthy c.networkId <|> if truthy c.source = none then some UNMANAGED_GROUP_ID else none

def containerGroup (containers : List DGNode) : AList fun _ : String => String :=
  containers.foldl (fun m c =>
    match volumesGroupOf c with
    | some group => m.insert c.id group
    | none => m) ∅

/-- The first consumer of a volume that has a group decides. -/
def volumeGroupMap (containers : List DGNode) (dgEdges : List DGEdge) : AList fun _ : String => String :=
  (dgEdges.filter fun e => e.type = "volume_mount").foldl (fun m e =>
    match truthy ((containerGroup containers).lookup e.target) with
    | some group => if e.source ∈ m then m else m.insert e.source group
    | none => m) ∅

def buildVolumeNodes (volumes containers : List DGNode) (dgEdges : List DGEdge) (groupIds : List String) :
    List RFNode :=
  volumes.map fun v =>
    { id := v.id
      type := .volumeNode
      parentId := parentAmong groupIds (truthy ((volumeGroupMap containers dgEdges).lookup v.id))
      data := .graphNode v }

def isWorkload (node : DGNode) : Bool := node.type = "container" ∨ node.type = "service"

def toReactFlowNodes (dgNodes : List DGNode) (dgEdges : List DGEdge) : List RFNode :=
  let containers := dgNodes.filter fun n => n.type = "container" ∨ n.type = "service"
  let networks := dgNodes.filter fun n => n.type = "network"
  let volumes := dgNodes.filter fun n => n.type = "volume"
  let groups := buildNetworkGroups networks containers dgEdges
  let groupIds := groups.map RFNode.id
  groups ++ buildContainerNodes containers groupIds ++ buildVolumeNodes volumes containers dgEdges groupIds

/-! ## Edges -/

def VOLUME_COLOR : String := "#f97316"

def ANIMATION_NODE_LIMIT : Nat := 150

def toReactFlowEdges (networkColor : String → Option String → String) (dgEdges : List DGEdge) (dgNodes : List DGNode)
    (defaultStroke accentStroke : String) : List RFEdge :=
  let nodeMap := index DGNode.id dgNodes
  (dgEdges.filter fun e => e.source ∈ nodeMap ∧ e.target ∈ nodeMap).map fun e =>
    let stroke :=
      if e.type = "secondary_network" then
        match nodeMap.lookup e.target with
        | some targetNet => networkColor targetNet.name (projectOf targetNet)
        | none => defaultStroke
      else if e.type = "volume_mount" then VOLUME_COLOR
      else if e.type = "depends_on" then accentStroke
      else defaultStroke
    let active := isEndpointActive (nodeMap.lookup e.source) && isEndpointActive (nodeMap.lookup e.target)
    { id := e.id
      source := e.source
      target := e.target
      data := some
        { edgeType := e.type
          active
          animated := active && dgNodes.length ≤ ANIMATION_NODE_LIMIT
          nodeCount := dgNodes.length }
      stroke := some stroke }

end Dockgraph.Frontend
