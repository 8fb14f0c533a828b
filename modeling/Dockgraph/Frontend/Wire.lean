import Dockgraph.Collector.Types
import Dockgraph.Frontend.Types

/-!
# The wire between backend and client

What `JSON.parse` yields on the client for a value the backend marshals under the
JSON tags of `collector/types.go`: an `omitempty` field with an empty value is an
absent property.
-/
namespace Dockgraph.Frontend

def omitString (s : String) : Option String := if s = "" then none else some s

def omitInt (n : Int) : Option Int := if n = 0 then none else some n

def omitBool (b : Bool) : Option Bool := if b then some true else none

/-- A nil slice and an empty one are both left out. -/
def omitSlice {α β : Type} (encode : α → β) (s : Collector.Slice α) : Option (List β) :=
  if s.elems = [] then none else some (s.elems.map encode)

def omitMap (m : Collector.StringMap) : Option (Finmap fun _ : String => String) :=
  if m.entries = ∅ then none else some m.entries

def omitList {α β : Type} (encode : α → β) (xs : List α) : Option (List β) :=
  if xs = [] then none else some (xs.map encode)

def encodePortMapping (p : Collector.PortMapping) : PortMapping where
  host := p.host
  hostEnd := omitInt p.hostEnd
  container := p.container
  containerEnd := omitInt p.containerEnd
  protocol := omitString p.protocol

def encodeMount (m : Collector.ComposeMount) : Mount where
  type := m.type
  source := omitString m.source
  destination := m.destination
  rw := m.rw
  name := omitString m.name

def encodeCompose (c : Collector.ComposeConfig) : ComposeConfig where
  service := c.service
  command := omitSlice id c.command
  entrypoint := omitSlice id c.entrypoint
  environment := omitMap c.environment
  labels := omitMap c.labels
  restart := omitString c.restart
  dependsOn := omitSlice id c.dependsOn
  volumes := omitSlice encodeMount c.volumes
  networks := omitSlice id c.networks
  user := omitString c.user
  workingDir := omitString c.workingDir
  privileged := omitBool c.privileged
  readOnly := omitBool c.readOnly
  capAdd := omitSlice id c.capAdd
  capDrop := omitSlice id c.capDrop

def encodeReplicas (r : Collector.ReplicaCount) : ReplicaCount where
  running := r.running
  desired := r.desired
  completed := omitInt r.completed

def encodeTask (t : Collector.TaskInfo) : TaskInfo where
  id := t.id
  slot := omitInt t.slot
  nodeId := omitString t.nodeID
  nodeHostname := omitString t.nodeHostname
  state := omitString t.state
  desiredState := omitString t.desiredState
  containerId := omitString t.containerID
  error := omitString t.error
  timestamp := omitString t.timestamp

def encodeService (s : Collector.ServiceInfo) : ServiceInfo where
  mode := omitString s.mode
  replicas := encodeReplicas s.replicas
  tasks := omitSlice encodeTask s.tasks
  updateStatus := omitString s.updateStatus

def encodeSwarmNode (s : Collector.SwarmNodeInfo) : SwarmNodeInfo where
  id := s.id
  role := s.role
  leader := some s.leader
  availability := s.availability
  state := s.state
  addr := omitString s.addr
  engineVersion := omitString s.engineVersion
  nanoCpus := omitInt s.nanoCPUs
  memoryBytes := omitInt s.memoryBytes

def encodeNode (n : Collector.Node) : DGNode where
  id := n.id
  type := n.type
  name := n.name
  image := omitString n.image
  status := omitString n.status
  ports := omitSlice encodePortMapping n.ports
  labels := omitMap n.labels
  networkId := omitString n.networkID
  driver := omitString n.driver
  subnet := omitString n.subnet
  gateway := omitString n.gateway
  source := omitString n.source
  createdAt := omitString n.createdAt
  compose := n.compose.map encodeCompose
  stack := omitString n.stack
  service := n.service.map encodeService
  swarmNode := n.swarmNode.map encodeSwarmNode

def encodeEdge (e : Collector.Edge) : DGEdge where
  id := e.id
  type := e.type
  source := e.source
  target := e.target
  mountPath := omitString e.mountPath

/-- `nodes` and `edges` carry no `omitempty`: they are arrays, empty or not. -/
def encodeSnapshot (s : Collector.GraphSnapshot) : Graph where
  nodes := s.nodes.map encodeNode
  edges := s.edges.map encodeEdge

def encodeDelta (d : Collector.DeltaUpdate) : DeltaUpdate where
  nodesAdded := omitList encodeNode d.nodesAdded
  nodesRemoved := omitList id d.nodesRemoved
  nodesUpdated := omitList encodeNode d.nodesUpdated
  edgesAdded := omitList encodeEdge d.edgesAdded
  edgesRemoved := omitList id d.edgesRemoved

@[simp] theorem encodeNode_id (n : Collector.Node) : (encodeNode n).id = n.id := rfl

@[simp] theorem encodeEdge_id (e : Collector.Edge) : (encodeEdge e).id = e.id := rfl

end Dockgraph.Frontend
