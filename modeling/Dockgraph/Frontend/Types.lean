import Mathlib.Data.Finmap

/-!
# The client's graph types

The object types of `types.ts` as `JSON.parse` yields them: an optional property
is absent or holds a value, never `undefined`. Numbers are the integers the
backend sends.
-/
namespace Dockgraph.Frontend

structure PortMapping where
  host : Int
  hostEnd : Option Int := none
  container : Int
  containerEnd : Option Int := none
  protocol : Option String := none
  deriving DecidableEq

/-- A compose mount; its `source` is absent when the backend leaves it empty. -/
structure Mount where
  type : String
  source : Option String := none
  destination : String
  rw : Bool
  name : Option String := none
  deriving DecidableEq

structure ComposeConfig where
  service : String
  command : Option (List String) := none
  entrypoint : Option (List String) := none
  environment : Option (Finmap fun _ : String => String) := none
  labels : Option (Finmap fun _ : String => String) := none
  restart : Option String := none
  dependsOn : Option (List String) := none
  volumes : Option (List Mount) := none
  networks : Option (List String) := none
  user : Option String := none
  workingDir : Option String := none
  privileged : Option Bool := none
  readOnly : Option Bool := none
  capAdd : Option (List String) := none
  capDrop : Option (List String) := none
  deriving DecidableEq

structure ReplicaCount where
  running : Int
  desired : Int
  completed : Option Int := none
  deriving DecidableEq

structure TaskInfo where
  id : String
  slot : Option Int := none
  nodeId : Option String := none
  nodeHostname : Option String := none
  state : Option String := none
  desiredState : Option String := none
  containerId : Option String := none
  error : Option String := none
  timestamp : Option String := none
  deriving DecidableEq

structure ServiceInfo where
  mode : Option String := none
  replicas : ReplicaCount
  tasks : Option (List TaskInfo) := none
  updateStatus : Option String := none
  deriving DecidableEq

structure SwarmNodeInfo where
  id : String
  role : String
  leader : Option Bool := none
  availability : String
  state : String
  addr : Option String := none
  engineVersion : Option String := none
  nanoCpus : Option Int := none
  memoryBytes : Option Int := none
  deriving DecidableEq

structure DGNode where
  id : String
  type : String
  name : String
  image : Option String := none
  status : Option String := none
  ports : Option (List PortMapping) := none
  labels : Option (Finmap fun _ : String => String) := none
  networkId : Option String := none
  driver : Option String := none
  subnet : Option String := none
  gateway : Option String := none
  source : Option String := none
  createdAt : Option String := none
  compose : Option ComposeConfig := none
  stack : Option String := none
  service : Option ServiceInfo := none
  swarmNode : Option SwarmNodeInfo := none
  deriving DecidableEq

structure DGEdge where
  id : String
  type : String
  source : String
  target : String
  mountPath : Option String := none
  deriving DecidableEq

/-- The `nodes` and `edges` of a snapshot message, and of the client's state. -/
structure Graph where
  nodes : List DGNode := []
  edges : List DGEdge := []
  deriving DecidableEq

structure DeltaUpdate where
  nodesAdded : Option (List DGNode) := none
  nodesRemoved : Option (List String) := none
  nodesUpdated : Option (List DGNode) := none
  edgesAdded : Option (List DGEdge) := none
  edgesRemoved : Option (List String) := none
  deriving DecidableEq

end Dockgraph.Frontend
