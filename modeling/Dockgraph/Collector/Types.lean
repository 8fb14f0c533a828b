import Mathlib.Data.Finmap
import Mathlib.Data.Rat.Init

/-! The wire and graph types of the collector package. -/
namespace Dockgraph.Collector

/-- A Go slice; `none` is the nil slice, which `len` and `range` take as empty. -/
abbrev Slice (α : Type) := Option (List α)

def Slice.elems {α : Type} (s : Slice α) : List α := s.getD []

/-- A Go `map[string]string`; `none` is the nil map, which reads as empty. -/
abbrev StringMap := Option (Finmap fun _ : String => String)

def StringMap.entries (m : StringMap) : Finmap fun _ : String => String := m.getD ∅

/-- `m[k]`: a missing key reads as the empty string. -/
def StringMap.get (m : StringMap) (k : String) : String := (m.entries.lookup k).getD ""

structure PortMapping where
  host : Int := 0
  hostEnd : Int := 0
  container : Int := 0
  containerEnd : Int := 0
  protocol : String := ""
  deriving DecidableEq

structure SwarmNodeInfo where
  id : String := ""
  role : String := ""
  leader : Bool := false
  availability : String := ""
  state : String := ""
  addr : String := ""
  engineVersion : String := ""
  nanoCPUs : Int := 0
  memoryBytes : Int := 0
  deriving DecidableEq

structure ReplicaCount where
  running : Int := 0
  desired : Int := 0
  completed : Int := 0
  deriving DecidableEq

structure TaskInfo where
  id : String := ""
  slot : Int := 0
  nodeID : String := ""
  nodeHostname : String := ""
  state : String := ""
  desiredState : String := ""
  containerID : String := ""
  error : String := ""
  timestamp : String := ""
  deriving DecidableEq

structure ServiceInfo where
  mode : String := ""
  replicas : ReplicaCount := {}
  tasks : Slice TaskInfo := none
  updateStatus : String := ""
  deriving DecidableEq

structure ComposeMount where
  type : String := ""
  source : String := ""
  destination : String := ""
  rw : Bool := false
  name : String := ""
  deriving DecidableEq

structure ComposeConfig where
  service : String := ""
  command : Slice String := none
  entrypoint : Slice String := none
  environment : StringMap := none
  labels : StringMap := none
  restart : String := ""
  dependsOn : Slice String := none
  volumes : Slice ComposeMount := none
  networks : Slice String := none
  user : String := ""
  workingDir : String := ""
  privileged : Bool := false
  readOnly : Bool := false
  capAdd : Slice String := none
  capDrop : Slice String := none
  deriving DecidableEq

/-- A graph node. The pointers `Compose`, `Service` and `SwarmNode` are only ever compared
and copied by value, so a nil pointer is `none`. -/
structure Node where
  id : String
  type : String
  name : String
  image : String := ""
  status : String := ""
  ports : Slice PortMapping := none
  labels : StringMap := none
  networkID : String := ""
  subnet : String := ""
  gateway : String := ""
  driver : String := ""
  source : String := ""
  createdAt : String := ""
  compose : Option ComposeConfig := none
  stack : String := ""
  service : Option ServiceInfo := none
  swarmNode : Option SwarmNodeInfo := none
  deriving DecidableEq

structure Edge where
  id : String
  type : String
  source : String
  target : String
  mountPath : String := ""
  deriving DecidableEq

/-- The code never tells a nil list of nodes or edges from an empty one, but for the JSON of a
snapshot, whose lists `mergeSnapshots` makes non-nil. -/
structure GraphSnapshot where
  nodes : List Node := []
  edges : List Edge := []
  deriving DecidableEq

structure DeltaUpdate where
  nodesAdded : List Node := []
  nodesRemoved : List String := []
  nodesUpdated : List Node := []
  edgesAdded : List Edge := []
  edgesRemoved : List String := []
  deriving DecidableEq

/-- CPU figures are exact here: `float64` in the source. -/
structure ContainerStats where
  cpuPercent : ℚ
  cpuThrottled : ℚ
  memUsage : Nat
  memLimit : Nat
  netRx : Nat
  netTx : Nat
  netRxErrors : Nat
  netTxErrors : Nat
  blockRead : Nat
  blockWrite : Nat
  pids : Nat
  deriving DecidableEq

structure StatsSnapshot where
  stats : Finmap fun _ : String => ContainerStats

def msgTypeSnapshot : String := "snapshot"
def msgTypeDelta : String := "delta"

/-- What passes from the state manager to the hub. `base` is a history variable the source does
not have and no function reads: the merged graph a delta was computed from. -/
structure StateMessage where
  type : String
  snapshot : Option GraphSnapshot := none
  delta : Option DeltaUpdate := none
  stats : Option StatsSnapshot := none
  base : GraphSnapshot := {}

structure StateUpdate where
  snapshot : Option GraphSnapshot

def protocolVersion : Nat := 3

/-- The payloads stored in the `any`-typed `Data` of an envelope, the delta with its `base`
carried along from the state message. -/
inductive WireData
  | snapshot (s : GraphSnapshot)
  | delta (d : DeltaUpdate) (base : GraphSnapshot)
  | stats (s : StatsSnapshot)

structure WireMessage where
  type : String
  version : Nat
  data : WireData

def newSnapshotMessage (s : GraphSnapshot) : WireMessage :=
  ⟨msgTypeSnapshot, protocolVersion, .snapshot s⟩

def newDeltaMessage (d : DeltaUpdate) (base : GraphSnapshot) : WireMessage :=
  ⟨msgTypeDelta, protocolVersion, .delta d base⟩

def newStatsMessage (s : StatsSnapshot) : WireMessage :=
  ⟨"stats", protocolVersion, .stats s⟩

end Dockgraph.Collector
