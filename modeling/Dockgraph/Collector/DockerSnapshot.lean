import Dockgraph.Collector.AgentLocate
import Dockgraph.Collector.HistoryQuery
import Dockgraph.Collector.Ports
import Dockgraph.Library.Text
import Dockgraph.Library.Timestamp
import Dockgraph.State.Merge

/-!
# The graph of one daemon (`collector/docker_snapshot.go`)

Networks, containers and volumes as nodes, and the edges of containers. A container is homed in
its primary network, the others give edges.
-/
namespace Dockgraph.Collector

open Keyed

/-! ## What the daemon lists -/

structure APIPort where
  privatePort : UInt16
  publicPort : UInt16

structure MountPoint where
  type : String
  name : String := ""
  destination : String := ""

/-- `container.Summary`. -/
structure ContainerSummary where
  names : List String
  image : String := ""
  created : Int := 0
  state : String := ""
  status : String := ""
  ports : List APIPort := []
  labels : StringMap := none
  /-- The IDs of the networks, in the order the loop over the map visits them; nil without
  settings. -/
  networks : Slice String := none
  mounts : List MountPoint := []

structure IPAMConfig where
  subnet : String
  gateway : String

/-- `network.Summary`. -/
structure NetworkSummary where
  id : String
  name : String
  driver : String := ""
  labels : StringMap := none
  ingress : Bool := false
  ipam : List IPAMConfig := []

structure Volume where
  name : String
  driver : String := ""
  labels : StringMap := none

structure DockerResources where
  containers : List ContainerSummary := []
  networks : List NetworkSummary := []
  volumes : List Volume := []

/-- What appending to a nil slice leaves. -/
def Slice.appended {α : Type} (xs : List α) : Slice α := if xs.isEmpty then none else some xs

/-! ## Labels and states (`collector/docker_helpers.go`) -/

def composeProjectLabel : String := "com.docker.compose.project"
def stackNamespaceLabel : String := "com.docker.stack.namespace"
def selfExcludeLabel : String := "dockgraph.self"

def isSelfExcluded (labels : StringMap) : Bool := labels.get selfExcludeLabel = "true"

def projectOf (labels : StringMap) : String :=
  let p := labels.get composeProjectLabel
  if p ≠ "" then p else labels.get stackNamespaceLabel

def projectLabels (labels : StringMap) : StringMap :=
  let p := labels.get composeProjectLabel
  if p ≠ "" then some (Finmap.singleton composeProjectLabel p) else none

def containerStatus (state status : String) : String :=
  if "(unhealthy)".toList <:+: status.toList then "unhealthy" else state

/-- Body of the loop over the published ports. -/
def addPublished (acc : Finset (Int × Int) × List PortMapping) (p : APIPort) :
    Finset (Int × Int) × List PortMapping :=
  let k : Int × Int := (p.publicPort.toNat, p.privatePort.toNat)
  if p.publicPort = 0 ∨ k ∈ acc.1 then acc
  else (insert k acc.1, acc.2 ++ [{ host := k.1, container := k.2 }])

def extractPorts (apiPorts : List APIPort) : Slice PortMapping :=
  .appended (portRanges (apiPorts.foldl addPublished (∅, [])).2)

/-! ## Nodes (`collector/node_builder.go`) -/

def buildContainerNode (name image status : String) (ports : Slice PortMapping) : Node :=
  { id := "container:" ++ name, type := "container", name, image, status, ports }

def buildNetworkNode (name driver : String) : Node :=
  { id := "network:" ++ name, type := "network", name, driver }

def buildVolumeNode (name driver status : String) : Node :=
  { id := "volume:" ++ name, type := "volume", name, driver, status }

/-- The project that owns each network, by the network's name. -/
abbrev NetworkProjects := AList fun _ : String => String

/-- The primary network, empty without one, and the others in order. -/
def classifyNetworks (netNames : List String) (ownProject : String)
    (networkProjects : NetworkProjects) : String × List String :=
  let sorted := netNames.mergeSort fun a b => a ≤ b
  let owned := sorted.find? fun name => (networkProjects.lookup name).getD "" = ownProject
  let own := if ownProject ≠ "" then owned.getD "" else ""
  let primary := if own = "" then sorted.headD "" else own
  (primary, sorted.filter fun name => name ≠ primary)

/-! ## Edges of workloads -/

/-- The edge from a workload to a network it is not homed in. -/
def networkEdge (name source netName : String) : Edge :=
  { id := "e:net:" ++ name ++ ":" ++ netName
    type := "secondary_network"
    source
    target := "network:" ++ netName }

/-- The edge from a volume to a workload that mounts it. -/
def mountEdge (volume name target mountPath : String) : Edge :=
  { id := "e:vol:" ++ volume ++ ":" ++ name
    type := "volume_mount"
    source := "volume:" ++ volume
    target
    mountPath }

def dependsEdge (name depName : String) : Edge :=
  { id := "e:dep:" ++ name ++ ":" ++ depName
    type := "depends_on"
    source := "container:" ++ name
    target := "container:" ++ depName }

/-! ## Lookups -/

def isBuiltinNetwork (n : NetworkSummary) : Bool :=
  n.name ∈ ["bridge", "host", "none", "ingress", "docker_gwbridge"] ∨ n.ingress

/-- Network names by ID. -/
abbrev NetworkNames := AList fun _ : String => String

def resolveNetworkNames (networks : List NetworkSummary) : NetworkNames :=
  networks.foldl (fun idToName n => if isBuiltinNetwork n then idToName else idToName.insert n.id n.name) ∅

def networkProjectMap (networks : List NetworkSummary) : NetworkProjects :=
  networks.foldl (fun projects n =>
    let p := projectOf n.labels
    if p ≠ "" then projects.insert n.name p else projects) ∅

/-- The name a container is shown under, `none` without names. -/
def ContainerSummary.displayName (c : ContainerSummary) : Option String :=
  c.names.head?.map fun name => if hasPrefix name "/" then String.ofList (name.toList.drop 1) else name

/-- Container names by project and service. -/
abbrev ServiceNames := AList fun _ : String × String => String

def resolveServiceNames (containers : List ContainerSummary) : ServiceNames :=
  containers.foldl (fun m c =>
    match c.displayName with
    | none => m
    | some name =>
      let project := projectOf c.labels
      let service := c.labels.get "com.docker.compose.service"
      if project ≠ "" ∧ service ≠ "" then m.insert (project, service) name else m) ∅

/-! ## Containers -/

def classifyContainerNetworks (c : ContainerSummary) (networkIDToName : NetworkNames)
    (networkProjects : NetworkProjects) : String × List String :=
  let tracked := c.networks.elems.filterMap networkIDToName.lookup
  classifyNetworks tracked (projectOf c.labels) networkProjects

/-- The container that an entry `service:condition:restart` names. -/
def dependency (serviceNames : ServiceNames) (project : String) (entry : List Char) : Option String :=
  let service := String.ofList ((Text.split ':' entry).headD [])
  if service = "" then none else serviceNames.lookup (project, service)

def dependencies (c : ContainerSummary) (serviceNames : ServiceNames) : List String :=
  let project := projectOf c.labels
  let depsLabel := c.labels.get "com.docker.compose.depends_on"
  if project ≠ "" ∧ depsLabel ≠ "" then
    (Text.split ',' depsLabel.toList).filterMap (dependency serviceNames project)
  else []

def ContainerSummary.volumeMounts (c : ContainerSummary) : List MountPoint :=
  c.mounts.filter fun m => m.type = "volume"

def buildContainerEdges (name : String) (c : ContainerSummary) (networkIDToName : NetworkNames)
    (networkProjects : NetworkProjects) (serviceNames : ServiceNames) : List Edge :=
  (classifyContainerNetworks c networkIDToName networkProjects).2.map
      (networkEdge name ("container:" ++ name)) ++
    c.volumeMounts.map (fun m => mountEdge m.name name ("container:" ++ name) m.destination) ++
    (dependencies c serviceNames).map (dependsEdge name)

/-! ## Projects of DockGraph alone -/

structure ProjectMember where
  project : String
  self : Bool

def containerMembers (containers : List ContainerSummary) : List ProjectMember :=
  containers.map fun c => ⟨projectOf c.labels, isSelfExcluded c.labels⟩

/-- Body of the loop over the members; the projects with DockGraph and those with others. -/
def addMember (acc : Finset String × Finset String) (m : ProjectMember) :
    Finset String × Finset String :=
  if m.project = "" then acc
  else if m.self then (insert m.project acc.1, acc.2)
  else (acc.1, insert m.project acc.2)

def selfOnlyProjects (members : List ProjectMember) : Finset String :=
  let (hasSelf, hasOther) := members.foldl addMember (∅, ∅)
  hasSelf \ hasOther

/-! ## The snapshot -/

/-- Whether a project's networks and volumes are hidden. -/
def hidden (selfProjects : Finset String) (project : String) : Bool :=
  project ≠ "" ∧ project ∈ selfProjects

def networkNode (networkIDToName : NetworkNames) (selfProjects : Finset String) (n : NetworkSummary) :
    Option Node :=
  let project := projectOf n.labels
  if (networkIDToName.lookup n.id).getD "" = "" ∨ hidden selfProjects project then none
  else
    some { buildNetworkNode n.name n.driver with
      subnet := (n.ipam.head?.map IPAMConfig.subnet).getD ""
      gateway := (n.ipam.head?.map IPAMConfig.gateway).getD ""
      labels := projectLabels n.labels
      stack := project }

/-- A container's node under its name. -/
def containerNode (networkIDToName : NetworkNames) (networkProjects : NetworkProjects)
    (name : String) (c : ContainerSummary) : Node :=
  let (primary, _) := classifyContainerNetworks c networkIDToName networkProjects
  { buildContainerNode name c.image (containerStatus c.state c.status) (extractPorts c.ports) with
    createdAt := if 0 < c.created then Timestamp.rfc3339 ((c.created + unixEpoch) * 1_000_000_000) else ""
    networkID := if primary ≠ "" then "network:" ++ primary else ""
    labels := projectLabels c.labels
    stack := projectOf c.labels }

def volumeNode (selfProjects : Finset String) (v : Volume) : Option Node :=
  let project := projectOf v.labels
  if hidden selfProjects project then none
  else some { buildVolumeNode v.name v.driver "created" with labels := projectLabels v.labels, stack := project }

/-- The containers that get a node, with the names they get it under. -/
def visibleContainers (containers : List ContainerSummary) : List (String × ContainerSummary) :=
  containers.filterMap fun c =>
    if isSelfExcluded c.labels then none else c.displayName.map fun name => (name, c)

def assembleSnapshot (res : DockerResources) (selfProjects : Finset String) : GraphSnapshot :=
  let networkIDToName := resolveNetworkNames res.networks
  let networkProjects := networkProjectMap res.networks
  let serviceNames := resolveServiceNames res.containers
  let visible := visibleContainers res.containers
  { nodes :=
      res.networks.filterMap (networkNode networkIDToName selfProjects) ++
        visible.map (fun c => containerNode networkIDToName networkProjects c.1 c.2) ++
        res.volumes.filterMap (volumeNode selfProjects)
    edges := visible.flatMap fun c =>
      buildContainerEdges c.1 c.2 networkIDToName networkProjects serviceNames }

def sortSnapshot (ord : RangeOrder) (snap : GraphSnapshot) : GraphSnapshot :=
  { nodes := State.sortByID ord Node.id snap.nodes, edges := State.sortByID ord Edge.id snap.edges }

/-! ## Networks in any order -/

/-- A workload's networks are classified alike in whatever order they are listed. -/
theorem classifyNetworks_perm {xs ys : List String} (perm : xs.Perm ys) (ownProject : String)
    (networkProjects : NetworkProjects) :
    classifyNetworks xs ownProject networkProjects = classifyNetworks ys ownProject networkProjects := by
  have sorted : (xs.mergeSort fun a b => a ≤ b) = ys.mergeSort fun a b => a ≤ b :=
    SortBy.mergeSort_eq_of_perm id Function.injective_id perm
  unfold classifyNetworks
  rw [sorted]

end Dockgraph.Collector
