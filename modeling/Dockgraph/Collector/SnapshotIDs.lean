import Dockgraph.Collector.SwarmSnapshot
import Dockgraph.State.MergedGraph

/-!
# IDs of a swarm's graph

The ID of an edge names both of its ends, but not the kinds of workload they are. So it is shared
by an edge of a container and one of a service of the same name.
-/
namespace Dockgraph.Collector

open Keyed

/-! ## The relations of a graph -/

/-- What networks and volumes are connected to. -/
inductive Workload
  | container
  | service
  deriving DecidableEq

def Workload.nodeID : Workload → String → String
  | .container, name => "container:" ++ name
  | .service, name => "service:" ++ name

theorem Workload.nodeID_inj {k l : Workload} {name : String} (same : k.nodeID name = l.nodeID name) :
    k = l := by
  have chars := congrArg String.toList same
  cases k <;> cases l <;> simp [nodeID] at chars ⊢

/-- What an edge stands for. -/
inductive Relation
  | joins (kind : Workload) (name net : String)
  | mounts (kind : Workload) (name volume : String)
  | depends (name dep : String)

namespace Relation

def edge (mountPath : String) : Relation → Edge
  | joins kind name net => networkEdge name (kind.nodeID name) net
  | mounts kind name volume => mountEdge volume name (kind.nodeID name) mountPath
  | depends name dep => dependsEdge name dep

def name : Relation → String
  | joins _ name _ => name
  | mounts _ name _ => name
  | depends name _ => name

def kind : Relation → Workload
  | joins kind _ _ => kind
  | mounts kind _ _ => kind
  | depends _ _ => .container

/-- All but the kind: what the ID of the edge tells. -/
def tag : Relation → String × String × String
  | joins _ name net => ("net", name, net)
  | mounts _ name volume => ("vol", name, volume)
  | depends name dep => ("dep", name, dep)

end Relation

/-- The ends and the type of an edge, which its ID is to determine. -/
def Edge.ends (e : Edge) : String × String × String := (e.type, e.source, e.target)

section Ids

variable {r s : Relation} {p q : String}

theorem Relation.id_eq_of_tag_eq (same : r.tag = s.tag) : (r.edge p).id = (s.edge q).id := by
  cases r <;> cases s <;> simp_all [tag, edge, networkEdge, mountEdge, dependsEdge]

/-- An ID has one way to be read when workload names have no colons. -/
theorem Relation.tag_eq_of_id_eq (hr : ':' ∉ r.name.toList) (hs : ':' ∉ s.name.toList)
    (same : (r.edge p).id = (s.edge q).id) : r.tag = s.tag := by
  have chars := congrArg String.toList same
  cases r <;> cases s <;> simp [edge, networkEdge, mountEdge, dependsEdge] at chars
  case joins.joins =>
    obtain ⟨first, rest⟩ := Text.split_at_first hr hs chars
    exact Prod.ext rfl (Prod.ext (String.toList_inj.mp first) (String.toList_inj.mp rest))
  case mounts.mounts =>
    obtain ⟨first, rest⟩ := Text.split_at_last hr hs chars
    exact Prod.ext rfl (Prod.ext (String.toList_inj.mp rest) (String.toList_inj.mp first))
  case depends.depends =>
    obtain ⟨first, rest⟩ := Text.split_at_first hr hs chars
    exact Prod.ext rfl (Prod.ext (String.toList_inj.mp first) (String.toList_inj.mp rest))

/-- The ends of an edge tell the kind as well. -/
theorem Relation.ends_eq_iff (same : r.tag = s.tag) :
    (r.edge p).ends = (s.edge q).ends ↔ r.kind = s.kind := by
  cases r <;> cases s <;> simp [tag] at same
  case joins.joins k _ _ l _ _ =>
    obtain ⟨rfl, rfl⟩ := same
    constructor
    · intro ends
      exact Workload.nodeID_inj (congrArg (fun e => e.2.1) ends)
    · rintro (rfl : k = l)
      rfl
  case mounts.mounts k _ _ l _ _ =>
    obtain ⟨rfl, rfl⟩ := same
    constructor
    · intro ends
      exact Workload.nodeID_inj (congrArg (fun e => e.2.2) ends)
    · rintro (rfl : k = l)
      rfl
  case depends.depends =>
    obtain ⟨rfl, rfl⟩ := same
    exact iff_of_true rfl rfl

end Ids

/-! ## Edges -/

section Edges

variable (ord : RangeOrder) (res : SwarmResources)

def visibleServices : List Swarm.Service := res.services.filter fun svc => !isServiceSelfExcluded svc

/-- A visible workload of that name is on a network it is not homed in. -/
def Joins : Workload → String → String → Prop
  | .container, name, net => ∃ c, (name, c) ∈ visibleContainers res.local.containers ∧
      net ∈ (classifyContainerNetworks c (resolveNetworkNames res.networks)
        (networkProjectMap res.networks)).2
  | .service, name, net => ∃ svc ∈ visibleServices res, svc.name = name ∧
      net ∈ (classifyServiceNetworks svc (resolveNetworkNames res.networks)
        (networkProjectMap res.networks)).2

/-- A visible workload of that name mounts the named volume. -/
def Mounts : Workload → String → String → Prop
  | .container, name, volume => ∃ c, (name, c) ∈ visibleContainers res.local.containers ∧
      ∃ m ∈ c.volumeMounts, m.name = volume
  | .service, name, volume => ∃ svc ∈ visibleServices res, svc.name = name ∧
      ∃ m ∈ serviceVolumeMounts svc, m.source = volume

def Depends (name dep : String) : Prop :=
  ∃ c, (name, c) ∈ visibleContainers res.local.containers ∧
    dep ∈ dependencies c (resolveServiceNames res.local.containers)

def Relation.Holds : Relation → Prop
  | joins kind name net => Joins res kind name net
  | mounts kind name volume => Mounts res kind name volume
  | depends name dep => Depends res name dep

theorem foldl_addServiceVolume_edges (stack : String) (mounts : List Swarm.Mount) (acc : Assembled) :
    (mounts.foldl (addServiceVolume stack) acc).snap.edges = acc.snap.edges := by
  induction mounts generalizing acc with
  | nil => rfl
  | cons m rest ih =>
    rw [List.foldl_cons, ih, addServiceVolume]
    split <;> rfl

theorem addService_edges (sc : ServiceContext) (acc : Assembled) (svc : Swarm.Service) :
    (addService ord sc acc svc).snap.edges =
      acc.snap.edges ++ if isServiceSelfExcluded svc then [] else (buildSwarmServiceNode ord svc sc).2 := by
  unfold addService
  by_cases excluded : isServiceSelfExcluded svc
  · simp [excluded]
  · simp [excluded, foldl_addServiceVolume_edges]

theorem foldl_addService_edges (sc : ServiceContext) (services : List Swarm.Service) (acc : Assembled) :
    (services.foldl (addService ord sc) acc).snap.edges = acc.snap.edges ++
      (services.filter fun svc => !isServiceSelfExcluded svc).flatMap fun svc =>
        (buildSwarmServiceNode ord svc sc).2 := by
  induction services generalizing acc with
  | nil => simp
  | cons svc rest ih =>
    rw [List.foldl_cons, ih, addService_edges]
    by_cases excluded : isServiceSelfExcluded svc <;> simp [excluded]

theorem mem_edges {e : Edge} :
    e ∈ (buildSwarmSnapshot ord res).edges ↔
      (∃ c ∈ visibleContainers res.local.containers,
        e ∈ buildContainerEdges c.1 c.2 (resolveNetworkNames res.networks)
          (networkProjectMap res.networks) (resolveServiceNames res.local.containers)) ∨
      ∃ svc ∈ visibleServices res, e ∈ (buildSwarmServiceNode ord svc (serviceContext res)).2 := by
  have start : (localSnapshot res).edges = (visibleContainers res.local.containers).flatMap fun c =>
      buildContainerEdges c.1 c.2 (resolveNetworkNames res.networks) (networkProjectMap res.networks)
        (resolveServiceNames res.local.containers) := rfl
  rw [buildSwarmSnapshot, sortSnapshot, State.mem_sortByID, foldl_addService_edges, start,
    List.mem_append, List.mem_flatMap, List.mem_flatMap]
  rfl

theorem relation_of_mem_edges {e : Edge} (member : e ∈ (buildSwarmSnapshot ord res).edges) :
    ∃ r : Relation, r.Holds res ∧ ∃ path, r.edge path = e := by
  rcases (mem_edges ord res).mp member with ⟨⟨name, c⟩, visible, listed⟩ | ⟨svc, visible, listed⟩
  · rw [buildContainerEdges, List.mem_append, List.mem_append] at listed
    rcases listed with (listed | listed) | listed
    · obtain ⟨net, joined, rfl⟩ := List.mem_map.mp listed
      exact ⟨.joins .container name net, ⟨c, visible, joined⟩, "", rfl⟩
    · obtain ⟨m, mounted, rfl⟩ := List.mem_map.mp listed
      exact ⟨.mounts .container name m.name, ⟨c, visible, m, mounted, rfl⟩, m.destination, rfl⟩
    · obtain ⟨dep, needed, rfl⟩ := List.mem_map.mp listed
      exact ⟨.depends name dep, ⟨c, visible, needed⟩, "", rfl⟩
  · rcases List.mem_append.mp listed with listed | listed
    · obtain ⟨net, joined, rfl⟩ := List.mem_map.mp listed
      exact ⟨.joins .service svc.name net, ⟨svc, visible, rfl, joined⟩, "", rfl⟩
    · obtain ⟨m, mounted, rfl⟩ := List.mem_map.mp listed
      exact ⟨.mounts .service svc.name m.source, ⟨svc, visible, rfl, m, mounted, rfl⟩, m.target, rfl⟩

theorem edge_of_container {name : String} {c : ContainerSummary} {e : Edge}
    (visible : (name, c) ∈ visibleContainers res.local.containers)
    (listed : e ∈ buildContainerEdges name c (resolveNetworkNames res.networks)
      (networkProjectMap res.networks) (resolveServiceNames res.local.containers)) :
    e ∈ (buildSwarmSnapshot ord res).edges :=
  (mem_edges ord res).mpr (.inl ⟨(name, c), visible, listed⟩)

theorem edge_of_service {svc : Swarm.Service} {e : Edge} (visible : svc ∈ visibleServices res)
    (listed : e ∈ (buildSwarmServiceNode ord svc (serviceContext res)).2) :
    e ∈ (buildSwarmSnapshot ord res).edges :=
  (mem_edges ord res).mpr (.inr ⟨svc, visible, listed⟩)

theorem edge_of_joins {kind : Workload} {name net : String} (joins : Joins res kind name net) :
    networkEdge name (kind.nodeID name) net ∈ (buildSwarmSnapshot ord res).edges := by
  cases kind with
  | container =>
    obtain ⟨c, visible, joined⟩ := joins
    apply edge_of_container ord res visible
    exact List.mem_append_left _ (List.mem_append_left _ (List.mem_map_of_mem joined))
  | service =>
    obtain ⟨svc, visible, rfl, joined⟩ := joins
    apply edge_of_service ord res visible
    exact List.mem_append_left _ (List.mem_map_of_mem joined)

theorem edge_of_mounts {kind : Workload} {name volume : String} (mounts : Mounts res kind name volume) :
    ∃ path, mountEdge volume name (kind.nodeID name) path ∈ (buildSwarmSnapshot ord res).edges := by
  cases kind with
  | container =>
    obtain ⟨c, visible, m, mounted, rfl⟩ := mounts
    refine ⟨m.destination, edge_of_container ord res visible ?_⟩
    exact List.mem_append_left _ (List.mem_append_right _ (List.mem_map.mpr ⟨m, mounted, rfl⟩))
  | service =>
    obtain ⟨svc, visible, rfl, m, mounted, rfl⟩ := mounts
    refine ⟨m.target, edge_of_service ord res visible ?_⟩
    exact List.mem_append_right _ (List.mem_map.mpr ⟨m, mounted, rfl⟩)

theorem edge_of_relation {r : Relation} (holds : r.Holds res) :
    ∃ path, r.edge path ∈ (buildSwarmSnapshot ord res).edges := by
  cases r with
  | joins kind name net => exact ⟨"", edge_of_joins ord res holds⟩
  | mounts kind name volume => exact edge_of_mounts ord res holds
  | depends name dep =>
    obtain ⟨c, visible, needed⟩ := holds
    refine ⟨"", edge_of_container ord res visible ?_⟩
    exact List.mem_append_right _ (List.mem_map_of_mem needed)

end Edges

/-! ## When edges of one ID are of one relation -/

/-- No container and service of one name are on one more network or mount one volume. -/
structure Separated (res : SwarmResources) : Prop where
  networks : ∀ name net, Joins res .container name net → ¬Joins res .service name net
  volumes : ∀ name volume, Mounts res .container name volume → ¬Mounts res .service name volume

/-- Names of resources without colons, and unique for each kind. -/
structure NamedApart (res : SwarmResources) : Prop where
  containers : (res.containers.filterMap ContainerSummary.displayName).Nodup
  services : (res.services.map Swarm.Service.name).Nodup
  networks : (res.networks.map NetworkSummary.name).Nodup
  volumes : (res.volumes.map Volume.name).Nodup
  colonFree : ∀ name ∈ res.containers.filterMap ContainerSummary.displayName ++
    res.services.map Swarm.Service.name ++ res.networks.map NetworkSummary.name ++
      res.volumes.map Volume.name, ':' ∉ name.toList

/-- IDs tell nodes apart, and edges between different ends. -/
structure DistinctIDs (s : GraphSnapshot) : Prop where
  nodes : (s.nodes.map Node.id).Nodup
  edges : ∀ e ∈ s.edges, ∀ f ∈ s.edges, e.id = f.id →
    e.type = f.type ∧ e.source = f.source ∧ e.target = f.target

section

variable {ord : RangeOrder} {res : SwarmResources}

theorem visible_name {name : String} {c : ContainerSummary}
    (visible : (name, c) ∈ visibleContainers res.local.containers) :
    c ∈ res.containers ∧ c.displayName = some name := by
  obtain ⟨d, listed, shown⟩ := List.mem_filterMap.mp visible
  split at shown
  · cases shown
  · obtain ⟨displayed, named, same⟩ := Option.map_eq_some_iff.mp shown
    cases same
    exact ⟨(List.mem_filter.mp listed).1, named⟩

theorem Relation.Holds.colonFree {r : Relation} (holds : r.Holds res) (named : NamedApart res) :
    ':' ∉ r.name.toList := by
  apply named.colonFree
  -- every relation is a container's or a service's, under its name
  have container {name : String} {c : ContainerSummary}
      (visible : (name, c) ∈ visibleContainers res.local.containers) :
      name ∈ res.containers.filterMap ContainerSummary.displayName :=
    List.mem_filterMap.mpr ⟨c, visible_name visible⟩
  have service {svc : Swarm.Service} (visible : svc ∈ visibleServices res) :
      svc.name ∈ res.services.map Swarm.Service.name :=
    List.mem_map_of_mem (List.mem_filter.mp visible).1
  cases r with
  | joins kind name net =>
    cases kind with
    | container =>
      obtain ⟨c, visible, -⟩ := holds
      simp [Relation.name, container visible]
    | service =>
      obtain ⟨svc, visible, rfl, -⟩ := holds
      simp [Relation.name, service visible]
  | mounts kind name volume =>
    cases kind with
    | container =>
      obtain ⟨c, visible, -⟩ := holds
      simp [Relation.name, container visible]
    | service =>
      obtain ⟨svc, visible, rfl, -⟩ := holds
      simp [Relation.name, service visible]
  | depends name dep =>
    obtain ⟨c, visible, -⟩ := holds
    simp [Relation.name, container visible]

theorem Separated.kind_eq (separated : Separated res) {r s : Relation} (hr : r.Holds res)
    (hs : s.Holds res) (same : r.tag = s.tag) : r.kind = s.kind := by
  -- a tag tells the sort of a relation, and its ends but for the kind of the first
  cases r <;> cases s <;> simp [Relation.tag] at same
  case joins.joins k name net l _ _ =>
    obtain ⟨rfl, rfl⟩ := same
    cases k <;> cases l
    · rfl
    · exact absurd hs (separated.networks name net hr)
    · exact absurd hr (separated.networks name net hs)
    · rfl
  case mounts.mounts k name volume l _ _ =>
    obtain ⟨rfl, rfl⟩ := same
    cases k <;> cases l
    · rfl
    · exact absurd hs (separated.volumes name volume hr)
    · exact absurd hr (separated.volumes name volume hs)
    · rfl
  case depends.depends => rfl

/-- Edges that share their ID have the same ends. -/
def EdgesApart (s : GraphSnapshot) : Prop :=
  ∀ e ∈ s.edges, ∀ f ∈ s.edges, e.id = f.id → e.ends = f.ends

theorem edgesApart_of_separated (named : NamedApart res) (separated : Separated res) :
    EdgesApart (buildSwarmSnapshot ord res) := by
  intro e he f hf same
  obtain ⟨r, hr, p, rfl⟩ := relation_of_mem_edges ord res he
  obtain ⟨s, hs, q, rfl⟩ := relation_of_mem_edges ord res hf
  have tags : r.tag = s.tag :=
    Relation.tag_eq_of_id_eq (hr.colonFree named) (hs.colonFree named) same
  exact (Relation.ends_eq_iff tags).mpr (separated.kind_eq hr hs tags)

/-- The relations of edges that are apart have one kind if they have one tag. -/
theorem EdgesApart.kind_eq (apart : EdgesApart (buildSwarmSnapshot ord res)) {r s : Relation}
    (hr : r.Holds res) (hs : s.Holds res) (tags : r.tag = s.tag) : r.kind = s.kind := by
  obtain ⟨p, he⟩ := edge_of_relation ord res hr
  obtain ⟨q, hf⟩ := edge_of_relation ord res hs
  exact (Relation.ends_eq_iff tags).mp (apart _ he _ hf (Relation.id_eq_of_tag_eq tags))

theorem EdgesApart.separated (apart : EdgesApart (buildSwarmSnapshot ord res)) : Separated res where
  networks name net container service :=
    Workload.noConfusion (apart.kind_eq (r := .joins .container name net)
      (s := .joins .service name net) container service rfl)
  volumes name volume container service :=
    Workload.noConfusion (apart.kind_eq (r := .mounts .container name volume)
      (s := .mounts .service name volume) container service rfl)

end

/-! ## Nodes -/

/-- A node of the kind and name, under the ID of both. -/
structure IsNode (kind name : String) (n : Node) : Prop where
  id : n.id = kind ++ ":" ++ name
  type : n.type = kind
  name : n.name = name

theorem IsNode.key {kind name : String} {n : Node} (node : IsNode kind name n) :
    State.nodeKey n = ⟨name, kind⟩ := by
  rw [State.nodeKey, node.type, node.name]

theorem isNode_network (idToName : NetworkNames) (selfProjects : Finset String) (net : NetworkSummary)
    (n : Node) (node : n ∈ networkNode idToName selfProjects net) : IsNode "network" net.name n := by
  simp only [networkNode, Option.mem_def, Option.ite_none_left_eq_some, Option.some.injEq] at node
  obtain ⟨-, rfl⟩ := node
  exact ⟨by simp [buildNetworkNode], rfl, rfl⟩

theorem isNode_container (idToName : NetworkNames) (networkProjects : NetworkProjects) (name : String)
    (c : ContainerSummary) :
    IsNode "container" name (containerNode idToName networkProjects name c) :=
  ⟨by simp [containerNode, buildContainerNode], rfl, rfl⟩

theorem isNode_volume (selfProjects : Finset String) (v : Volume) (n : Node)
    (node : n ∈ volumeNode selfProjects v) : IsNode "volume" v.name n := by
  simp only [volumeNode, Option.mem_def, Option.ite_none_left_eq_some, Option.some.injEq] at node
  obtain ⟨-, rfl⟩ := node
  exact ⟨by simp [buildVolumeNode], rfl, rfl⟩

theorem isNode_serviceVolume (name driver status stack : String) :
    IsNode "volume" name { buildVolumeNode name driver status with stack := stack } :=
  ⟨by simp [buildVolumeNode], rfl, rfl⟩

theorem isNode_service (ord : RangeOrder) (svc : Swarm.Service) (sc : ServiceContext) :
    IsNode "service" svc.name (buildSwarmServiceNode ord svc sc).1 :=
  ⟨by simp [buildSwarmServiceNode], rfl, rfl⟩

theorem isNode_swarmNode (name : String) (n : Swarm.Node) :
    IsNode "swarmnode" name (buildSwarmNodeNode name n) :=
  ⟨by simp [buildSwarmNodeNode], rfl, rfl⟩

/-- What the loop over the services knows about a node: `done` are the services so far. -/
structure Accounted (done : List String) (known : Finset String) (n : Node) : Prop where
  identified : State.collectorIDs.Identifies n
  volume : n.type = "volume" → n.name ∈ known
  service : n.type = "service" → n.name ∈ done
  cluster : n.type ≠ "swarmnode"

theorem Accounted.mono {done more : List String} {known known' : Finset String} {n : Node}
    (accounted : Accounted done known n) (services : done ⊆ more) (volumes : known ⊆ known') :
    Accounted more known' n where
  identified := accounted.identified
  volume type := volumes (accounted.volume type)
  service type := services (accounted.service type)
  cluster := accounted.cluster

/-- The nodes so far have names of their own, and are accounted for. -/
structure Assembled.Sound (done : List String) (acc : Assembled) : Prop where
  unique : (acc.snap.nodes.map State.nodeKey).Nodup
  nodes : ∀ n ∈ acc.snap.nodes, Accounted done acc.knownVolumes n

theorem IsNode.accounted {kind name : String} {n : Node} (node : IsNode kind name n)
    {done : List String} {known : Finset String} (kinds : kind ∈ State.collectorIDs.types)
    (volume : kind = "volume" → name ∈ known) (service : kind = "service" → name ∈ done)
    (cluster : kind ≠ "swarmnode") : Accounted done known n := by
  obtain ⟨id, rfl, rfl⟩ := node
  exact ⟨⟨kinds, id⟩, volume, service, cluster⟩

section Loop

variable {done : List String} {acc : Assembled}

/-- A node of a new name and type may be added. -/
theorem Assembled.Sound.append (sound : acc.Sound done) {more : List String} {known : Finset String}
    (services : done ⊆ more) (volumes : acc.knownVolumes ⊆ known) {n : Node} {edges : List Edge}
    (accounted : Accounted more known n) {kind name : String} (node : IsNode kind name n)
    (new : ∀ m ∈ acc.snap.nodes, m.type = kind → m.name ≠ name) :
    Assembled.Sound more ⟨⟨acc.snap.nodes ++ [n], edges⟩, known⟩ where
  unique := by
    rw [List.map_append, List.map_singleton]
    refine List.nodup_append.mpr ⟨sound.unique, List.nodup_singleton _, ?_⟩
    intro k member l last same
    obtain ⟨m, listed, rfl⟩ := List.mem_map.mp member
    rw [List.mem_singleton.mp last, node.key] at same
    obtain ⟨sameName, sameType⟩ := State.NodeKey.mk.inj same
    exact new m listed sameType sameName
  nodes := by
    intro m member
    rcases List.mem_append.mp member with member | last
    · exact (sound.nodes m member).mono services volumes
    · obtain rfl := List.mem_singleton.mp last
      exact accounted

theorem Assembled.Sound.addServiceVolume (sound : acc.Sound done) (stack : String) (m : Swarm.Mount) :
    (addServiceVolume stack acc m).Sound done := by
  unfold Collector.addServiceVolume
  by_cases known : m.source ∈ acc.knownVolumes
  · rw [if_pos known]
    exact sound
  · rw [if_neg known]
    have node := isNode_serviceVolume m.source
    refine sound.append (List.Subset.refl _) (Finset.subset_insert _ _) ?_ (node _ _ _) ?_
    · exact (node _ _ _).accounted (by decide) (fun _ => Finset.mem_insert_self _ _) (by simp) (by simp)
    · intro n listed type name
      exact known (name ▸ (sound.nodes n listed).volume type)

theorem Assembled.Sound.addServiceVolumes (sound : acc.Sound done) (stack : String)
    (mounts : List Swarm.Mount) : (mounts.foldl (Collector.addServiceVolume stack) acc).Sound done := by
  induction mounts generalizing acc with
  | nil => exact sound
  | cons m rest ih => exact ih (sound.addServiceVolume stack m)

theorem Assembled.Sound.addService (sound : acc.Sound done) (ord : RangeOrder) (sc : ServiceContext)
    {svc : Swarm.Service} (new : svc.name ∉ done) :
    (addService ord sc acc svc).Sound (svc.name :: done) := by
  have more : done ⊆ svc.name :: done := List.subset_cons_self _ _
  unfold Collector.addService
  by_cases excluded : isServiceSelfExcluded svc
  · rw [if_pos excluded]
    exact ⟨sound.unique, fun n listed => (sound.nodes n listed).mono more (Finset.Subset.refl _)⟩
  · rw [if_neg excluded]
    have node := isNode_service ord svc sc
    apply Assembled.Sound.addServiceVolumes
    refine sound.append more (Finset.Subset.refl _) ?_ node ?_
    · exact node.accounted (by decide) (by simp) (fun _ => List.mem_cons_self) (by simp)
    · intro n listed type name
      exact new (name ▸ (sound.nodes n listed).service type)

theorem Assembled.Sound.addServices (sound : acc.Sound done) (ord : RangeOrder) (sc : ServiceContext)
    (services : List Swarm.Service) (unique : (services.map Swarm.Service.name).Nodup)
    (new : ∀ svc ∈ services, svc.name ∉ done) :
    ∃ all, (services.foldl (Collector.addService ord sc) acc).Sound all := by
  induction services generalizing acc done with
  | nil => exact ⟨done, sound⟩
  | cons svc rest ih =>
    rw [List.map_cons, List.nodup_cons] at unique
    refine ih (sound.addService ord sc (new svc List.mem_cons_self)) unique.2 fun other listed => ?_
    rw [List.mem_cons, not_or]
    refine ⟨fun same => unique.1 (same ▸ List.mem_map_of_mem listed), ?_⟩
    exact new other (List.mem_cons_of_mem _ listed)

end Loop

section Nodes

variable {res : SwarmResources}

/-- Nodes of some kinds, no two of one kind and name. -/
structure OfKinds (kinds : List String) (nodes : List Node) : Prop where
  unique : (nodes.map State.nodeKey).Nodup
  nodes : ∀ n ∈ nodes, ∃ kind ∈ kinds, ∃ name, IsNode kind name n

theorem OfKinds.append {kinds more : List String} {xs ys : List Node} (left : OfKinds kinds xs)
    (right : OfKinds more ys) (apart : kinds.Disjoint more) : OfKinds (kinds ++ more) (xs ++ ys) where
  unique := by
    rw [List.map_append]
    refine List.nodup_append.mpr ⟨left.unique, right.unique, fun k hk l hl same => ?_⟩
    obtain ⟨n, hn, rfl⟩ := List.mem_map.mp hk
    obtain ⟨m, hm, rfl⟩ := List.mem_map.mp hl
    obtain ⟨kind, known, name, node⟩ := left.nodes n hn
    obtain ⟨kind', known', name', node'⟩ := right.nodes m hm
    rw [node.key, node'.key] at same
    obtain rfl : kind = kind' := (State.NodeKey.mk.inj same).2
    exact apart known known'
  nodes := by
    intro n listed
    rcases List.mem_append.mp listed with listed | listed
    · obtain ⟨kind, known, node⟩ := left.nodes n listed
      exact ⟨kind, List.mem_append_left _ known, node⟩
    · obtain ⟨kind, known, node⟩ := right.nodes n listed
      exact ⟨kind, List.mem_append_right _ known, node⟩

/-- The nodes of resources whose names are unique. -/
theorem ofKinds_filterMap {α : Type} (name : α → String) {f : α → Option Node} {kind : String}
    (nodes : ∀ x n, n ∈ f x → IsNode kind (name x) n) {xs : List α} (unique : (xs.map name).Nodup) :
    OfKinds [kind] (xs.filterMap f) where
  unique := by
    refine List.pairwise_map.mpr (List.pairwise_filterMap.mpr ?_)
    refine (List.pairwise_map.mp unique).imp fun differ n hn m hm same => differ ?_
    rw [(nodes _ n hn).key, (nodes _ m hm).key] at same
    exact (State.NodeKey.mk.inj same).1
  nodes := by
    intro n listed
    obtain ⟨x, -, node⟩ := List.mem_filterMap.mp listed
    exact ⟨kind, List.mem_singleton_self kind, name x, nodes x n node⟩

theorem visible_names (containers : List ContainerSummary) :
    ((visibleContainers containers).map Prod.fst).Sublist
      (containers.filterMap ContainerSummary.displayName) := by
  induction containers with
  | nil => exact .slnil
  | cons c rest ih =>
    cases named : c.displayName with
    | none => simpa [visibleContainers, named] using ih
    | some name =>
      by_cases excluded : isSelfExcluded c.labels
      · simpa [visibleContainers, named, excluded] using ih.trans (List.sublist_cons_self name _)
      · simpa [visibleContainers, named, excluded] using ih

theorem ofKinds_local (named : NamedApart res) :
    OfKinds ["network", "container", "volume"] (localSnapshot res).nodes := by
  have names : ((visibleContainers res.local.containers).map Prod.fst).Nodup :=
    ((visible_names _).trans (List.filter_sublist.filterMap _)).nodup named.containers
  have containers : OfKinds ["container"] ((visibleContainers res.local.containers).map fun c =>
      containerNode (resolveNetworkNames res.networks) (networkProjectMap res.networks) c.1 c.2) := by
    rw [← List.filterMap_eq_map]
    refine ofKinds_filterMap Prod.fst (fun c n node => ?_) names
    obtain rfl : _ = n := Option.some.inj node
    exact isNode_container _ _ c.1 c.2
  have networks := ofKinds_filterMap NetworkSummary.name (isNode_network (resolveNetworkNames res.networks)
    (selfOnlyProjects (members res))) named.networks
  have volumes := ofKinds_filterMap Volume.name (isNode_volume (selfOnlyProjects (members res))) named.volumes
  exact (networks.append containers (by simp)).append volumes (by simp)

theorem ofKinds_swarmNodes (ord : RangeOrder) (nodes : List Swarm.Node) :
    OfKinds ["swarmnode"] (buildSwarmNodeNodes ord nodes) := by
  have names : ((ord.visit (nodes.foldl chooseNode ∅).entries).map Sigma.fst).Nodup :=
    ((ord.perm _).map Sigma.fst).nodup_iff.mpr (AList.keys_nodup _)
  rw [buildSwarmNodeNodes, ← List.filterMap_eq_map]
  refine ofKinds_filterMap Sigma.fst (fun e n node => ?_) names
  obtain rfl : _ = n := Option.some.inj node
  exact isNode_swarmNode e.1 e.2

/-- The loop over the services starts with the nodes of the local daemon. -/
theorem sound_local (named : NamedApart res) :
    Assembled.Sound [] ⟨localSnapshot res, volumeNames (localSnapshot res).nodes⟩ where
  unique := (ofKinds_local named).unique
  nodes := by
    intro n listed
    obtain ⟨kind, known, name, node⟩ := (ofKinds_local named).nodes n listed
    have daemon : kind = "network" ∨ kind = "container" ∨ kind = "volume" := by simpa using known
    refine node.accounted ?_ (fun volume => ?_) ?_ ?_
    · rcases daemon with rfl | rfl | rfl <;> simp [State.collectorIDs]
    · have kept : n ∈ (localSnapshot res).nodes.filter fun n => n.type = "volume" := by
        simp [listed, node.type, volume]
      rw [← node.name]
      exact List.mem_toFinset.mpr (List.mem_map_of_mem kept)
    · rcases daemon with rfl | rfl | rfl <;> simp
    · rcases daemon with rfl | rfl | rfl <;> simp

theorem Assembled.Sound.ofKinds {done : List String} {acc : Assembled} (sound : acc.Sound done) :
    OfKinds ["container", "network", "volume", "service"] acc.snap.nodes where
  unique := sound.unique
  nodes := by
    intro n listed
    have accounted := sound.nodes n listed
    have known : n.type ∈ State.collectorIDs.types := accounted.identified.type
    have cluster := accounted.cluster
    refine ⟨n.type, ?_, n.name, accounted.identified.id, rfl, rfl⟩
    simpa [State.collectorIDs, cluster] using known

theorem ofKinds_swarmSnapshot (ord : RangeOrder) (named : NamedApart res) :
    OfKinds State.collectorIDs.types (buildSwarmSnapshot ord res).nodes := by
  obtain ⟨done, sound⟩ := (sound_local named).addServices ord (serviceContext res) res.services
    named.services (by simp)
  have all := sound.ofKinds.append (ofKinds_swarmNodes ord res.nodes) (by simp)
  have perm := State.sortByID_perm ord Node.id
    ((res.services.foldl (addService ord (serviceContext res))
      ⟨localSnapshot res, volumeNames (localSnapshot res).nodes⟩).snap.nodes ++
        buildSwarmNodeNodes ord res.nodes)
  exact ⟨(perm.map State.nodeKey).nodup_iff.mpr all.unique, fun n listed =>
    all.nodes n (perm.mem_iff.mp listed)⟩

theorem nodup_ids (ord : RangeOrder) (named : NamedApart res) :
    ((buildSwarmSnapshot ord res).nodes.map Node.id).Nodup := by
  have all := ofKinds_swarmSnapshot ord named
  have identified : ∀ n ∈ (buildSwarmSnapshot ord res).nodes, State.collectorIDs.Identifies n := by
    intro n listed
    obtain ⟨kind, known, name, node⟩ := all.nodes n listed
    obtain ⟨id, rfl, rfl⟩ := node
    exact ⟨known, id⟩
  exact State.nodup_id_of_nodup_key all.unique identified

end Nodes

/-- IDs of nodes never collide. IDs of edges do exactly for a container and a service of one name. -/
theorem distinctIDs_iff (ord : RangeOrder) (res : SwarmResources) (named : NamedApart res) :
    DistinctIDs (buildSwarmSnapshot ord res) ↔ Separated res := by
  constructor
  · intro distinct
    have apart : EdgesApart (buildSwarmSnapshot ord res) := by
      intro e he f hf same
      obtain ⟨type, source, target⟩ := distinct.edges e he f hf same
      rw [Edge.ends, Edge.ends, type, source, target]
    exact apart.separated
  · intro separated
    refine ⟨nodup_ids ord named, fun e he f hf same => ?_⟩
    have ends := edgesApart_of_separated named separated e he f hf same
    simpa [Edge.ends] using ends

/-- A standalone container and a service that mount one volume. -/
def mountedBy (container service : String) : SwarmResources where
  containers := [{ names := ["/" ++ container]
                   mounts := [{ type := "volume", name := "data", destination := "/srv" }] }]
  volumes := [{ name := "data" }]
  services := [{ id := "s1"
                 name := service
                 containerSpec := some { mounts := [{ type := "volume", source := "data", target := "/srv" }] } }]

theorem distinctIDs_iff_webAndDb : DistinctIDs (buildSwarmSnapshot .asWritten (mountedBy "web" "db")) := by
  have names {name : String} {c : ContainerSummary}
      (visible : (name, c) ∈ visibleContainers (mountedBy "web" "db").local.containers) : name = "web" := by
    have displayed := (visible_name visible).2
    obtain rfl := List.mem_singleton.mp (visible_name visible).1
    exact (Option.some.inj displayed).symm
  have services {svc : Swarm.Service} (visible : svc ∈ visibleServices (mountedBy "web" "db")) :
      svc.name = "db" := by
    obtain rfl := List.mem_singleton.mp (List.mem_filter.mp visible).1
    rfl
  refine (distinctIDs_iff .asWritten (mountedBy "web" "db") ⟨?_, ?_, ?_, ?_, ?_⟩).mpr ⟨?_, ?_⟩
  · decide
  · decide
  · decide
  · decide
  · decide
  · rintro name net ⟨c, visible, -⟩ ⟨svc, listed, rfl, -⟩
    exact absurd ((names visible).symm.trans (services listed)) (by decide)
  · rintro name volume ⟨c, visible, -⟩ ⟨svc, listed, rfl, -⟩
    exact absurd ((names visible).symm.trans (services listed)) (by decide)

/-- The mounts of a container and of a service of its name have one ID, and different targets. -/
theorem web_twice :
    NamedApart (mountedBy "web" "web") ∧
      ¬DistinctIDs (buildSwarmSnapshot .asWritten (mountedBy "web" "web")) := by
  refine ⟨⟨by decide, by decide, by decide, by decide, by decide⟩, fun distinct => ?_⟩
  have container : Mounts (mountedBy "web" "web") .container "web" "data" :=
    ⟨_, List.mem_singleton_self _, _, List.mem_singleton_self _, rfl⟩
  have service : Mounts (mountedBy "web" "web") .service "web" "data" :=
    ⟨_, List.mem_singleton_self _, rfl, _, List.mem_singleton_self _, rfl⟩
  obtain ⟨p, mounted⟩ := edge_of_mounts .asWritten _ container
  obtain ⟨q, mounted'⟩ := edge_of_mounts .asWritten _ service
  have targets : Workload.container.nodeID "web" = Workload.service.nodeID "web" :=
    (distinct.edges _ mounted _ mounted' rfl).2.2
  exact absurd targets (by decide)

end Dockgraph.Collector
