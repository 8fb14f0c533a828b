import Dockgraph.Frontend.GraphTransform
import Dockgraph.Library.Grouped

/-!
# The network view is closed

A workload's or volume's parent is taken only from the groups that were built, and a network that an
edge leads to is built though no workload is in it.
-/
namespace Dockgraph.Frontend

open Keyed

/-! ## Graphs -/

/-- The backend's edges: what each type leads from and to, where the ends are in the graph. -/
def Shaped (nodes : List DGNode) (e : DGEdge) : Prop :=
  ∀ s ∈ nodes, ∀ t ∈ nodes, s.id = e.source → t.id = e.target →
    (e.type = "volume_mount" ∧ s.type = "volume" ∧ isWorkload t = true) ∨
      (e.type = "secondary_network" ∧ isWorkload s = true ∧ t.type = "network") ∨
        (e.type = "depends_on" ∧ isWorkload s = true ∧ isWorkload t = true)

/-- IDs name one node each, and none is that of the unmanaged group, which no type starts. -/
structure Identified (nodes : List DGNode) : Prop where
  unique : (nodes.map DGNode.id).Nodup
  unreserved : ∀ n ∈ nodes, n.id ≠ UNMANAGED_GROUP_ID

/-- An ID of the form type:name is not that of the unmanaged group. -/
theorem Identified.of_typed {nodes : List DGNode} (unique : (nodes.map DGNode.id).Nodup)
    (typed : ∀ n ∈ nodes, Typed n) : Identified nodes := by
  refine ⟨unique, fun n member => ?_⟩
  obtain ⟨type, listed, name, same⟩ := typed n member
  rw [same]
  exact typed_ne listed "group" "unmanaged" (by decide) (by decide)

/-- What is drawn of a graph. -/
structure ClosedView (dgNodes : List DGNode) (rfNodes : List RFNode) (rfEdges : List RFEdge) : Prop where
  unique : (rfNodes.map RFNode.id).Nodup
  parents : ParentsFirst rfNodes
  once : ∀ n ∈ dgNodes, isWorkload n = true ∨ n.type = "volume" →
    ∃ r, r.data = .graphNode n ∧ rfNodes.filter (fun r => r.id = n.id) = [r]
  ends : ∀ e ∈ rfEdges, e.source ∈ rfNodes.map RFNode.id ∧ e.target ∈ rfNodes.map RFNode.id

section

variable {dgNodes : List DGNode} {dgEdges : List DGEdge} {networks containers volumes : List DGNode}

/-! ## Groups -/

theorem mem_buildNetworkGroups {r : RFNode} (built : r ∈ buildNetworkGroups networks containers dgEdges) :
    r.type = .networkGroup ∧ r.parentId = none ∧ (r.id = UNMANAGED_GROUP_ID ∨ ∃ net ∈ networks, r.id = net.id) := by
  unfold buildNetworkGroups at built
  dsimp only at built
  split at built
  next =>
    rcases List.mem_append.mp built with network | unmanaged
    · obtain ⟨net, member, rfl⟩ := List.mem_map.mp network
      exact ⟨rfl, rfl, .inr ⟨net, (List.mem_filter.mp member).1, rfl⟩⟩
    · rw [List.mem_singleton.mp unmanaged]
      exact ⟨rfl, rfl, .inl rfl⟩
  next =>
    obtain ⟨net, member, rfl⟩ := List.mem_map.mp built
    exact ⟨rfl, rfl, .inr ⟨net, (List.mem_filter.mp member).1, rfl⟩⟩

theorem nodup_buildNetworkGroups (unique : (networks.map DGNode.id).Nodup)
    (unreserved : ∀ net ∈ networks, net.id ≠ UNMANAGED_GROUP_ID) :
    ((buildNetworkGroups networks containers dgEdges).map RFNode.id).Nodup := by
  have shown (p : DGNode → Bool) (build : DGNode → RFNode) (keeps : ∀ net, (build net).id = net.id) :
      (((networks.filter p).map build).map RFNode.id).Nodup := by
    have ids : (networks.filter p).map (RFNode.id ∘ build) = (networks.filter p).map DGNode.id :=
      List.map_congr_left fun net _ => keeps net
    rw [List.map_map, ids]
    exact unique.sublist (List.filter_sublist.map _)
  unfold buildNetworkGroups
  dsimp only
  split
  next =>
    rw [List.map_append, List.nodup_append]
    refine ⟨shown _ _ fun _ => rfl, List.nodup_singleton _, fun id network other unmanaged => ?_⟩
    obtain ⟨r, built, rfl⟩ := List.mem_map.mp network
    obtain ⟨net, member, rfl⟩ := List.mem_map.mp built
    rw [List.mem_singleton.mp unmanaged]
    exact unreserved net (List.mem_filter.mp member).1
  next => exact shown _ _ fun _ => rfl

/-- A network that an edge leads to has a group. -/
theorem target_built {e : DGEdge} {net : DGNode} (edge : e ∈ dgEdges) (secondary : e.type = "secondary_network")
    (listed : net ∈ networks) (target : net.id = e.target) :
    net.id ∈ (buildNetworkGroups networks containers dgEdges).map RFNode.id := by
  have shown : net ∈ networks.filter fun net =>
      net.id ∈ (containers.filterMap fun c => truthy c.networkId) ∨
        net.id ∈ (dgEdges.filter fun e => e.type = "secondary_network").map DGEdge.target := by
    refine List.mem_filter.mpr ⟨listed, decide_eq_true (.inr ?_)⟩
    exact List.mem_map.mpr ⟨e, List.mem_filter.mpr ⟨edge, decide_eq_true secondary⟩, target.symm⟩
  unfold buildNetworkGroups
  dsimp only
  split
  next => exact List.mem_map.mpr ⟨_, List.mem_append_left _ (List.mem_map_of_mem shown), rfl⟩
  next => exact List.mem_map.mpr ⟨_, List.mem_map_of_mem shown, rfl⟩

/-! ## Nodes -/

theorem parentAmong_eq_some {groupIds : List String} {group : Option String} {id : String} :
    parentAmong groupIds group = some id ↔ group = some id ∧ id ∈ groupIds := by
  rw [parentAmong, Option.filter_eq_some_iff, decide_eq_true_eq]

/-- A workload or volume as drawn: only its type and its parent are decided by the rest of the graph. -/
def Drawn (groupIds : List String) (n : DGNode) (r : RFNode) : Prop :=
  r.id = n.id ∧ r.data = .graphNode n ∧ ∀ p, r.parentId = some p → p ∈ groupIds

theorem drawn_containers {groupIds : List String} :
    List.Forall₂ (Drawn groupIds) containers (buildContainerNodes containers groupIds) := by
  rw [buildContainerNodes, List.forall₂_map_right_iff]
  exact List.forall₂_same.mpr fun c _ => ⟨rfl, rfl, fun p parent => (parentAmong_eq_some.mp parent).2⟩

theorem drawn_volumes {groupIds : List String} :
    List.Forall₂ (Drawn groupIds) volumes (buildVolumeNodes volumes containers dgEdges groupIds) := by
  rw [buildVolumeNodes, List.forall₂_map_right_iff]
  exact List.forall₂_same.mpr fun v _ => ⟨rfl, rfl, fun p parent => (parentAmong_eq_some.mp parent).2⟩

theorem Drawn.ids {groupIds : List String} {nodes : List DGNode} {drawn : List RFNode}
    (all : List.Forall₂ (Drawn groupIds) nodes drawn) : drawn.map RFNode.id = nodes.map DGNode.id := by
  induction all with
  | nil => rfl
  | cons first _ ih => rw [List.map_cons, List.map_cons, first.1, ih]

theorem exists_drawn {groupIds : List String} {nodes : List DGNode} {drawn : List RFNode}
    (all : List.Forall₂ (Drawn groupIds) nodes drawn) {n : DGNode} (member : n ∈ nodes) :
    ∃ r ∈ drawn, Drawn groupIds n r := by
  induction all with
  | nil => cases member
  | cons first _ ih =>
    rcases List.mem_cons.mp member with rfl | later
    · exact ⟨_, List.mem_cons_self, first⟩
    · obtain ⟨r, listed, drawn⟩ := ih later
      exact ⟨r, List.mem_cons_of_mem _ listed, drawn⟩

theorem exists_source {groupIds : List String} {nodes : List DGNode} {drawn : List RFNode}
    (all : List.Forall₂ (Drawn groupIds) nodes drawn) {r : RFNode} (member : r ∈ drawn) :
    ∃ n ∈ nodes, Drawn groupIds n r := by
  induction all with
  | nil => cases member
  | cons first _ ih =>
    rcases List.mem_cons.mp member with rfl | later
    · exact ⟨_, List.mem_cons_self, first⟩
    · obtain ⟨n, listed, drawn⟩ := ih later
      exact ⟨n, List.mem_cons_of_mem _ listed, drawn⟩

end

/-! ## The view -/

section View

variable {dgNodes : List DGNode} {dgEdges : List DGEdge}

/-- The parts of the view. -/
structure Parts (dgNodes : List DGNode) (dgEdges : List DGEdge) (groups workloads volumes : List RFNode) : Prop where
  whole : toReactFlowNodes dgNodes dgEdges = groups ++ (workloads ++ volumes)
  built : groups = buildNetworkGroups (dgNodes.filter fun n => n.type = "network")
    (dgNodes.filter fun n => n.type = "container" ∨ n.type = "service") dgEdges
  workloads : List.Forall₂ (Drawn (groups.map RFNode.id)) (dgNodes.filter fun n => isWorkload n) workloads
  volumes : List.Forall₂ (Drawn (groups.map RFNode.id)) (dgNodes.filter fun n => n.type = "volume") volumes

theorem exists_parts (dgNodes : List DGNode) (dgEdges : List DGEdge) :
    ∃ groups workloads volumes, Parts dgNodes dgEdges groups workloads volumes :=
  ⟨_, _, _, List.append_assoc _ _ _, rfl, drawn_containers, drawn_volumes⟩

namespace Parts

variable {groups workloads volumes : List RFNode} (parts : Parts dgNodes dgEdges groups workloads volumes)
include parts

theorem parent_built {r : RFNode} (member : r ∈ workloads ++ volumes) {p : String} (parent : r.parentId = some p) :
    ∃ g ∈ groups, g.id = p ∧ isGroupType g.type = true := by
  have named : p ∈ groups.map RFNode.id := by
    rcases List.mem_append.mp member with workload | volume
    · obtain ⟨-, -, -, -, named⟩ := exists_source parts.workloads workload
      exact named p parent
    · obtain ⟨-, -, -, -, named⟩ := exists_source parts.volumes volume
      exact named p parent
  obtain ⟨g, built, rfl⟩ := List.mem_map.mp named
  have type := (mem_buildNetworkGroups (parts.built ▸ built)).1
  exact ⟨g, built, rfl, by rw [type]; rfl⟩

theorem exists_node {n : DGNode} (member : n ∈ dgNodes) (drawn : isWorkload n = true ∨ n.type = "volume") :
    ∃ r ∈ toReactFlowNodes dgNodes dgEdges, r.id = n.id ∧ r.data = .graphNode n := by
  rw [parts.whole]
  rcases drawn with workload | volume
  · obtain ⟨r, listed, same, data, -⟩ := exists_drawn parts.workloads (List.mem_filter.mpr ⟨member, workload⟩)
    exact ⟨r, by simp [listed], same, data⟩
  · obtain ⟨r, listed, same, data, -⟩ :=
      exists_drawn parts.volumes (List.mem_filter.mpr ⟨member, decide_eq_true volume⟩)
    exact ⟨r, by simp [listed], same, data⟩

theorem nodup (identified : Identified dgNodes) : ((toReactFlowNodes dgNodes dgEdges).map RFNode.id).Nodup := by
  have kinds {p q : DGNode → Bool} (apart : ∀ n, p n = true → q n = false) {id : String}
      (first : id ∈ (dgNodes.filter p).map DGNode.id) : id ∉ (dgNodes.filter q).map DGNode.id := by
    intro second
    obtain ⟨n, hn, rfl⟩ := List.mem_map.mp first
    obtain ⟨m, hm, same⟩ := List.mem_map.mp second
    rw [List.mem_filter] at hn hm
    -- one ID is of one node, which is of one kind
    obtain rfl := eq_of_key_eq DGNode.id identified.unique hm.1 hn.1 same
    rw [apart m hn.2] at hm
    cases hm.2
  have part (p : DGNode → Bool) : ((dgNodes.filter p).map DGNode.id).Nodup :=
    identified.unique.sublist (List.filter_sublist.map _)
  have grouped {id : String} (group : id ∈ groups.map RFNode.id) :
      id = UNMANAGED_GROUP_ID ∨ id ∈ (dgNodes.filter fun n => n.type = "network").map DGNode.id := by
    obtain ⟨g, built, rfl⟩ := List.mem_map.mp group
    obtain ⟨-, -, named⟩ := mem_buildNetworkGroups (parts.built ▸ built)
    refine named.imp_right ?_
    rintro ⟨net, member, same⟩
    exact same ▸ List.mem_map_of_mem member
  have unmanaged (p : DGNode → Bool) : UNMANAGED_GROUP_ID ∉ (dgNodes.filter p).map DGNode.id := by
    intro member
    obtain ⟨n, listed, same⟩ := List.mem_map.mp member
    exact identified.unreserved n (List.mem_filter.mp listed).1 same
  rw [parts.whole, List.map_append, List.map_append, Drawn.ids parts.workloads, Drawn.ids parts.volumes,
    List.nodup_append, List.nodup_append]
  refine ⟨?_, ⟨part _, part _, fun id workload other volume same => ?_⟩, fun id group other rest same => ?_⟩
  · rw [parts.built]
    exact nodup_buildNetworkGroups (part _) fun net member => identified.unreserved net (List.mem_filter.mp member).1
  · subst same
    refine kinds (fun n workload => ?_) workload volume
    simp only [isWorkload, decide_eq_true_eq] at workload
    rcases workload with type | type <;> simp [type]
  · subst same
    rcases grouped group with rfl | network
    · rcases List.mem_append.mp rest with workload | volume
      · exact unmanaged _ workload
      · exact unmanaged _ volume
    · rcases List.mem_append.mp rest with workload | volume
      · refine kinds (fun n network => ?_) network workload
        simp only [decide_eq_true_eq] at network
        simp [isWorkload, network]
      · refine kinds (fun n network => ?_) network volume
        simp only [decide_eq_true_eq] at network
        simp [network]

end Parts

/-- Whatever networks are hidden or absent, the view is closed. -/
theorem networkView_closed (networkColor : String → Option String → String) (dgNodes : List DGNode)
    (dgEdges : List DGEdge) (defaultStroke accentStroke : String) (identified : Identified dgNodes)
    (shaped : ∀ e ∈ dgEdges, Shaped dgNodes e) :
    ClosedView dgNodes (toReactFlowNodes dgNodes dgEdges)
      (toReactFlowEdges networkColor dgEdges dgNodes defaultStroke accentStroke) := by
  obtain ⟨groups, workloads, volumes, parts⟩ := exists_parts dgNodes dgEdges
  have drawn {n : DGNode} (member : n ∈ dgNodes) (kind : isWorkload n = true ∨ n.type = "volume") :
      n.id ∈ (toReactFlowNodes dgNodes dgEdges).map RFNode.id := by
    obtain ⟨r, listed, same, -⟩ := parts.exists_node member kind
    exact same ▸ List.mem_map_of_mem listed
  refine ⟨parts.nodup identified, ?_, fun n member kind => ?_, fun e shown => ?_⟩
  · rw [parts.whole]
    refine (parentsFirst_of_free fun g built => ?_).append fun r member p => parts.parent_built member
    exact (mem_buildNetworkGroups (parts.built ▸ built)).2.1
  · obtain ⟨r, listed, same, data⟩ := parts.exists_node member kind
    exact ⟨r, data, same ▸ filter_key_eq (parts.nodup identified) listed⟩
  · obtain ⟨d, kept, rfl⟩ := List.mem_map.mp shown
    rw [List.mem_filter, decide_eq_true_eq, mem_index, mem_index] at kept
    obtain ⟨edge, ⟨s, hs, source⟩, t, ht, target⟩ := kept
    change d.source ∈ _ ∧ d.target ∈ _
    rw [← source, ← target]
    rcases shaped d edge s hs t ht source target with ⟨-, volume, workload⟩ | ⟨secondary, workload, network⟩ |
      ⟨-, first, second⟩
    · exact ⟨drawn hs (.inr volume), drawn ht (.inl workload)⟩
    · refine ⟨drawn hs (.inl workload), ?_⟩
      have listed : t ∈ dgNodes.filter fun n => n.type = "network" :=
        List.mem_filter.mpr ⟨ht, decide_eq_true network⟩
      have built : t.id ∈ (buildNetworkGroups (dgNodes.filter fun n => n.type = "network")
          (dgNodes.filter fun n => n.type = "container" ∨ n.type = "service") dgEdges).map RFNode.id :=
        target_built edge secondary listed target
      rw [parts.whole, List.map_append, parts.built]
      exact List.mem_append_left _ built
    · exact ⟨drawn hs (.inl first), drawn ht (.inl second)⟩

/-- A container in a network that is not in the graph, linked to another network, with a volume and a dangling
dependency. -/
def hiddenNetwork : Graph where
  nodes := [{ id := "network:front", type := "network", name := "front" },
    { id := "container:web", type := "container", name := "web", networkId := some "network:gone" },
    { id := "volume:data", type := "volume", name := "data" }]
  edges := [{ id := "v", type := "volume_mount", source := "volume:data", target := "container:web" },
    { id := "n", type := "secondary_network", source := "container:web", target := "network:front" },
    { id := "d", type := "depends_on", source := "container:web", target := "container:gone" }]

theorem networkView_closed_hidden :
    ClosedView hiddenNetwork.nodes (toReactFlowNodes hiddenNetwork.nodes hiddenNetwork.edges)
      (toReactFlowEdges (fun _ _ => "#3b82f6") hiddenNetwork.edges hiddenNetwork.nodes "#888" "#0af") := by
  have shaped : ∀ e ∈ hiddenNetwork.edges, Shaped hiddenNetwork.nodes e := by
    unfold Shaped
    decide
  have typed : ∀ n ∈ hiddenNetwork.nodes, n.type ∈ idTypes ∧ n.id = n.type ++ ":" ++ n.name := by decide
  have identified : Identified hiddenNetwork.nodes :=
    .of_typed (by decide) fun n member => ⟨n.type, (typed n member).1, n.name, (typed n member).2⟩
  exact networkView_closed _ _ _ _ _ identified shaped

end View

end Dockgraph.Frontend
