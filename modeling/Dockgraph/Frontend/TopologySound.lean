import Dockgraph.Frontend.NodeView
import Dockgraph.Frontend.TopologyKey

/-!
# When the key of the topology is sound

The rows of the per-node view are those of the nodes that are drawn, whose types their IDs tell. The key of the
network view is sound where the first group of every volume does not change while the rows and edges do not.
-/
namespace Dockgraph.Frontend

open CodeUnits Keyed Runs

/-! ## The per-node view -/

/-- What the view draws for an ID: a card, or what the ID is of. -/
def KindOf (dgNodes : List DGNode) (r : RFNode) : Prop :=
  0 < rowCount r ∧ r.type = .nodeServiceCard ∨
    rowCount r = 0 ∧ ((r.id, r.type) ∈ ownNodes ∨
      ∃ n, Rowed dgNodes n ∧ n.id = r.id ∧ (n.type, r.type) ∈ [("swarmnode", .nodeGroup), ("container", .containerNode)])

/-- A node of the view with a readable row. -/
structure RowOf (dgNodes : List DGNode) (r : RFNode) : Prop where
  id : ',' ∉ r.id.toList ∧ '>' ∉ r.id.toList
  parent : ∀ p, r.parentId = some p → p ≠ "" ∧ ',' ∉ p.toList
  kind : KindOf dgNodes r

section Rows

variable {g : Graph} {localeCompare : String → String → Int} {localNodeId : Option String} {r : RFNode}
  {s : DGNode × Option SwarmRole} {c : DGNode}

theorem Rowed.mem {dgNodes : List DGNode} {n : DGNode} (rowed : Rowed dgNodes n) : n ∈ dgNodes :=
  rowed.elim And.left fun running => (List.mem_filter.mp running).1

theorem rowCount_eq_zero (plain : r.type ≠ .nodeServiceCard) : rowCount r = 0 := by
  unfold rowCount
  split
  next type _ => exact absurd type plain
  next => rfl

theorem ownNodes_uncut : ∀ own ∈ ownNodes,
    own.1 ≠ "" ∧ ',' ∉ own.1.toList ∧ '>' ∉ own.1.toList ∧ own.2 ≠ .nodeServiceCard := by decide

/-- A node of the view itself. -/
theorem rowOf_own {own : String × NodeType} (listed : own ∈ ownNodes) (id : r.id = own.1) (type : r.type = own.2)
    (parent : r.parentId = none) : RowOf g.nodes r := by
  obtain ⟨-, comma, angle, plain⟩ := ownNodes_uncut own listed
  refine ⟨id ▸ ⟨comma, angle⟩, fun p parent' => ?_, .inr ⟨rowCount_eq_zero (type ▸ plain), .inl ?_⟩⟩
  · rw [parent] at parent'
    cases parent'
  · rw [id, type]
    exact listed

theorem roleGroupId_uncut (role : SwarmRole) : roleGroupId role ≠ "" ∧ ',' ∉ (roleGroupId role).toList := by
  cases role <;> decide

theorem rowOf_viewGroups (member : r ∈ viewGroups localeCompare g.nodes localNodeId) : RowOf g.nodes r := by
  rcases viewGroups_cases member with ⟨-, data, rfl⟩ | ⟨role, -, rfl⟩
  · have listed : (CONTROL_SUMMARY_ID, NodeType.controlSummary) ∈ ownNodes := by decide
    exact rowOf_own listed rfl rfl rfl
  · have listed : (roleGroupId role, NodeType.roleGroup) ∈ ownNodes := by cases role <;> decide
    exact rowOf_own listed rfl rfl rfl

section Named

variable (names : NodeNames g)
include names

theorem siteId_uncut (site : s ∈ sites localeCompare g.nodes) :
    s.1.id ≠ "" ∧ ',' ∉ s.1.id.toList ∧ '>' ∉ s.1.id.toList := by
  rcases mem_sites.mp site with ⟨n, member, type, rfl⟩ | ⟨-, rfl⟩
  · obtain ⟨comma, angle, free⟩ := names.ids n (.inl ⟨member, type⟩)
    exact ⟨fun empty => free (empty ▸ List.mem_cons_self), comma, angle⟩
  · obtain ⟨present, comma, angle, -⟩ := ownNodes_uncut (UNASSIGNED_NODE_GROUP_ID, .nodeGroup) (by decide)
    exact ⟨present, comma, angle⟩

theorem rowOf_viewBoxes (member : r ∈ viewBoxes localeCompare g.nodes localNodeId) : RowOf g.nodes r := by
  obtain ⟨s, site, rfl⟩ := List.mem_map.mp member
  rcases mem_sites.mp site with ⟨n, listed, type, rfl⟩ | ⟨-, rfl⟩
  · have rowed : Rowed g.nodes n := .inl ⟨listed, type⟩
    obtain ⟨comma, angle, -⟩ := names.ids n rowed
    refine ⟨⟨comma, angle⟩, fun p parent => ?_, .inr ⟨rowCount_eq_zero nofun, .inr ⟨n, rowed, rfl, ?_⟩⟩⟩
    · rw [siteBox_parentId] at parent
      obtain rfl := Option.some.inj parent
      exact roleGroupId_uncut _
    · rw [type]
      exact List.mem_cons_self
  · have listed : (UNASSIGNED_NODE_GROUP_ID, NodeType.nodeGroup) ∈ ownNodes := by decide
    exact rowOf_own listed rfl rfl siteBox_parentId

theorem rowOf_container {parentId : Option String} (running : c ∈ runningContainers g.nodes)
    (parent : ∀ p, parentId = some p → p ≠ "" ∧ ',' ∉ p.toList) : RowOf g.nodes (containerNode parentId c) := by
  obtain ⟨-, type, -⟩ := mem_runningContainers.mp running
  obtain ⟨comma, angle, -⟩ := names.ids c (.inr running)
  refine ⟨⟨comma, angle⟩, parent, .inr ⟨rowCount_eq_zero nofun, .inr ⟨c, .inr running, rfl, ?_⟩⟩⟩
  rw [type]
  exact List.mem_cons_of_mem _ List.mem_cons_self

theorem hostOf_uncut (site : s ∈ sites localeCompare g.nodes)
    (placed : ∃ p ∈ activeTasks g.nodes, taskGroup g.nodes p.task = s.1.id) :
    ',' ∉ (hostOf s).toList ∧ '>' ∉ (hostOf s).toList := by
  rcases mem_sites.mp site with ⟨n, member, type, rfl⟩ | ⟨-, rfl⟩
  · exact names.hosts n member type placed
  · decide

theorem rowOf_siteContent (site : s ∈ sites localeCompare g.nodes)
    (member : r ∈ siteContent localeCompare g.nodes localNodeId s) : RowOf g.nodes r := by
  obtain ⟨present, comma, -⟩ := siteId_uncut names site
  have parent : ∀ p, some s.1.id = some p → p ≠ "" ∧ ',' ∉ p.toList := by
    rintro p same
    obtain rfl := Option.some.inj same
    exact ⟨present, comma⟩
  rcases siteContent_cases member with ⟨run, listed, rfl⟩ | ⟨c, running, rfl⟩
  · obtain ⟨p, inside, head⟩ := exists_head listed
    obtain ⟨active, placed⟩ := mem_tasksOf.mp inside
    obtain ⟨host, angle⟩ := hostOf_uncut names site ⟨p, active, placed⟩
    obtain ⟨comma', angle'⟩ := head ▸ names.services p active
    refine ⟨⟨?_, ?_⟩, parent, .inl ⟨List.length_pos_of_ne_nil (items_ne_nil listed), rfl⟩⟩
    · simp [serviceCard, nodeServiceCardId, host, comma']
    · simp [serviceCard, nodeServiceCardId, angle, angle']
  · exact rowOf_container names running parent

/-- Every node of the view has a readable row. -/
theorem rowOf_view (member : r ∈ toNodeGroupedFlowNodes localeCompare g.nodes localNodeId) : RowOf g.nodes r := by
  rw [view_eq, List.mem_append, List.mem_append, List.mem_append] at member
  rcases member with ((group | box) | content) | free
  · exact rowOf_viewGroups group
  · exact rowOf_viewBoxes names box
  · obtain ⟨s, site, content⟩ := List.mem_flatMap.mp content
    exact rowOf_siteContent names site content
  · obtain ⟨c, running, rfl⟩ := free_cases free
    exact rowOf_container names running nofun

end Named

/-! ## Reading a row -/

theorem nodeRow_chars (r : RFNode) : (nodeRow r).toList =
    r.id.toList ++ '>' :: ((r.parentId.getD "").toList ++ '#' :: Nat.toDigits 10 (rowCount r)) := by
  simp [nodeRow]

theorem digits_uncut {n : Nat} {c : Char} (other : c.isDigit = false) : c ∉ Nat.toDigits 10 n := by
  intro member
  rw [Nat.isDigit_of_mem_toDigits (by decide) (by decide) member] at other
  cases other

theorem RowOf.uncut {dgNodes : List DGNode} (row : RowOf dgNodes r) : nodeRow r ≠ "" ∧ ',' ∉ (nodeRow r).toList := by
  have parent : ',' ∉ (r.parentId.getD "").toList := by
    cases set : r.parentId with
    | none => decide
    | some p => exact (row.parent p set).2
  have digits : ',' ∉ Nat.toDigits 10 (rowCount r) := digits_uncut (by decide)
  refine ⟨fun empty => ?_, ?_⟩
  · have chars := nodeRow_chars r
    rw [empty] at chars
    simp at chars
  · rw [nodeRow_chars]
    simp [row.id.1, parent, digits]

/-- A row tells the ID, the parent and the number of tasks. -/
theorem RowOf.read {dgNodes dgNodes' : List DGNode} {r' : RFNode} (row : RowOf dgNodes r) (row' : RowOf dgNodes' r')
    (same : nodeRow r = nodeRow r') : r.id = r'.id ∧ r.parentId = r'.parentId ∧ rowCount r = rowCount r' := by
  have chars := congrArg String.toList same
  rw [nodeRow_chars, nodeRow_chars] at chars
  -- the ID ends at the first angle, the number of tasks starts at the last hash
  obtain ⟨ids, rest⟩ := Text.split_at_first row.id.2 row'.id.2 chars
  obtain ⟨parents, digits⟩ := Text.split_at_last (digits_uncut (by decide)) (digits_uncut (by decide)) rest
  refine ⟨String.toList_inj.mp ids, ?_, ?_⟩
  · have parents := String.toList_inj.mp parents
    cases set : r.parentId with
    | none =>
      cases set' : r'.parentId with
      | none => rfl
      | some p' =>
        rw [set, set'] at parents
        exact absurd parents.symm (row'.parent p' set').1
    | some p =>
      cases set' : r'.parentId with
      | none =>
        rw [set, set'] at parents
        exact absurd parents (row.parent p set).1
      | some p' =>
        rw [set, set'] at parents
        exact congrArg some parents
  · -- the digits are read back
    rw [← Text.foldl_toDigits (rowCount r), digits, Text.foldl_toDigits]

variable {g' : Graph} {r' : RFNode}

/-- The ID and the number of tasks tell the type. -/
theorem type_eq (same : SameIdentities g g') (names : NodeNames g) (names' : NodeNames g') (kind : KindOf g.nodes r)
    (kind' : KindOf g'.nodes r') (ids : r.id = r'.id) (counts : rowCount r = rowCount r') : r.type = r'.type := by
  have own {g : Graph} (names : NodeNames g) {own : String × NodeType} {n : DGNode} (listed : own ∈ ownNodes)
      (rowed : Rowed g.nodes n) (id : n.id = own.1) : False := by
    refine (names.ids n rowed).2.2 (List.mem_cons_of_mem _ ?_)
    rw [id]
    exact List.mem_map_of_mem listed
  -- cards have tasks, so the number of tasks tells them from all else
  rcases kind with ⟨card, type⟩ | ⟨none, kind⟩
  · rcases kind' with ⟨-, type'⟩ | ⟨none', -⟩
    · rw [type, type']
    · omega
  · rcases kind' with ⟨card', -⟩ | ⟨-, kind'⟩
    · omega
    · rcases kind with first | ⟨n, member, id, first⟩
      · rcases kind' with second | ⟨n', member', id', second⟩
        · have unique : (ownNodes.map Prod.fst).Nodup := by decide
          exact congrArg Prod.snd (eq_of_key_eq Prod.fst unique first second ids)
        · exact (own names' first member' (id'.trans ids.symm)).elim
      · rcases kind' with second | ⟨n', member', id', second⟩
        · exact (own names second member (id.trans ids)).elim
        · -- both are drawn for the node with this ID
          rw [same.types n member.mem n' member'.mem (id.trans (ids.trans id'.symm))] at first
          have unique : ([("swarmnode", NodeType.nodeGroup), ("container", .containerNode)].map Prod.fst).Nodup := by decide
          exact congrArg Prod.snd (eq_of_key_eq Prod.fst unique first second rfl)

theorem nodeRows_perm (names : NodeNames g) (names' : NodeNames g')
    (same : nodeGroupedTopologyKey localeCompare g.nodes localNodeId =
      nodeGroupedTopologyKey localeCompare g'.nodes localNodeId) :
    ((toNodeGroupedFlowNodes localeCompare g.nodes localNodeId).map nodeRow).Perm
      ((toNodeGroupedFlowNodes localeCompare g'.nodes localNodeId).map nodeRow) := by
  have uncut {g : Graph} (names : NodeNames g) :
      ∀ row ∈ sort ((toNodeGroupedFlowNodes localeCompare g.nodes localNodeId).map nodeRow),
        row ≠ "" ∧ ',' ∉ row.toList := by
    intro row listed
    obtain ⟨r, member, rfl⟩ := List.mem_map.mp ((sort_perm _).subset listed)
    exact (rowOf_view names member).uncut
  exact sort_eq_iff.mp (join_inj (fun row listed => (uncut names row listed).1) (fun row listed => (uncut names' row listed).1)
    (fun row listed => (uncut names row listed).2) (fun row listed => (uncut names' row listed).2) same)

/-- One direction: each node has its like in the other view. -/
theorem place_of_rows (same : SameIdentities g g') (names : NodeNames g) (names' : NodeNames g')
    (rows : (toNodeGroupedFlowNodes localeCompare g.nodes localNodeId).map nodeRow ⊆
      (toNodeGroupedFlowNodes localeCompare g'.nodes localNodeId).map nodeRow)
    {p : String × NodeType × Option String}
    (drawn : p ∈ (toNodeGroupedFlowNodes localeCompare g.nodes localNodeId).map RFNode.place) :
    p ∈ (toNodeGroupedFlowNodes localeCompare g'.nodes localNodeId).map RFNode.place := by
  obtain ⟨r, member, rfl⟩ := List.mem_map.mp drawn
  obtain ⟨r', member', row⟩ := List.mem_map.mp (rows (List.mem_map_of_mem member))
  have here := rowOf_view names member
  have there := rowOf_view names' member'
  obtain ⟨ids, parents, counts⟩ := here.read there row.symm
  refine List.mem_map.mpr ⟨r', member', ?_⟩
  unfold RFNode.place
  rw [ids, parents, type_eq same names names' here.kind there.kind ids counts]

end Rows

/-- What is not in the view does not count. -/
theorem view_keyedNodes (localeCompare : String → String → Int) (dgNodes : List DGNode) (localNodeId : Option String) :
    toNodeGroupedFlowNodes localeCompare (keyedNodes dgNodes) localNodeId =
      toNodeGroupedFlowNodes localeCompare dgNodes localNodeId := by
  have part (p : DGNode → Bool) (keyed : ∀ n, p n = true → n.type ∈ ["service", "swarmnode", "container"]) :
      (keyedNodes dgNodes).filter p = dgNodes.filter p := by
    rw [keyedNodes, List.filter_filter]
    refine List.filter_congr fun n _ => ?_
    cases drawn : p n with
    | false => rfl
    | true => simpa using keyed n drawn
  have services := part (fun n => n.type = "service") (by simp +contextual)
  have nodes := part (fun n => n.type = "swarmnode") (by simp +contextual)
  have containers : runningContainers (keyedNodes dgNodes) = runningContainers dgNodes := part _ (by simp +contextual)
  have active : activeTasks (keyedNodes dgNodes) = activeTasks dgNodes := by rw [activeTasks, services, activeTasks]
  have groups : taskGroup (keyedNodes dgNodes) = taskGroup dgNodes := by
    funext task
    rw [taskGroup, taskGroup, byHostname, byHostname, byNodeId, byNodeId, nodes]
  have placed : placeTasks localeCompare (keyedNodes dgNodes) = placeTasks localeCompare dgNodes := by
    rw [placeTasks, placeTasks, active, groups]
  have listed : listSwarmNodes localeCompare (keyedNodes dgNodes) = listSwarmNodes localeCompare dgNodes := by
    rw [listSwarmNodes, listSwarmNodes, nodes]
  have localGroup : localGroupId (keyedNodes dgNodes) localNodeId = localGroupId dgNodes localNodeId := by
    unfold localGroupId
    congr 1
    funext id
    rw [← List.head?_filter, ← List.head?_filter, part _ (by simp +contextual)]
  have members : roleMembers localeCompare (keyedNodes dgNodes) = roleMembers localeCompare dgNodes := by
    funext role
    rw [roleMembers, roleMembers, listed]
  have boxes : addBoxOf localeCompare (keyedNodes dgNodes) localNodeId = addBoxOf localeCompare dgNodes localNodeId := by
    rw [addBoxOf, addBoxOf, placed, localGroup, containers]
  unfold toNodeGroupedFlowNodes addedBoxes roleGroup controlSummary unassignedBox roleBoxes freeContainers
  rw [members, boxes, placed, localGroup, containers]

/-! ## The update in place -/

theorem places_updateNodes (rfNodes prev : List RFNode) :
    (updateNodes rfNodes prev).map RFNode.place = prev.map RFNode.place := by
  unfold updateNodes
  rw [List.map_map]
  refine List.map_congr_left fun n _ => ?_
  rw [Function.comp_apply]
  split <;> rfl

theorem courses_updateEdges (rfEdges prev : List RFEdge) :
    (updateEdges rfEdges prev).map RFEdge.course = prev.map RFEdge.course := by
  unfold updateEdges
  rw [List.map_map]
  refine List.map_congr_left fun e _ => ?_
  rw [Function.comp_apply]
  split <;> rfl

/-- What is laid out for one flow and updated with another of the same structure shows the structure of that one. -/
theorem sameStructure_update {laid flow flow' : List RFNode × List RFEdge} (shown : SameStructure laid flow)
    (same : SameStructure flow flow') :
    SameStructure (updateNodes flow'.1 laid.1, updateEdges flow'.2 laid.2) flow' where
  nodes p := by
    rw [places_updateNodes]
    exact (shown.nodes p).trans (same.nodes p)
  edges c := by
    rw [courses_updateEdges]
    exact (shown.edges c).trans (same.edges c)

/-! ## Both views -/

/-- Equal keys are of flows of the same structure, and so what is laid out for the one and updated with the other
shows what a fresh layout of the other shows. -/
def KeySound (networkColor : String → Option String → String) (localeCompare : String → String → Int)
    (edgeStroke accentStroke : String) (groupBy : GroupBy) (localNodeId : Option String) (g g' : Graph) : Prop :=
  let flow := buildFlow networkColor localeCompare g.nodes g.edges edgeStroke accentStroke groupBy localNodeId
  let flow' := buildFlow networkColor localeCompare g'.nodes g'.edges edgeStroke accentStroke groupBy localNodeId
  topologyKey localeCompare g.nodes g.edges groupBy localNodeId =
      topologyKey localeCompare g'.nodes g'.edges groupBy localNodeId →
    SameStructure flow flow' ∧
      ∀ laid, SameStructure laid flow → SameStructure (updateNodes flow'.1 laid.1, updateEdges flow'.2 laid.2) flow'

/-- The update adds nothing to ask for. -/
theorem keySound_iff {networkColor : String → Option String → String} {localeCompare : String → String → Int}
    {edgeStroke accentStroke : String} {groupBy : GroupBy} {localNodeId : Option String} {g g' : Graph} :
    KeySound networkColor localeCompare edgeStroke accentStroke groupBy localNodeId g g' ↔
      (topologyKey localeCompare g.nodes g.edges groupBy localNodeId =
          topologyKey localeCompare g'.nodes g'.edges groupBy localNodeId →
        SameStructure
          (buildFlow networkColor localeCompare g.nodes g.edges edgeStroke accentStroke groupBy localNodeId)
          (buildFlow networkColor localeCompare g'.nodes g'.edges edgeStroke accentStroke groupBy localNodeId)) := by
  unfold KeySound
  refine imp_congr_right fun _ => ⟨And.left, fun same => ⟨same, fun laid shown => ?_⟩⟩
  exact sameStructure_update shown same

/-- Where the key can be read, it is sound if and only if, in the network view, graphs with the same rows and edges
both have the unmanaged group or both do not, and mount each volume first from the same group. -/
theorem topologyKey_sound_iff (networkColor : String → Option String → String) (localeCompare : String → String → Int)
    (edgeStroke accentStroke : String) (groupBy : GroupBy) (localNodeId : Option String) (g g' : Graph)
    (same : SameIdentities g g') (readable : Readable groupBy g g') :
    KeySound networkColor localeCompare edgeStroke accentStroke groupBy localNodeId g g' ↔
      (groupBy = .network → SameRows g g' → SameUnmanaged g g' ∧ SameConsumers g g') := by
  rw [keySound_iff]
  cases groupBy with
  | network =>
    rw [topologyKey_network_iff localeCompare localNodeId readable]
    have structures (rows : SameRows g g') := sameStructure_network_iff same rows networkColor localeCompare
      edgeStroke accentStroke localNodeId
    exact ⟨fun sound _ rows => (structures rows).mp (sound rows),
      fun consumers rows => (structures rows).mpr (consumers rfl rows)⟩
  | node =>
    refine ⟨fun _ => nofun, fun _ keys => ⟨fun p => ?_, fun c => Iff.rfl⟩⟩
    change p ∈ (toNodeGroupedFlowNodes localeCompare g.nodes localNodeId).map _ ↔
      p ∈ (toNodeGroupedFlowNodes localeCompare g'.nodes localNodeId).map _
    rcases readable with keyed | ⟨names, names'⟩
    · rw [← view_keyedNodes, keyed, view_keyedNodes]
    have rows := nodeRows_perm names names' (by simpa [topologyKey] using keys)
    exact ⟨place_of_rows same names names' rows.subset, place_of_rows same.symm names' names rows.symm.subset⟩

/-! ## Volumes that change their group, and keys that are cut elsewhere -/

section Cases

/-- Two networks with a container each, and a volume that both mount. -/
def sharedVolume : Graph where
  nodes := [{ id := "network:a", type := "network", name := "a" }, { id := "network:b", type := "network", name := "b" },
    { id := "container:web", type := "container", name := "web", networkId := some "network:a" },
    { id := "container:db", type := "container", name := "db", networkId := some "network:b" },
    { id := "volume:data", type := "volume", name := "data" }]
  edges := [{ id := "e:vol:data:web", type := "volume_mount", source := "volume:data", target := "container:web" },
    { id := "e:vol:data:db", type := "volume_mount", source := "volume:data", target := "container:db" }]

/-- The same with the mounts in the other order. -/
def sharedVolumeSwapped : Graph := { sharedVolume with edges := sharedVolume.edges.reverse }

/-- The same with the nodes in the other order. -/
def sharedVolumeMoved : Graph := { sharedVolume with nodes := sharedVolume.nodes.reverse }

/-- A container without a network. -/
def unmanagedWeb : Graph where
  nodes := [{ id := "container:web", type := "container", name := "web" }]

/-- A container in a network that is called like the mark of one without. -/
def markedWeb : Graph where
  nodes := [{ id := "container:web", type := "container", name := "web", networkId := some "!" }]

/-- A container whose network is the empty text, of a compose file or of none. -/
def unnamedWeb (source : Option String) : Graph where
  nodes := [{ id := "container:web", type := "container", name := "web", networkId := some "", source }]

theorem sameIdentities_sharedVolume {g : Graph} (nodes : g.nodes.Perm sharedVolume.nodes)
    (edges : g.edges.Perm sharedVolume.edges) : SameIdentities sharedVolume g := by
  have nodeIds : (sharedVolume.nodes.map DGNode.id).Nodup := by decide
  have edgeIds : (sharedVolume.edges.map DGEdge.id).Nodup := by decide
  refine ⟨nodeIds, (nodes.map _).nodup_iff.mpr nodeIds, edgeIds, (edges.map _).nodup_iff.mpr edgeIds,
    fun n member n' member' same => ?_, fun e listed e' listed' same => ?_⟩
  · rw [eq_of_key_eq DGNode.id nodeIds member (nodes.subset member') same]
  · rw [eq_of_key_eq DGEdge.id edgeIds listed (edges.subset listed') same]
    exact ⟨rfl, rfl, rfl⟩

theorem networkNames_sharedVolume {g : Graph} (nodes : g.nodes.Perm sharedVolume.nodes)
    (edges : g.edges.Perm sharedVolume.edges) : NetworkNames g := by
  have names : NetworkNames sharedVolume := ⟨by decide, by decide, by decide⟩
  exact ⟨fun n member => names.ids n (nodes.subset member), fun n member => names.networks n (nodes.subset member),
    fun e listed => names.edges e (edges.subset listed)⟩

theorem topologyKey_sound_iff_moved :
    KeySound (fun _ _ => "#3b82f6") (fun _ _ => 0) "#888" "#0af" .network none sharedVolume sharedVolumeMoved ↔
      (GroupBy.network = .network → SameRows sharedVolume sharedVolumeMoved →
        SameUnmanaged sharedVolume sharedVolumeMoved ∧ SameConsumers sharedVolume sharedVolumeMoved) :=
  topologyKey_sound_iff _ _ _ _ _ _ _ _ (sameIdentities_sharedVolume (List.reverse_perm _) (.refl _))
    (.inr ⟨networkNames_sharedVolume (.refl _) (.refl _), networkNames_sharedVolume (List.reverse_perm _) (.refl _)⟩)

/-- Edges in another order put a volume into another group, a mark is taken for a network, and a network without a
name hides whether there is an unmanaged group. -/
theorem not_keySound :
    (SameIdentities sharedVolume sharedVolumeSwapped ∧
      ¬KeySound (fun _ _ => "#3b82f6") (fun _ _ => 0) "#888" "#0af" .network none sharedVolume sharedVolumeSwapped) ∧
    (SameIdentities unmanagedWeb markedWeb ∧
      ¬KeySound (fun _ _ => "#3b82f6") (fun _ _ => 0) "#888" "#0af" .network none unmanagedWeb markedWeb) ∧
    SameIdentities (unnamedWeb none) (unnamedWeb (some "compose.yml")) ∧
      ¬KeySound (fun _ _ => "#3b82f6") (fun _ _ => 0) "#888" "#0af" .network none (unnamedWeb none)
        (unnamedWeb (some "compose.yml")) := by
  refine ⟨⟨sameIdentities_sharedVolume (.refl _) (List.reverse_perm _), fun sound => ?_⟩,
    ⟨⟨by decide, by decide, by decide, by decide, by decide, by decide⟩, fun sound => ?_⟩,
    ⟨by decide, by decide, by decide, by decide, by decide, by decide⟩, fun sound => ?_⟩
  · -- the volume is in the group of the first mount, which is another one
    have rows : SameRows sharedVolume sharedVolumeSwapped := ⟨.refl _, ((List.reverse_perm _).map _).symm⟩
    have keys := (topologyKey_network_iff (fun _ _ => 0) none (.inl rows)).mpr rows
    have moved := ((sound keys).1.nodes ("volume:data", .volumeNode, some "network:a")).mp (by decide)
    exact absurd moved (by decide)
  · -- the unmanaged group is only there without a network
    have keys : unmanagedWeb.nodes.map networkRow = markedWeb.nodes.map networkRow := by decide
    have freed := ((sound (by unfold topologyKey; dsimp only; rw [keys]; rfl)).1.nodes
      ("container:web", .containerNode, some UNMANAGED_GROUP_ID)).mp (by decide)
    exact absurd freed (by decide)
  · -- the row has the network's text only
    have rows : SameRows (unnamedWeb none) (unnamedWeb (some "compose.yml")) := ⟨.refl _, .refl _⟩
    have keys := (topologyKey_network_iff (fun _ _ => 0) none (.inl rows)).mpr rows
    have gone := ((sound keys).1.nodes (UNMANAGED_GROUP_ID, .networkGroup, none)).mp (by decide)
    exact absurd gone (by decide)

end Cases

end Dockgraph.Frontend
