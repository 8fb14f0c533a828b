import Dockgraph.Frontend.GraphLayout
import Dockgraph.Frontend.NetworkView
import Dockgraph.Library.Text

/-!
# What the key of the topology stands for

Two graphs of one key are drawn with the same structure, but for volumes: a volume is drawn in the group of its
first consumer, and the key does not tell which edge comes first.
-/
namespace Dockgraph.Frontend

open CodeUnits Keyed

/-! ## Structure -/

/-- A node's place in the structure. -/
def RFNode.place (n : RFNode) : String × NodeType × Option String := (n.id, n.type, n.parentId)

def RFEdge.course (e : RFEdge) : String × String × String := (e.id, e.source, e.target)

/-- The same nodes, of the same types and in the same groups, and the same edges. -/
structure SameStructure (flow flow' : List RFNode × List RFEdge) : Prop where
  nodes : ∀ p, p ∈ flow.1.map RFNode.place ↔ p ∈ flow'.1.map RFNode.place
  edges : ∀ c, c ∈ flow.2.map RFEdge.course ↔ c ∈ flow'.2.map RFEdge.course

/-- Two states of a graph: IDs tell nodes and edges apart, and tell types and ends in both. -/
structure SameIdentities (g g' : Graph) : Prop where
  nodeIds : (g.nodes.map DGNode.id).Nodup
  nodeIds' : (g'.nodes.map DGNode.id).Nodup
  edgeIds : (g.edges.map DGEdge.id).Nodup
  edgeIds' : (g'.edges.map DGEdge.id).Nodup
  types : ∀ n ∈ g.nodes, ∀ n' ∈ g'.nodes, n.id = n'.id → n.type = n'.type
  edges : ∀ e ∈ g.edges, ∀ e' ∈ g'.edges, e.id = e'.id →
    e.type = e'.type ∧ e.source = e'.source ∧ e.target = e'.target

/-! ## Names -/

/-- Names that the key of the network view is not cut at. -/
structure NetworkNames (g : Graph) : Prop where
  ids : ∀ n ∈ g.nodes, ',' ∉ n.id.toList ∧ '|' ∉ n.id.toList ∧ '>' ∉ n.id.toList
  networks : ∀ n ∈ g.nodes, ∀ k, n.networkId = some k → ',' ∉ k.toList ∧ '|' ∉ k.toList ∧ k ≠ "" ∧ k ≠ "!"
  edges : ∀ e ∈ g.edges, e.id ≠ "" ∧ ',' ∉ e.id.toList

/-- The per-node view's own nodes that have one ID in every graph. -/
def ownNodes : List (String × NodeType) :=
  [(CONTROL_SUMMARY_ID, .controlSummary), (UNASSIGNED_NODE_GROUP_ID, .nodeGroup),
    (roleGroupId .manager, .roleGroup), (roleGroupId .worker, .roleGroup)]

/-- The node has a box, or it is a container that is drawn. -/
def Rowed (dgNodes : List DGNode) (n : DGNode) : Prop :=
  n ∈ dgNodes ∧ n.type = "swarmnode" ∨ n ∈ runningContainers dgNodes

/-- Names that the key of the per-node view is not cut at, of the nodes that it holds: the IDs of boxes and containers,
and for the cards the names of services with tasks and of the nodes they are on. -/
structure NodeNames (g : Graph) : Prop where
  ids : ∀ n, Rowed g.nodes n → ',' ∉ n.id.toList ∧ '>' ∉ n.id.toList ∧ n.id ∉ "" :: ownNodes.map Prod.fst
  services : ∀ p ∈ activeTasks g.nodes, ',' ∉ p.service.name.toList ∧ '>' ∉ p.service.name.toList
  hosts : ∀ n ∈ g.nodes, n.type = "swarmnode" → (∃ p ∈ activeTasks g.nodes, taskGroup g.nodes p.task = n.id) →
    ',' ∉ n.name.toList ∧ '>' ∉ n.name.toList

/-! ## The condition -/

/-- What a node's row stands for: whether it has a network, and else whether it is in no compose file. -/
def DGNode.row (n : DGNode) : String × Option String × Bool :=
  (n.id, n.networkId, decide (n.networkId = none ∧ truthy n.source = none))

/-- The same nodes in the same networks, and the same edges, in whatever order. -/
def SameRows (g g' : Graph) : Prop :=
  (g.nodes.map DGNode.row).Perm (g'.nodes.map DGNode.row) ∧ (g.edges.map DGEdge.id).Perm (g'.edges.map DGEdge.id)

/-- The nodes that the per-node view is made of. -/
def keyedNodes (dgNodes : List DGNode) : List DGNode :=
  dgNodes.filter fun n => n.type ∈ ["service", "swarmnode", "container"]

/-- Where graphs differ in their rows, the key must not be cut at a name. -/
def Readable : GroupBy → Graph → Graph → Prop
  | .network, g, g' => SameRows g g' ∨ NetworkNames g ∧ NetworkNames g'
  | .node, g, g' => keyedNodes g.nodes = keyedNodes g'.nodes ∨ NodeNames g ∧ NodeNames g'

/-- A group of the network view: a network that a workload is in or that an edge leads to, or the unmanaged group. -/
def Shown (g : Graph) (id : String) : Prop :=
  (∃ net ∈ g.nodes, net.type = "network" ∧ net.id = id ∧
    ((∃ c ∈ g.nodes, isWorkload c = true ∧ truthy c.networkId = some id) ∨
      ∃ e ∈ g.edges, e.type = "secondary_network" ∧ e.target = id)) ∨
  id = UNMANAGED_GROUP_ID ∧ ∃ c ∈ g.nodes, isWorkload c = true ∧ truthy c.source = none ∧ truthy c.networkId = none

instance (g : Graph) (id : String) : Decidable (Shown g id) := inferInstanceAs (Decidable (_ ∨ _))

/-- The group for what is in no network is there in both graphs or in neither. The row of a workload whose network
is the empty text does not tell whether it is in that group. -/
def SameUnmanaged (g g' : Graph) : Prop := Shown g UNMANAGED_GROUP_ID ↔ Shown g' UNMANAGED_GROUP_ID

/-- A group that is drawn: a network of the graph, or the unmanaged group where a workload is in none. -/
def IsGroup (g : Graph) (id : String) : Prop :=
  (∃ n ∈ g.nodes, n.type = "network" ∧ n.id = id) ∨
    id = UNMANAGED_GROUP_ID ∧ ∃ c ∈ g.nodes, isWorkload c = true ∧ truthy c.source = none ∧ truthy c.networkId = none

instance (g : Graph) (id : String) : Decidable (IsGroup g id) := inferInstanceAs (Decidable (_ ∨ _))

/-- The group of the workload with an ID. -/
def workloadGroup (g : Graph) (id : String) : Option String :=
  (g.nodes.find? fun c => isWorkload c ∧ c.id = id).bind volumesGroupOf

/-- The group of the first workload, in the order of the edges, that mounts a volume and has a group. -/
def consumersGroup (g : Graph) (volume : String) : Option String :=
  (((g.edges.filter fun e => e.type = "volume_mount").filter fun e => e.source = volume).findSome? fun e =>
    workloadGroup g e.target).filter fun id => IsGroup g id

/-- Every volume is mounted first from the same group. -/
def SameConsumers (g g' : Graph) : Prop :=
  ∀ v ∈ g.nodes, v.type = "volume" → consumersGroup g v.id = consumersGroup g' v.id

/-! ## Reading the key of the network view -/

variable {g g' : Graph} {n : DGNode} {id : String}

/-- A row says no more than what it stands for. -/
def writeRow (row : String × Option String × Bool) : String := row.1 ++ ">" ++ row.2.1.getD (if row.2.2 then "!" else "")

theorem writeRow_comp_row : writeRow ∘ DGNode.row = networkRow := by
  funext n
  unfold networkRow writeRow DGNode.row
  rw [Function.comp_apply]
  cases n.networkId with
  | none => cases truthy n.source <;> simp
  | some k => rfl

/-- What stands behind the ID. -/
def readMark (mark : List Char) : Option String × Bool :=
  if mark = [] then (none, false) else if mark = ['!'] then (none, true) else (some (String.ofList mark), false)

/-- What a row says. -/
def readRow (row : String) : String × Option String × Bool :=
  match Text.cut '>' row.toList with
  | some (id, mark) => (String.ofList id, readMark mark)
  | none => (row, none, false)

theorem networkRow_chars (n : DGNode) : (networkRow n).toList =
    n.id.toList ++ '>' :: (n.networkId.getD (if (truthy n.source).isSome then "" else "!")).toList := by
  simp [networkRow]

theorem readRow_networkRow (names : NetworkNames g) (member : n ∈ g.nodes) : readRow (networkRow n) = n.row := by
  obtain ⟨-, -, uncut⟩ := names.ids n member
  unfold readRow DGNode.row readMark
  rw [networkRow_chars, Text.cut_append uncut]
  cases network : n.networkId with
  | none => cases source : truthy n.source <;> simp
  | some k =>
    -- a network's ID is neither the empty text of a composed node nor the mark
    obtain ⟨-, -, filled, unmarked⟩ := names.networks n member k network
    have other : k.toList ≠ ['!'] := fun same => unmarked (String.toList_inj.mp same)
    simp [filled, other]

/-- A row is not empty, and the key is not cut in it. -/
theorem networkRow_uncut (names : NetworkNames g) (member : n ∈ g.nodes) :
    networkRow n ≠ "" ∧ ',' ∉ (networkRow n).toList ∧ '|' ∉ (networkRow n).toList := by
  obtain ⟨comma, bar, -⟩ := names.ids n member
  refine ⟨fun empty => ?_, ?_⟩
  · have chars := networkRow_chars n
    rw [empty] at chars
    simp at chars
  · rw [networkRow_chars, List.mem_append, List.mem_append, List.mem_cons, List.mem_cons]
    cases network : n.networkId with
    | none => split <;> simp [comma, bar]
    | some k =>
      obtain ⟨comma', bar', -⟩ := names.networks n member k network
      simp [comma, bar, comma', bar']

/-- What the key says about the nodes. -/
def rowsText (g : Graph) : String := CodeUnits.join ',' (sort (g.nodes.map networkRow))

/-- What the key says about the edges. -/
def edgesText (g : Graph) : String := CodeUnits.join ',' (sort (g.edges.map DGEdge.id))

theorem rows_uncut (names : NetworkNames g) {row : String} (listed : row ∈ sort (g.nodes.map networkRow)) :
    row ≠ "" ∧ ',' ∉ row.toList ∧ '|' ∉ row.toList := by
  obtain ⟨n, member, rfl⟩ := List.mem_map.mp ((sort_perm _).subset listed)
  exact networkRow_uncut names member

theorem edgeIds_uncut (names : NetworkNames g) {id : String} (listed : id ∈ sort (g.edges.map DGEdge.id)) :
    id ≠ "" ∧ ',' ∉ id.toList := by
  obtain ⟨e, member, rfl⟩ := List.mem_map.mp ((sort_perm _).subset listed)
  exact names.edges e member

/-- The first bar behind the nodes is the one before the edges. -/
theorem rowsText_barless (names : NetworkNames g) : '|' ∉ (rowsText g).toList := by
  intro bar
  rcases mem_join bar with comma | ⟨row, listed, within⟩
  · exact absurd comma (by decide)
  · exact (rows_uncut names listed).2.2 within

theorem rows_perm (names : NetworkNames g) (names' : NetworkNames g') (same : rowsText g = rowsText g') :
    (g.nodes.map DGNode.row).Perm (g'.nodes.map DGNode.row) := by
  have decode {g : Graph} (names : NetworkNames g) : (g.nodes.map networkRow).map readRow = g.nodes.map DGNode.row := by
    rw [List.map_map]
    exact List.map_congr_left fun n member => readRow_networkRow names member
  have sorted : sort (g.nodes.map networkRow) = sort (g'.nodes.map networkRow) :=
    join_inj (fun row listed => (rows_uncut names listed).1) (fun row listed => (rows_uncut names' listed).1)
      (fun row listed => (rows_uncut names listed).2.1) (fun row listed => (rows_uncut names' listed).2.1) same
  rw [← decode names, ← decode names']
  exact (sort_eq_iff.mp sorted).map readRow

theorem edgeIds_perm (names : NetworkNames g) (names' : NetworkNames g') (same : edgesText g = edgesText g') :
    (g.edges.map DGEdge.id).Perm (g'.edges.map DGEdge.id) := by
  have sorted : sort (g.edges.map DGEdge.id) = sort (g'.edges.map DGEdge.id) :=
    join_inj (fun id listed => (edgeIds_uncut names listed).1) (fun id listed => (edgeIds_uncut names' listed).1)
      (fun id listed => (edgeIds_uncut names listed).2) (fun id listed => (edgeIds_uncut names' listed).2) same
  exact sort_eq_iff.mp sorted

theorem texts_of_sameRows (rows : SameRows g g') : rowsText g = rowsText g' ∧ edgesText g = edgesText g' := by
  obtain ⟨nodes, edges⟩ := rows
  have written := nodes.map writeRow
  rw [List.map_map, List.map_map, writeRow_comp_row] at written
  refine ⟨?_, ?_⟩
  · rw [rowsText, sort_eq_iff.mpr written, rowsText]
  · rw [edgesText, sort_eq_iff.mpr edges, edgesText]

/-- The keys of two graphs are the same when their rows and their edges are, and with readable names only then. -/
theorem topologyKey_network_iff (localeCompare : String → String → Int) (localNodeId : Option String)
    (readable : Readable .network g g') :
    topologyKey localeCompare g.nodes g.edges .network localNodeId =
      topologyKey localeCompare g'.nodes g'.edges .network localNodeId ↔ SameRows g g' := by
  -- the key as the two texts between bars
  change "network|" ++ rowsText g ++ "|" ++ edgesText g = "network|" ++ rowsText g' ++ "|" ++ edgesText g' ↔ _
  constructor
  · intro same
    rcases readable with rows | ⟨names, names'⟩
    · exact rows
    · have chars : (rowsText g).toList ++ '|' :: (edgesText g).toList =
          (rowsText g').toList ++ '|' :: (edgesText g').toList := by
        simpa using congrArg String.toList same
      obtain ⟨nodes, edges⟩ := Text.split_at_first (rowsText_barless names) (rowsText_barless names') chars
      exact ⟨rows_perm names names' (String.toList_inj.mp nodes), edgeIds_perm names names' (String.toList_inj.mp edges)⟩
  · intro rows
    obtain ⟨nodes, edges⟩ := texts_of_sameRows rows
    rw [nodes, edges]

/-! ## The network view -/

def groupIds (g : Graph) : List String :=
  (buildNetworkGroups (g.nodes.filter fun n => n.type = "network")
    (g.nodes.filter fun n => n.type = "container" ∨ n.type = "service") g.edges).map RFNode.id

theorem mem_groupIds : id ∈ groupIds g ↔ Shown g id := by
  have networks : id ∈ ((g.nodes.filter fun n => n.type = "network").filter fun net =>
        net.id ∈ ((g.nodes.filter fun n => n.type = "container" ∨ n.type = "service").filterMap fun c => truthy c.networkId) ∨
          net.id ∈ (g.edges.filter fun e => e.type = "secondary_network").map DGEdge.target).map DGNode.id ↔
      ∃ net ∈ g.nodes, net.type = "network" ∧ net.id = id ∧
        ((∃ c ∈ g.nodes, isWorkload c = true ∧ truthy c.networkId = some id) ∨
          ∃ e ∈ g.edges, e.type = "secondary_network" ∧ e.target = id) := by
    simp only [List.mem_map, List.mem_filter, List.mem_filterMap, decide_eq_true_eq, isWorkload, and_assoc]
    constructor
    · rintro ⟨net, member, type, uses, rfl⟩
      exact ⟨net, member, type, rfl, uses⟩
    · rintro ⟨net, member, type, rfl, uses⟩
      exact ⟨net, member, type, uses, rfl⟩
  have unmanaged : ((g.nodes.filter fun n => n.type = "container" ∨ n.type = "service").any fun c =>
        truthy c.source = none ∧ truthy c.networkId = none) = true ↔
      ∃ c ∈ g.nodes, isWorkload c = true ∧ truthy c.source = none ∧ truthy c.networkId = none := by
    simp [isWorkload]
  unfold groupIds buildNetworkGroups Shown
  dsimp only
  rw [← networks]
  -- with and without the unmanaged group
  split
  next there =>
    rw [List.map_append, List.mem_append, List.map_map]
    refine or_congr Iff.rfl ?_
    simp [unmanaged.mp there]
  next none =>
    rw [List.map_map]
    refine (or_iff_left ?_).symm
    exact fun both => none (unmanaged.mpr both.2)

/-- A parent that is drawn. -/
def parentIn (g : Graph) (group : Option String) : Option String := group.filter fun id => Shown g id

theorem parentAmong_groupIds (group : Option String) : parentAmong (groupIds g) group = parentIn g group := by
  unfold parentAmong parentIn
  congr 1
  funext id
  exact decide_eq_decide.mpr mem_groupIds

theorem truthy_volumesGroupOf (c : DGNode) : truthy (volumesGroupOf c) = volumesGroupOf c := by
  unfold volumesGroupOf
  cases network : truthy c.networkId with
  | some k => exact truthy_eq_some.mpr ⟨rfl, (truthy_eq_some.mp network).2⟩
  | none =>
    change truthy (if truthy c.source = none then some UNMANAGED_GROUP_ID else none) = _
    split <;> rfl

/-- The group of a workload's volumes is drawn where it is one at all. -/
theorem isGroup_iff_shown {c : DGNode} (member : c ∈ g.nodes) (workload : isWorkload c = true)
    (group : volumesGroupOf c = some id) : IsGroup g id ↔ Shown g id := by
  unfold IsGroup Shown
  refine ⟨?_, Or.imp_left fun ⟨net, listed, type, same, _⟩ => ⟨net, listed, type, same⟩⟩
  rintro (⟨net, listed, type, same⟩ | unmanaged)
  · unfold volumesGroupOf at group
    cases network : truthy c.networkId with
    | some k =>
      -- the workload itself makes its network's group shown
      rw [network] at group
      obtain rfl : k = id := by simpa using group
      exact .inl ⟨net, listed, type, same, .inl ⟨c, member, workload, network⟩⟩
    | none =>
      rw [network] at group
      cases source : truthy c.source with
      | some s => simp [source] at group
      | none =>
        obtain rfl : UNMANAGED_GROUP_ID = id := by simpa [source] using group
        exact .inr ⟨rfl, c, member, workload, source, network⟩
  · exact .inr unmanaged

theorem containerGroup_eq (containers : List DGNode) :
    containerGroup containers = containers.foldl (write DGNode.id volumesGroupOf) ∅ := by
  unfold containerGroup
  congr 1
  funext m c
  unfold write
  cases volumesGroupOf c <;> rfl

theorem volumeGroupMap_eq (containers : List DGNode) (dgEdges : List DGEdge) : volumeGroupMap containers dgEdges =
    (dgEdges.filter fun e => e.type = "volume_mount").foldl
      (writeFirst DGEdge.source fun e => truthy ((containerGroup containers).lookup e.target)) ∅ := by
  unfold volumeGroupMap
  congr 1
  funext m e
  unfold writeFirst
  dsimp only
  cases truthy ((containerGroup containers).lookup e.target) <;> rfl

theorem lookup_containerGroup (unique : (g.nodes.map DGNode.id).Nodup) (target : String) :
    truthy ((containerGroup (g.nodes.filter fun n => n.type = "container" ∨ n.type = "service")).lookup target) =
      workloadGroup g target := by
  have written : (containerGroup (g.nodes.filter fun n => n.type = "container" ∨ n.type = "service")).lookup target =
      ((g.nodes.filter fun n => n.type = "container" ∨ n.type = "service").find? fun c => c.id = target).bind
        volumesGroupOf := by
    rw [containerGroup_eq]
    exact lookup_foldl_write DGNode.id volumesGroupOf (unique.sublist (List.filter_sublist.map _))
  have found : (g.nodes.filter fun n => n.type = "container" ∨ n.type = "service").find? (fun c => c.id = target) =
      g.nodes.find? fun c => isWorkload c ∧ c.id = target := by
    rw [List.find?_filter]
    congr 1
    funext c
    simp [isWorkload]
  rw [written, found, workloadGroup]
  cases g.nodes.find? fun c => isWorkload c ∧ c.id = target with
  | none => rfl
  | some c => exact truthy_volumesGroupOf c

/-- The parent that a volume is drawn in. -/
theorem volumeParent_eq (unique : (g.nodes.map DGNode.id).Nodup) (volume : String) :
    parentAmong (groupIds g) (truthy ((volumeGroupMap
      (g.nodes.filter fun n => n.type = "container" ∨ n.type = "service") g.edges).lookup volume)) =
        consumersGroup g volume := by
  have first : (volumeGroupMap (g.nodes.filter fun n => n.type = "container" ∨ n.type = "service") g.edges).lookup volume =
      ((g.edges.filter fun e => e.type = "volume_mount").filter fun e => e.source = volume).findSome? fun e =>
        workloadGroup g e.target := by
    rw [volumeGroupMap_eq, lookup_foldl_writeFirst]
    congr 1
    funext e
    exact lookup_containerGroup unique e.target
  rw [first, parentAmong_groupIds, consumersGroup]
  cases found : (((g.edges.filter fun e => e.type = "volume_mount").filter fun e => e.source = volume).findSome? fun e =>
      workloadGroup g e.target) with
  | none => rfl
  | some p =>
    obtain ⟨e, -, group⟩ := List.exists_of_findSome?_eq_some found
    unfold workloadGroup at group
    obtain ⟨c, listed, group⟩ := Option.bind_eq_some_iff.mp group
    have kind := List.find?_some listed
    rw [decide_eq_true_eq] at kind
    -- the consumer's group is no empty text, so the lookup's `truthy` keeps it
    have set : truthy (some p) = some p := by
      rw [← group]
      exact truthy_volumesGroupOf c
    rw [set, parentIn, Option.filter_some, Option.filter_some]
    simp only [isGroup_iff_shown (List.mem_of_find?_eq_some listed) kind.1 group]

/-- The workloads' type of node. -/
def workloadType (c : DGNode) : NodeType := if c.type = "service" then .serviceNode else .containerNode

/-- A node of the network view by what it is drawn for. -/
inductive Placed (g : Graph) : String × NodeType × Option String → Prop
  | group {id : String} (shown : Shown g id) : Placed g (id, .networkGroup, none)
  | workload {c : DGNode} (member : c ∈ g.nodes) (kind : isWorkload c = true) :
    Placed g (c.id, workloadType c, parentIn g (groupOf c))
  | volume {v : DGNode} (member : v ∈ g.nodes) (kind : v.type = "volume") :
    Placed g (v.id, .volumeNode, consumersGroup g v.id)

theorem mem_places (unique : (g.nodes.map DGNode.id).Nodup) (p : String × NodeType × Option String) :
    p ∈ (toReactFlowNodes g.nodes g.edges).map RFNode.place ↔ Placed g p := by
  unfold toReactFlowNodes
  dsimp only
  rw [List.map_append, List.map_append, List.mem_append, List.mem_append]
  constructor
  · rintro ((group | workload) | volume)
    · obtain ⟨r, built, rfl⟩ := List.mem_map.mp group
      obtain ⟨type, parent, -⟩ := mem_buildNetworkGroups built
      unfold RFNode.place
      rw [type, parent]
      exact .group (mem_groupIds.mp (List.mem_map_of_mem built))
    · obtain ⟨r, built, rfl⟩ := List.mem_map.mp workload
      obtain ⟨c, listed, rfl⟩ := List.mem_map.mp built
      obtain ⟨member, kind⟩ := List.mem_filter.mp listed
      have placed := Placed.workload member kind
      rwa [← parentAmong_groupIds] at placed
    · obtain ⟨r, built, rfl⟩ := List.mem_map.mp volume
      obtain ⟨v, listed, rfl⟩ := List.mem_map.mp built
      obtain ⟨member, kind⟩ := List.mem_filter.mp listed
      have placed := Placed.volume member (of_decide_eq_true kind)
      rwa [← volumeParent_eq unique] at placed
  · rintro (shown | ⟨member, kind⟩ | ⟨member, kind⟩)
    · obtain ⟨r, built, rfl⟩ := List.mem_map.mp (mem_groupIds.mpr shown)
      obtain ⟨type, parent, -⟩ := mem_buildNetworkGroups built
      refine .inl (.inl (List.mem_map.mpr ⟨r, built, ?_⟩))
      unfold RFNode.place
      rw [type, parent]
    · refine .inl (.inr (List.mem_map.mpr ⟨_, List.mem_map_of_mem (List.mem_filter.mpr ⟨member, kind⟩), ?_⟩))
      rw [← parentAmong_groupIds]
      rfl
    · rename_i v
      have listed : v ∈ g.nodes.filter fun n => n.type = "volume" := List.mem_filter.mpr ⟨member, decide_eq_true kind⟩
      refine .inr (List.mem_map.mpr ⟨_, List.mem_map_of_mem listed, ?_⟩)
      rw [← volumeParent_eq unique]
      rfl

theorem mem_courses (networkColor : String → Option String → String) (edgeStroke accentStroke : String)
    (c : String × String × String) :
    c ∈ (toReactFlowEdges networkColor g.edges g.nodes edgeStroke accentStroke).map RFEdge.course ↔
      ∃ e ∈ g.edges, (∃ s ∈ g.nodes, s.id = e.source) ∧ (∃ t ∈ g.nodes, t.id = e.target) ∧
        c = (e.id, e.source, e.target) := by
  unfold toReactFlowEdges
  dsimp only
  rw [List.map_map]
  simp only [List.mem_map, List.mem_filter, decide_eq_true_eq, mem_index, and_assoc, Function.comp_apply]
  constructor
  · rintro ⟨e, listed, source, target, rfl⟩
    exact ⟨e, listed, source, target, rfl⟩
  · rintro ⟨e, listed, source, target, rfl⟩
    exact ⟨e, listed, source, target, rfl⟩

/-! ## What equal rows give -/

/-- What one graph has the other has, too: each node with its row and type, each edge with its type and ends. -/
structure Covers (g g' : Graph) : Prop where
  nodes : ∀ n ∈ g.nodes, ∃ n' ∈ g'.nodes, n'.row = n.row ∧ n'.type = n.type
  edges : ∀ e ∈ g.edges, ∃ e' ∈ g'.edges, e'.id = e.id ∧ e'.type = e.type ∧ e'.source = e.source ∧ e'.target = e.target

theorem SameIdentities.symm (same : SameIdentities g g') : SameIdentities g' g where
  nodeIds := same.nodeIds'
  nodeIds' := same.nodeIds
  edgeIds := same.edgeIds'
  edgeIds' := same.edgeIds
  types n' member' n member id := (same.types n member n' member' id.symm).symm
  edges e' listed' e listed id := by
    obtain ⟨type, source, target⟩ := same.edges e listed e' listed' id.symm
    exact ⟨type.symm, source.symm, target.symm⟩

theorem SameRows.symm (rows : SameRows g g') : SameRows g' g := ⟨rows.1.symm, rows.2.symm⟩

theorem covers_of_sameRows (same : SameIdentities g g') (rows : SameRows g g') : Covers g g' where
  nodes n member := by
    obtain ⟨n', member', row⟩ := List.mem_map.mp (rows.1.subset (List.mem_map_of_mem member))
    exact ⟨n', member', row, (same.types n member n' member' (congrArg Prod.fst row).symm).symm⟩
  edges e listed := by
    obtain ⟨e', listed', id⟩ := List.mem_map.mp (rows.2.subset (List.mem_map_of_mem listed))
    obtain ⟨type, source, target⟩ := same.edges e listed e' listed' id.symm
    exact ⟨e', listed', id, type.symm, source.symm, target.symm⟩

theorem row_eq_iff {n n' : DGNode} : n'.row = n.row ↔
    n'.id = n.id ∧ n'.networkId = n.networkId ∧
      (n.networkId = none → (truthy n'.source = none ↔ truthy n.source = none)) := by
  unfold DGNode.row
  rw [Prod.mk.injEq, Prod.mk.injEq, decide_eq_decide]
  refine and_congr_right fun _ => and_congr_right fun network => ?_
  rw [network]
  constructor
  · intro both none
    simpa [none] using both
  · intro sources
    exact and_congr_right sources

theorem groupOf_eq {n n' : DGNode} (row : n'.row = n.row) : groupOf n' = groupOf n := by
  obtain ⟨-, network, sources⟩ := row_eq_iff.mp row
  unfold groupOf
  rw [network]
  cases none : n.networkId with
  | some k => rfl
  | none => simp only [sources none]

theorem Covers.courses (covers : Covers g g') {c : String × String × String} (drawn : ∃ e ∈ g.edges,
    (∃ s ∈ g.nodes, s.id = e.source) ∧ (∃ t ∈ g.nodes, t.id = e.target) ∧ c = (e.id, e.source, e.target)) :
    ∃ e ∈ g'.edges, (∃ s ∈ g'.nodes, s.id = e.source) ∧ (∃ t ∈ g'.nodes, t.id = e.target) ∧
      c = (e.id, e.source, e.target) := by
  obtain ⟨e, edge, ⟨s, first, source⟩, ⟨t, second, target⟩, rfl⟩ := drawn
  obtain ⟨e', edge', id', -, source', target'⟩ := covers.edges e edge
  obtain ⟨s', first', rowS, -⟩ := covers.nodes s first
  obtain ⟨t', second', rowT, -⟩ := covers.nodes t second
  rw [← id', ← source', ← target']
  exact ⟨e', edge', ⟨s', first', (row_eq_iff.mp rowS).1.trans (source.trans source'.symm)⟩,
    ⟨t', second', (row_eq_iff.mp rowT).1.trans (target.trans target'.symm)⟩, rfl⟩

section Network

variable (covers : Covers g g') (unmanaged : SameUnmanaged g g')
include covers unmanaged

theorem Shown.mono (shown : Shown g id) : Shown g' id := by
  by_cases reserved : id = UNMANAGED_GROUP_ID
  · subst reserved
    exact unmanaged.mp shown
  · obtain ⟨net, listed, type, rfl, uses⟩ := shown.resolve_right fun both => reserved both.1
    obtain ⟨net', listed', row, type'⟩ := covers.nodes net listed
    refine .inl ⟨net', listed', type'.trans type, (row_eq_iff.mp row).1, ?_⟩
    rcases uses with ⟨c, member, kind, network⟩ | ⟨e, edge, secondary, target⟩
    · obtain ⟨c', member', row', kind'⟩ := covers.nodes c member
      refine .inl ⟨c', member', ?_, by rw [(row_eq_iff.mp row').2.1, network]⟩
      rwa [isWorkload, kind']
    · obtain ⟨e', edge', -, secondary', -, target'⟩ := covers.edges e edge
      exact .inr ⟨e', edge', secondary'.trans secondary, target'.trans target⟩

theorem Placed.mono (covers' : Covers g' g) (consumers : SameConsumers g g')
    {p : String × NodeType × Option String} (placed : Placed g p) : Placed g' p := by
  cases placed with
  | group shown => exact .group (shown.mono covers unmanaged)
  | @workload c member kind =>
    obtain ⟨c', member', row, type⟩ := covers.nodes c member
    have parents : parentIn g (groupOf c) = parentIn g' (groupOf c') := by
      rw [groupOf_eq row]
      unfold parentIn
      congr 1
      funext id
      exact decide_eq_decide.mpr ⟨fun shown => shown.mono covers unmanaged, fun shown => shown.mono covers' unmanaged.symm⟩
    have types : workloadType c' = workloadType c := by rw [workloadType, type]; rfl
    rw [parents, ← types, ← (row_eq_iff.mp row).1]
    exact .workload member' (by rwa [isWorkload, type])
  | @volume v member kind =>
    obtain ⟨v', member', row, type⟩ := covers.nodes v member
    rw [consumers v member kind, ← (row_eq_iff.mp row).1]
    exact .volume member' (type.trans kind)

end Network

theorem workloadType_mem (c : DGNode) : workloadType c ∈ [NodeType.serviceNode, .containerNode] := by
  unfold workloadType
  split <;> decide

/-- A network group is drawn for a group only. -/
theorem Placed.shown (placed : Placed g (id, .networkGroup, none)) : Shown g id := by
  generalize drawn : (id, NodeType.networkGroup, (none : Option String)) = p at placed
  cases placed with
  | group shown =>
    cases drawn
    exact shown
  | @workload c _ _ =>
    have type := workloadType_mem c
    have same : NodeType.networkGroup = workloadType c := congrArg (fun p => p.2.1) drawn
    rw [← same] at type
    exact absurd type (by decide)
  | volume => cases drawn

/-- A volume's parent is the group of its first consumer. -/
theorem Placed.consumersGroup_eq {parent : Option String} (placed : Placed g (id, .volumeNode, parent)) :
    consumersGroup g id = parent := by
  generalize drawn : (id, NodeType.volumeNode, parent) = p at placed
  cases placed with
  | group => cases drawn
  | @workload c _ _ =>
    have type := workloadType_mem c
    have same : NodeType.volumeNode = workloadType c := congrArg (fun p => p.2.1) drawn
    rw [← same] at type
    exact absurd type (by decide)
  | volume =>
    cases drawn
    rfl

/-- The structure of the network view, from the rows, the edges, the unmanaged group and the volumes' consumers. -/
theorem sameStructure_network_iff (same : SameIdentities g g') (rows : SameRows g g')
    (networkColor : String → Option String → String) (localeCompare : String → String → Int)
    (edgeStroke accentStroke : String) (localNodeId : Option String) :
    SameStructure
      (buildFlow networkColor localeCompare g.nodes g.edges edgeStroke accentStroke .network localNodeId)
      (buildFlow networkColor localeCompare g'.nodes g'.edges edgeStroke accentStroke .network localNodeId) ↔
    SameUnmanaged g g' ∧ SameConsumers g g' := by
  have covers := covers_of_sameRows same rows
  have covers' := covers_of_sameRows same.symm rows.symm
  constructor
  · intro structures
    have places (p : String × NodeType × Option String) : Placed g p ↔ Placed g' p :=
      (mem_places same.nodeIds p).symm.trans ((structures.nodes p).trans (mem_places same.nodeIds' p))
    refine ⟨⟨fun shown => ((places _).mp (.group shown)).shown, fun shown => ((places _).mpr (.group shown)).shown⟩, ?_⟩
    intro v member kind
    exact ((places _).mp (.volume member kind)).consumersGroup_eq.symm
  · rintro ⟨unmanaged, consumers⟩
    have consumers' : SameConsumers g' g := by
      intro v' member' kind'
      obtain ⟨v, member, row, type⟩ := covers'.nodes v' member'
      rw [← (row_eq_iff.mp row).1]
      exact (consumers v member (type.trans kind')).symm
    refine ⟨fun p => ?_, fun c => ?_⟩
    · exact (mem_places same.nodeIds p).trans
        (Iff.trans ⟨fun placed => placed.mono covers unmanaged covers' consumers,
          fun placed => placed.mono covers' unmanaged.symm covers consumers'⟩ (mem_places same.nodeIds' p).symm)
    · exact (mem_courses networkColor edgeStroke accentStroke c).trans
        (Iff.trans ⟨covers.courses, covers'.courses⟩ (mem_courses networkColor edgeStroke accentStroke c).symm)

end Dockgraph.Frontend
