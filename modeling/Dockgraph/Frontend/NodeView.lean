import Dockgraph.Frontend.NodeBoxes
import Mathlib.Data.String.Basic

/-!
# The per-node view shows every task once

The view is taken apart into its groups, boxes, services' cards and containers. What is in a box or a
group are then the cards or boxes that were made for it.
-/
namespace Dockgraph.Frontend

open Comparator Keyed Runs

/-! ## The view in parts -/

section Parts

variable (localeCompare : String → String → Int) (dgNodes : List DGNode) (localNodeId : Option String)

/-- The role groups and the badge. -/
def viewGroups : List RFNode :=
  roleGroup localeCompare dgNodes localNodeId .manager ++ roleGroup localeCompare dgNodes localNodeId .worker ++
    controlSummary localeCompare dgNodes

def viewBoxes : List RFNode :=
  (sites localeCompare dgNodes).map fun s => (siteBox localeCompare dgNodes localNodeId s).box

def roleGroupNode (role : SwarmRole) : RFNode :=
  { id := roleGroupId role
    type := .roleGroup
    data := .roleGroup
      { role
        nodeCount := (roleMembers localeCompare dgNodes role).length
        taskCount := ((roleBoxes localeCompare dgNodes localNodeId role).map AddedBox.taskCount).sum } }

/-- The cards and containers of a box. -/
def siteContent (s : DGNode × Option SwarmRole) : List RFNode :=
  siteCards localeCompare dgNodes s ++ siteContainers dgNodes localNodeId s

variable {localeCompare dgNodes localNodeId} {s t : DGNode × Option SwarmRole} {r : RFNode} {role : SwarmRole}

theorem view_eq : toNodeGroupedFlowNodes localeCompare dgNodes localNodeId =
    viewGroups localeCompare dgNodes localNodeId ++ viewBoxes localeCompare dgNodes localNodeId ++
      (sites localeCompare dgNodes).flatMap (siteContent localeCompare dgNodes localNodeId) ++
        freeContainers dgNodes localNodeId := by
  have cards : (fun s => (siteBox localeCompare dgNodes localNodeId s).cards) =
      siteContent localeCompare dgNodes localNodeId := funext fun _ => siteBox_cards
  unfold toNodeGroupedFlowNodes
  dsimp only
  rw [addedBoxes_eq, List.map_map, List.flatMap_map, cards]
  rfl

/-- The badge, or the group of a role with its nodes. -/
theorem viewGroups_cases (member : r ∈ viewGroups localeCompare dgNodes localNodeId) :
    (roleMembers localeCompare dgNodes .manager ≠ [] ∧
      ∃ data, r = { id := CONTROL_SUMMARY_ID, type := .controlSummary, data := .controlSummary data }) ∨
      ∃ role, roleMembers localeCompare dgNodes role ≠ [] ∧
        r = roleGroupNode localeCompare dgNodes localNodeId role := by
  have ofRole {role : SwarmRole} (member : r ∈ roleGroup localeCompare dgNodes localNodeId role) :
      roleMembers localeCompare dgNodes role ≠ [] ∧ r = roleGroupNode localeCompare dgNodes localNodeId role := by
    unfold roleGroup at member
    split at member
    next => cases member
    next filled => exact ⟨filled, List.mem_singleton.mp member⟩
  rcases List.mem_append.mp member with groups | badge
  · rcases List.mem_append.mp groups with manager | worker
    · exact .inr ⟨.manager, ofRole manager⟩
    · exact .inr ⟨.worker, ofRole worker⟩
  · unfold controlSummary at badge
    dsimp only at badge
    split at badge
    next both => exact .inl ⟨both.1, _, List.mem_singleton.mp badge⟩
    next => cases badge

theorem parentId_viewGroups (member : r ∈ viewGroups localeCompare dgNodes localNodeId) : r.parentId = none := by
  rcases viewGroups_cases member with ⟨-, data, rfl⟩ | ⟨role, -, rfl⟩ <;> rfl

theorem mem_roleGroup (filled : roleMembers localeCompare dgNodes role ≠ []) :
    roleGroupNode localeCompare dgNodes localNodeId role ∈ viewGroups localeCompare dgNodes localNodeId := by
  have listed : roleGroupNode localeCompare dgNodes localNodeId role ∈
      roleGroup localeCompare dgNodes localNodeId role := by
    unfold roleGroup
    rw [if_neg filled]
    exact List.mem_singleton.mpr rfl
  unfold viewGroups
  cases role <;> simp [listed]

/-- A card of a service, or a container. -/
theorem siteContent_cases (member : r ∈ siteContent localeCompare dgNodes localNodeId s) :
    (∃ run ∈ groupByService (tasksOf localeCompare dgNodes s.1.id),
      r = serviceCard s.1.id (hostOf s) (inactiveAt s) run) ∨
    ∃ c ∈ runningContainers dgNodes, r = containerNode (some s.1.id) c := by
  rcases List.mem_append.mp member with card | container
  · obtain ⟨run, listed, rfl⟩ := List.mem_map.mp card
    exact .inl ⟨run, listed, rfl⟩
  · unfold siteContainers at container
    split at container
    next =>
      obtain ⟨c, listed, rfl⟩ := List.mem_map.mp container
      exact .inr ⟨c, listed, rfl⟩
    next => cases container

theorem parentId_siteContent (member : r ∈ siteContent localeCompare dgNodes localNodeId s) :
    r.parentId = some s.1.id := by
  rcases siteContent_cases member with ⟨run, -, rfl⟩ | ⟨c, -, rfl⟩ <;> rfl

theorem free_cases (member : r ∈ freeContainers dgNodes localNodeId) :
    ∃ c ∈ runningContainers dgNodes, r = containerNode none c := by
  unfold freeContainers at member
  split at member
  next => cases member
  next =>
    obtain ⟨c, listed, rfl⟩ := List.mem_map.mp member
    exact ⟨c, listed, rfl⟩

/-! ## What is inside -/

/-- The ID of a box is not one of a role's group. -/
theorem siteId_ne_roleGroupId (named : Named dgNodes) (site : s ∈ sites localeCompare dgNodes) (role : SwarmRole) :
    s.1.id ≠ roleGroupId role := by
  rcases mem_sites.mp site with ⟨n, member, -, rfl⟩ | ⟨-, rfl⟩
  · exact fun same => named.unreserved n member (.inr (.inr (.inr (.inl ⟨role, same⟩))))
  · cases role <;> decide

/-- Inside a box are its cards and containers. -/
theorem children_site (named : Named dgNodes) (site : s ∈ sites localeCompare dgNodes) :
    (toNodeGroupedFlowNodes localeCompare dgNodes localNodeId).filter (fun r => r.parentId = some s.1.id) =
      siteContent localeCompare dgNodes localNodeId s := by
  have unique : (sites localeCompare dgNodes).Nodup := (nodup_siteIds named).of_map _
  have groups : (viewGroups localeCompare dgNodes localNodeId).filter (fun r => r.parentId = some s.1.id) = [] := by
    refine List.filter_eq_nil_iff.mpr fun r member => ?_
    simp [parentId_viewGroups member]
  have boxes : (viewBoxes localeCompare dgNodes localNodeId).filter (fun r => r.parentId = some s.1.id) = [] := by
    refine List.filter_eq_nil_iff.mpr fun r member inside => ?_
    obtain ⟨t, -, rfl⟩ := List.mem_map.mp member
    rw [decide_eq_true_eq, siteBox_parentId, Option.map_eq_some_iff] at inside
    obtain ⟨role, -, same⟩ := inside
    exact siteId_ne_roleGroupId named site role same.symm
  have free : (freeContainers dgNodes localNodeId).filter (fun r => r.parentId = some s.1.id) = [] := by
    refine List.filter_eq_nil_iff.mpr fun r member => ?_
    obtain ⟨c, -, rfl⟩ := free_cases member
    simp [containerNode]
  rw [view_eq, List.filter_append, List.filter_append, List.filter_append, groups, boxes, free, List.filter_flatMap,
    flatMap_eq_of_mem unique site fun t other differ => ?_]
  · rw [List.nil_append, List.nil_append, List.append_nil]
    refine List.filter_eq_self.mpr fun r member => ?_
    simp [parentId_siteContent member]
  · refine List.filter_eq_nil_iff.mpr fun r member inside => differ ?_
    rw [decide_eq_true_eq, parentId_siteContent member, Option.some.injEq] at inside
    exact eq_of_key_eq (fun s => s.1.id) (nodup_siteIds named) other site inside

theorem parentId_roleBoxes (member : r ∈ (roleBoxes localeCompare dgNodes localNodeId role).map AddedBox.box) :
    r.parentId = some (roleGroupId role) := by
  obtain ⟨b, listed, rfl⟩ := List.mem_map.mp member
  obtain ⟨n, -, rfl⟩ := List.mem_map.mp listed
  cases role <;> rfl

theorem roleGroupId_inj {role other : SwarmRole} (same : roleGroupId role = roleGroupId other) : role = other := by
  revert same
  cases role <;> cases other <;> decide

theorem boxes_role (role : SwarmRole) :
    (viewBoxes localeCompare dgNodes localNodeId).filter (fun r => r.parentId = some (roleGroupId role)) =
      (roleBoxes localeCompare dgNodes localNodeId role).map AddedBox.box := by
  have ofRole (other : SwarmRole) : ((roleBoxes localeCompare dgNodes localNodeId other).map AddedBox.box).filter
      (fun r => r.parentId = some (roleGroupId role)) =
      if other = role then (roleBoxes localeCompare dgNodes localNodeId other).map AddedBox.box else [] := by
    split
    next same =>
      refine List.filter_eq_self.mpr fun r member => ?_
      simp [parentId_roleBoxes member, same]
    next differ =>
      refine List.filter_eq_nil_iff.mpr fun r member inside => differ ?_
      rw [decide_eq_true_eq, parentId_roleBoxes member, Option.some.injEq] at inside
      exact roleGroupId_inj inside
  have unassigned : ((unassignedBox localeCompare dgNodes localNodeId).map AddedBox.box).filter
      (fun r => r.parentId = some (roleGroupId role)) = [] := by
    unfold unassignedBox
    split
    next =>
      refine List.filter_eq_nil_iff.mpr fun r member inside => ?_
      rw [List.mem_singleton.mp member] at inside
      cases of_decide_eq_true inside
    next => rfl
  have whole : viewBoxes localeCompare dgNodes localNodeId =
      (addedBoxes localeCompare dgNodes localNodeId).map AddedBox.box := by
    rw [addedBoxes_eq, List.map_map]
    rfl
  rw [whole, addedBoxes, List.map_append, List.map_append, List.filter_append, List.filter_append, ofRole, ofRole,
    unassigned]
  cases role <;> simp

/-- Inside a role's group are the boxes of its nodes. -/
theorem children_role (named : Named dgNodes) (role : SwarmRole) :
    (toNodeGroupedFlowNodes localeCompare dgNodes localNodeId).filter (fun r => r.parentId = some (roleGroupId role)) =
      (roleBoxes localeCompare dgNodes localNodeId role).map AddedBox.box := by
  have groups : (viewGroups localeCompare dgNodes localNodeId).filter
      (fun r => r.parentId = some (roleGroupId role)) = [] := by
    refine List.filter_eq_nil_iff.mpr fun r member => ?_
    simp [parentId_viewGroups member]
  have cards : ((sites localeCompare dgNodes).flatMap (siteContent localeCompare dgNodes localNodeId)).filter
      (fun r => r.parentId = some (roleGroupId role)) = [] := by
    refine List.filter_eq_nil_iff.mpr fun r member inside => ?_
    obtain ⟨s, site, content⟩ := List.mem_flatMap.mp member
    rw [decide_eq_true_eq, parentId_siteContent content, Option.some.injEq] at inside
    exact siteId_ne_roleGroupId named site role inside
  have free : (freeContainers dgNodes localNodeId).filter (fun r => r.parentId = some (roleGroupId role)) = [] := by
    refine List.filter_eq_nil_iff.mpr fun r member => ?_
    obtain ⟨c, -, rfl⟩ := free_cases member
    simp [containerNode]
  rw [view_eq, List.filter_append, List.filter_append, List.filter_append, groups, cards, free, boxes_role,
    List.nil_append, List.append_nil, List.append_nil]

/-! ## IDs -/

theorem mem_runningContainers {c : DGNode} : c ∈ runningContainers dgNodes ↔
    c ∈ dgNodes ∧ c.type = "container" ∧ c.status ≠ some "not_running" := by
  simp [runningContainers]

/-- The containers, in the box of the local node or free. -/
theorem containers_eq (named : Named dgNodes) :
    (sites localeCompare dgNodes).flatMap (siteContainers dgNodes localNodeId) ++ freeContainers dgNodes localNodeId =
      (runningContainers dgNodes).map (containerNode (localGroupId dgNodes localNodeId)) := by
  cases box : localGroupId dgNodes localNodeId with
  | none => simp [siteContainers, freeContainers, box]
  | some g =>
    obtain ⟨id, -, mapped⟩ := Option.bind_eq_some_iff.mp box
    obtain ⟨n, found, rfl⟩ := Option.map_eq_some_iff.mp mapped
    have member := List.mem_of_find?_eq_some found
    have asked := List.find?_some found
    have type : n.type = "swarmnode" := (of_decide_eq_true asked).1
    have set : truthy (some n.id) = some n.id :=
      truthy_eq_some.mpr ⟨rfl, fun empty => named.unreserved n member (.inl empty)⟩
    have site : (n, some (swarmRole n)) ∈ sites localeCompare dgNodes := mem_sites.mpr (.inl ⟨n, member, type, rfl⟩)
    rw [flatMap_eq_of_mem ((nodup_siteIds named).of_map _) site fun t other differ => ?_]
    · simp [siteContainers, freeContainers, box, set]
    · unfold siteContainers
      rw [box, if_neg]
      intro same
      exact differ (eq_of_key_eq (fun s => s.1.id) (nodup_siteIds named) other site (Option.some.inj same).symm)

/-- The view, kind by kind. -/
theorem perm_view (named : Named dgNodes) : (toNodeGroupedFlowNodes localeCompare dgNodes localNodeId).Perm
    ((viewGroups localeCompare dgNodes localNodeId ++ viewBoxes localeCompare dgNodes localNodeId) ++
      ((sites localeCompare dgNodes).flatMap (siteCards localeCompare dgNodes) ++
        (runningContainers dgNodes).map (containerNode (localGroupId dgNodes localNodeId)))) := by
  rw [view_eq, ← containers_eq named, List.append_assoc]
  refine List.Perm.append_left _ ?_
  rw [← List.append_assoc]
  exact (List.flatMap_append_perm _ _ _).symm.append_right _

theorem reserved_card {host name : String} : Reserved (nodeServiceCardId host name) :=
  .inr (.inr (.inr (.inr ⟨host, name, rfl⟩)))

/-- The ID of a card is none of the other IDs that the view makes. -/
theorem cardId_ne {host name id : String}
    (listed : id ∈ [CONTROL_SUMMARY_ID, UNASSIGNED_NODE_GROUP_ID, roleGroupId .manager, roleGroupId .worker]) :
    nodeServiceCardId host name ≠ id := by
  have foreign : ∀ other ∈ [CONTROL_SUMMARY_ID, UNASSIGNED_NODE_GROUP_ID, roleGroupId .manager, roleGroupId .worker],
      other.toList.take 8 ≠ "nodesvc:".toList := by decide
  intro same
  refine foreign id listed ?_
  rw [← same]
  simp [nodeServiceCardId]

theorem groupId_mem (member : r ∈ viewGroups localeCompare dgNodes localNodeId) :
    r.id ∈ [CONTROL_SUMMARY_ID, roleGroupId .manager, roleGroupId .worker] := by
  rcases viewGroups_cases member with ⟨-, data, rfl⟩ | ⟨role, -, rfl⟩
  · exact List.mem_cons_self
  · cases role <;> simp [roleGroupNode]

theorem reserved_group (member : r ∈ viewGroups localeCompare dgNodes localNodeId) : Reserved r.id := by
  rcases viewGroups_cases member with ⟨-, data, rfl⟩ | ⟨role, -, rfl⟩
  · exact .inr (.inl rfl)
  · exact .inr (.inr (.inr (.inl ⟨role, rfl⟩)))

theorem nodup_groups : ((viewGroups localeCompare dgNodes localNodeId).map RFNode.id).Nodup := by
  have group (role : SwarmRole) :
      ((roleGroup localeCompare dgNodes localNodeId role).map RFNode.id).Sublist [roleGroupId role] := by
    unfold roleGroup
    split <;> simp
  have badge : ((controlSummary localeCompare dgNodes).map RFNode.id).Sublist [CONTROL_SUMMARY_ID] := by
    unfold controlSummary
    dsimp only
    split <;> simp
  have all : [roleGroupId .manager, roleGroupId .worker, CONTROL_SUMMARY_ID].Nodup := by decide
  unfold viewGroups
  rw [List.map_append, List.map_append]
  exact all.sublist (((group .manager).append (group .worker)).append badge)

/-- A box has the ID of its swarm node, or that of the unassigned box. -/
theorem boxId_cases (member : r ∈ viewBoxes localeCompare dgNodes localNodeId) :
    (∃ n ∈ dgNodes, n.type = "swarmnode" ∧ r.id = n.id) ∨ r.id = UNASSIGNED_NODE_GROUP_ID := by
  obtain ⟨s, site, rfl⟩ := List.mem_map.mp member
  rcases mem_sites.mp site with ⟨n, listed, type, rfl⟩ | ⟨-, rfl⟩
  · exact .inl ⟨n, listed, type, rfl⟩
  · exact .inr rfl

theorem cardId_cases (member : r ∈ (sites localeCompare dgNodes).flatMap (siteCards localeCompare dgNodes)) :
    ∃ host name, r.id = nodeServiceCardId host name := by
  obtain ⟨s, -, content⟩ := List.mem_flatMap.mp member
  obtain ⟨run, -, rfl⟩ := List.mem_map.mp content
  exact ⟨_, _, rfl⟩

theorem containerId_cases
    (member : r ∈ (runningContainers dgNodes).map (containerNode (localGroupId dgNodes localNodeId))) :
    ∃ c ∈ dgNodes, c.type = "container" ∧ r.id = c.id := by
  obtain ⟨c, listed, rfl⟩ := List.mem_map.mp member
  obtain ⟨listed, type, -⟩ := mem_runningContainers.mp listed
  exact ⟨c, listed, type, rfl⟩

theorem disjoint_ids {xs ys : List RFNode} (differ : ∀ r ∈ xs, ∀ q ∈ ys, r.id ≠ q.id) :
    (xs.map RFNode.id).Disjoint (ys.map RFNode.id) := by
  intro id first second
  obtain ⟨r, member, rfl⟩ := List.mem_map.mp first
  obtain ⟨q, member', same⟩ := List.mem_map.mp second
  exact differ r member q member' same.symm

theorem group_ne_box (named : Named dgNodes) {q : RFNode} (group : r ∈ viewGroups localeCompare dgNodes localNodeId)
    (box : q ∈ viewBoxes localeCompare dgNodes localNodeId) : r.id ≠ q.id := by
  have groups : ∀ id ∈ [CONTROL_SUMMARY_ID, roleGroupId .manager, roleGroupId .worker],
      id ≠ UNASSIGNED_NODE_GROUP_ID := by decide
  intro same
  rcases boxId_cases box with ⟨n, listed, -, ofNode⟩ | unassigned
  · exact named.unreserved n listed (ofNode ▸ same ▸ reserved_group group)
  · exact groups _ (groupId_mem group) (same.trans unassigned)

section Content

variable {q : RFNode} (content : q ∈ (sites localeCompare dgNodes).flatMap (siteCards localeCompare dgNodes) ∨
  q ∈ (runningContainers dgNodes).map (containerNode (localGroupId dgNodes localNodeId)))
include content

theorem group_ne_content (named : Named dgNodes) (group : r ∈ viewGroups localeCompare dgNodes localNodeId) :
    r.id ≠ q.id := by
  intro same
  rcases content with isCard | isContainer
  · obtain ⟨host, name, ofCard⟩ := cardId_cases isCard
    have listed := groupId_mem group
    rw [same, ofCard] at listed
    exact cardId_ne (by simp only [List.mem_cons, List.not_mem_nil] at listed ⊢; tauto) rfl
  · obtain ⟨c, listed, -, ofNode⟩ := containerId_cases isContainer
    exact named.unreserved c listed (ofNode ▸ same ▸ reserved_group group)

theorem box_ne_content (named : Named dgNodes) (box : r ∈ viewBoxes localeCompare dgNodes localNodeId) :
    r.id ≠ q.id := by
  intro same
  rcases boxId_cases box with ⟨n, listed, type, ofNode⟩ | unassigned
  · rcases content with isCard | isContainer
    · obtain ⟨host, name, ofCard⟩ := cardId_cases isCard
      refine named.unreserved n listed ?_
      rw [← ofNode, same, ofCard]
      exact reserved_card
    · -- one ID is of one node, which is a swarm node or a container
      obtain ⟨c, listed', container, ofNode'⟩ := containerId_cases isContainer
      have ids : n.id = c.id := by rw [← ofNode, same, ofNode']
      rw [eq_of_key_eq DGNode.id named.unique listed listed' ids, container] at type
      exact absurd type (by decide)
  · rcases content with isCard | isContainer
    · obtain ⟨host, name, ofCard⟩ := cardId_cases isCard
      exact cardId_ne (by simp) (ofCard.symm.trans (same.symm.trans unassigned))
    · obtain ⟨c, listed, -, ofNode⟩ := containerId_cases isContainer
      refine named.unreserved c listed (.inr (.inr (.inl ?_)))
      rw [← ofNode, ← same, unassigned]

end Content

theorem nodup_view (order : Total localeCompare) (named : Named dgNodes) :
    ((toNodeGroupedFlowNodes localeCompare dgNodes localNodeId).map RFNode.id).Nodup := by
  have boxes : ((viewBoxes localeCompare dgNodes localNodeId).map RFNode.id).Nodup := by
    unfold viewBoxes
    rw [List.map_map]
    exact nodup_siteIds named
  have containers : (((runningContainers dgNodes).map (containerNode (localGroupId dgNodes localNodeId))).map
      RFNode.id).Nodup := by
    rw [List.map_map]
    exact named.unique.sublist (List.filter_sublist.map _)
  rw [((perm_view named).map RFNode.id).nodup_iff, List.map_append, List.map_append, List.map_append]
  refine List.Nodup.append
    (List.Nodup.append nodup_groups boxes (disjoint_ids fun g group b box => group_ne_box named group box))
    (List.Nodup.append (nodup_cards order named) containers (disjoint_ids fun r isCard q isContainer same => ?_)) ?_
  · obtain ⟨host, name, ofCard⟩ := cardId_cases isCard
    obtain ⟨c, listed, -, ofNode⟩ := containerId_cases isContainer
    refine named.unreserved c listed ?_
    rw [← ofNode, ← same, ofCard]
    exact reserved_card
  · rw [← List.map_append, ← List.map_append]
    refine disjoint_ids fun r first q second => ?_
    rcases List.mem_append.mp first with group | box
    · exact group_ne_content (List.mem_append.mp second) named group
    · exact box_ne_content (List.mem_append.mp second) named box

theorem parentsFirst_view : ParentsFirst (toNodeGroupedFlowNodes localeCompare dgNodes localNodeId) := by
  rw [view_eq]
  refine (((parentsFirst_of_free fun r => parentId_viewGroups).append ?_).append ?_).append ?_
  · intro r member p parent
    obtain ⟨s, site, rfl⟩ := List.mem_map.mp member
    rw [siteBox_parentId] at parent
    rcases mem_sites.mp site with ⟨n, listed, type, rfl⟩ | ⟨-, rfl⟩
    · obtain rfl := Option.some.inj parent
      have filled : n ∈ roleMembers localeCompare dgNodes (swarmRole n) := mem_roleMembers.mpr ⟨listed, type, rfl⟩
      exact ⟨_, mem_roleGroup (List.ne_nil_of_mem filled), rfl, rfl⟩
    · cases parent
  · intro r member p parent
    obtain ⟨s, site, content⟩ := List.mem_flatMap.mp member
    rw [parentId_siteContent content] at parent
    obtain rfl := Option.some.inj parent
    exact ⟨_, List.mem_append_right _ (List.mem_map_of_mem site), rfl, rfl⟩
  · intro r member p parent
    obtain ⟨c, -, rfl⟩ := free_cases member
    cases parent

end Parts

/-! ## What is shown -/

/-- The tasks on the cards, with their service and the card's box. -/
def shownTasks (nodes : List RFNode) : List (String × TaskInfo × Option String) :=
  nodes.flatMap fun r =>
    match r.data with
    | .nodeServiceCard card => card.tasks.map fun task => (card.serviceId, task, r.parentId)
    | _ => []

/-- The tasks and containers that a node of the canvas stands for. -/
def RFNode.items (r : RFNode) : Nat :=
  match r.data with
  | .nodeServiceCard card => card.tasks.length
  | .graphNode _ => 1
  | _ => 0

/-- The tasks and containers in a box. -/
def itemsIn (nodes : List RFNode) (box : String) : Nat :=
  ((nodes.filter fun r => r.parentId = some box).map RFNode.items).sum

/-- The view of a graph: every active task is on one card, which is in the task's box and is the only one of its
service there. -/
structure TaskView (dgNodes : List DGNode) (rfNodes : List RFNode) : Prop where
  unique : (rfNodes.map RFNode.id).Nodup
  parents : ParentsFirst rfNodes
  tasks : ∃ box : TaskInfo → String, (∀ p ∈ activeTasks dgNodes, BoxOf dgNodes p.task (box p.task)) ∧
    (shownTasks rfNodes).Perm ((activeTasks dgNodes).map fun p => (p.service.id, p.task, some (box p.task)))
  oneCard : ∀ r ∈ rfNodes, ∀ q ∈ rfNodes, ∀ card other, r.data = .nodeServiceCard card →
    q.data = .nodeServiceCard other → r.parentId = q.parentId → card.serviceId = other.serviceId → r = q
  containers : ∀ c ∈ dgNodes, c.type = "container" → c.status ≠ some "not_running" →
    ∃ r, r.type = .containerNode ∧ r.data = .graphNode c ∧ rfNodes.filter (fun r => r.id = c.id) = [r]
  boxCounts : ∀ r ∈ rfNodes, ∀ data, r.data = .swarmNodeGroup data → data.taskCount = itemsIn rfNodes r.id
  roleCounts : ∀ r ∈ rfNodes, ∀ data, r.data = .roleGroup data →
    data.taskCount = ((rfNodes.filter fun b => b.parentId = some r.id).map fun b => itemsIn rfNodes b.id).sum

section Shown

variable {localeCompare : String → String → Int} {dgNodes : List DGNode} {localNodeId : Option String}
variable {s : DGNode × Option SwarmRole}

theorem flatMap_groupByService (tasks : List PlacedTask) :
    ((groupByService tasks).flatMap fun run => run.items.map fun task => (run.head.id, task)) =
      tasks.map fun p => (p.service.id, p.task) := flatMap_runs

theorem shown_siteCards : shownTasks (siteCards localeCompare dgNodes s) =
    (tasksOf localeCompare dgNodes s.1.id).map fun p => (p.service.id, p.task, some s.1.id) := by
  have inBox := congrArg (List.map fun shown : String × TaskInfo => (shown.1, shown.2, some s.1.id))
    (flatMap_groupByService (tasksOf localeCompare dgNodes s.1.id))
  rw [List.map_map, List.map_flatMap] at inBox
  unfold shownTasks siteCards
  rw [List.flatMap_map]
  refine Eq.trans (List.flatMap_congr fun run _ => ?_) inBox
  rw [List.map_map]
  rfl

/-- The tasks on a box's cards are as many as were placed on it. -/
theorem items_siteCards : ((siteCards localeCompare dgNodes s).map RFNode.items).sum =
    (tasksOf localeCompare dgNodes s.1.id).length := by
  have lengths := congrArg List.length (flatMap_groupByService (tasksOf localeCompare dgNodes s.1.id))
  rw [List.length_flatMap, List.length_map] at lengths
  rw [← lengths, siteCards, List.map_map]
  refine congrArg List.sum (List.map_congr_left fun run _ => ?_)
  rw [List.length_map]
  rfl

theorem items_siteContainers : ((siteContainers dgNodes localNodeId s).map RFNode.items).sum =
    (siteContainers dgNodes localNodeId s).length := by
  have one : ∀ r ∈ siteContainers dgNodes localNodeId s, r.items = 1 := by
    intro r member
    unfold siteContainers at member
    split at member
    next =>
      obtain ⟨c, -, rfl⟩ := List.mem_map.mp member
      rfl
    next => cases member
  rw [List.map_congr_left one]
  simp

theorem itemsIn_site (named : Named dgNodes) (site : s ∈ sites localeCompare dgNodes) :
    itemsIn (toNodeGroupedFlowNodes localeCompare dgNodes localNodeId) s.1.id =
      (siteBox localeCompare dgNodes localNodeId s).taskCount := by
  unfold itemsIn
  rw [children_site named site, siteContent, List.map_append, List.sum_append, items_siteCards, items_siteContainers,
    siteBox_taskCount]

/-- Every active task's box is there. -/
theorem taskGroup_mem (named : Named dgNodes) {p : PlacedTask} (active : p ∈ activeTasks dgNodes) :
    taskGroup dgNodes p.task ∈ (sites localeCompare dgNodes).map fun s => s.1.id := by
  have ofNode {n : DGNode} (listed : n ∈ dgNodes) (type : n.type = "swarmnode") :
      n.id ∈ (sites localeCompare dgNodes).map fun s => s.1.id :=
    List.mem_map.mpr ⟨(n, some (swarmRole n)), mem_sites.mpr (.inl ⟨n, listed, type, rfl⟩), rfl⟩
  have box := boxOf_taskGroup (fun n listed empty => named.unreserved n listed (.inl empty)) p.task
  generalize placed : taskGroup dgNodes p.task = g at box ⊢
  cases box with
  | host named => exact ofNode named.1 named.2.1
  | node _ known => exact ofNode known.1 known.2.1
  | unassigned =>
    have some : UNASSIGNED_NODE_GROUP_ID ∈ placeTasks localeCompare dgNodes := mem_placeTasks.mpr ⟨p, active, placed⟩
    exact List.mem_map.mpr ⟨(unassignedNode, none), mem_sites.mpr (.inr ⟨some, rfl⟩), rfl⟩

theorem shown_view (named : Named dgNodes) :
    (shownTasks (toNodeGroupedFlowNodes localeCompare dgNodes localNodeId)).Perm
      ((activeTasks dgNodes).map fun p => (p.service.id, p.task, some (taskGroup dgNodes p.task))) := by
  have groups : shownTasks (viewGroups localeCompare dgNodes localNodeId) = [] := by
    refine List.flatMap_eq_nil_iff.mpr fun r member => ?_
    rcases viewGroups_cases member with ⟨-, data, rfl⟩ | ⟨role, -, rfl⟩ <;> rfl
  have boxes : shownTasks (viewBoxes localeCompare dgNodes localNodeId) = [] := by
    refine List.flatMap_eq_nil_iff.mpr fun r member => ?_
    obtain ⟨s, -, rfl⟩ := List.mem_map.mp member
    rfl
  have containers : shownTasks
      ((runningContainers dgNodes).map (containerNode (localGroupId dgNodes localNodeId))) = [] := by
    refine List.flatMap_eq_nil_iff.mpr fun r member => ?_
    obtain ⟨c, -, rfl⟩ := List.mem_map.mp member
    rfl
  have onCards : shownTasks ((sites localeCompare dgNodes).flatMap (siteCards localeCompare dgNodes)) =
      (sites localeCompare dgNodes).flatMap fun s =>
        (tasksOf localeCompare dgNodes s.1.id).map fun p => (p.service.id, p.task, some s.1.id) := by
    unfold shownTasks
    rw [List.flatMap_assoc]
    exact List.flatMap_congr fun s _ => shown_siteCards
  have placed : ((sites localeCompare dgNodes).flatMap fun s =>
      (tasksOf localeCompare dgNodes s.1.id).map fun p => (p.service.id, p.task, some s.1.id)).Perm
        (((sites localeCompare dgNodes).map fun s => s.1.id).flatMap fun box =>
          ((activeTasks dgNodes).filter fun p => taskGroup dgNodes p.task = box).map fun p =>
            (p.service.id, p.task, some (taskGroup dgNodes p.task))) := by
    rw [List.flatMap_map]
    refine List.Perm.flatMap_left _ fun s _ => ((List.mergeSort_perm _ _).map _).trans ?_
    refine List.Perm.of_eq (List.map_congr_left fun p member => ?_)
    rw [of_decide_eq_true (List.mem_filter.mp member).2]
  have whole : (shownTasks (toNodeGroupedFlowNodes localeCompare dgNodes localNodeId)).Perm _ :=
    (perm_view named).flatMap_right _
  refine whole.trans ?_
  rw [List.flatMap_append, List.flatMap_append, List.flatMap_append]
  change (shownTasks _ ++ shownTasks _ ++ (shownTasks _ ++ shownTasks _)).Perm _
  rw [groups, boxes, containers, onCards, List.nil_append, List.nil_append, List.append_nil]
  refine placed.trans ?_
  rw [← List.map_flatMap]
  exact (perm_flatMap_filter (nodup_siteIds named) fun p active => taskGroup_mem named active).map _

theorem view_cases {r : RFNode} (member : r ∈ toNodeGroupedFlowNodes localeCompare dgNodes localNodeId) :
    r ∈ viewGroups localeCompare dgNodes localNodeId ∨
    (∃ s ∈ sites localeCompare dgNodes, r = (siteBox localeCompare dgNodes localNodeId s).box) ∨
    (∃ s ∈ sites localeCompare dgNodes, ∃ run ∈ groupByService (tasksOf localeCompare dgNodes s.1.id),
      r = serviceCard s.1.id (hostOf s) (inactiveAt s) run) ∨
    ∃ c parent, (∀ p, parent = some p → ∃ s ∈ sites localeCompare dgNodes, s.1.id = p) ∧ r = containerNode parent c := by
  rw [view_eq] at member
  rcases List.mem_append.mp member with member | free
  · rcases List.mem_append.mp member with member | content
    · rcases List.mem_append.mp member with group | box
      · exact .inl group
      · obtain ⟨s, site, rfl⟩ := List.mem_map.mp box
        exact .inr (.inl ⟨s, site, rfl⟩)
    · obtain ⟨s, site, content⟩ := List.mem_flatMap.mp content
      rcases siteContent_cases content with card | ⟨c, -, rfl⟩
      · exact .inr (.inr (.inl ⟨s, site, card⟩))
      · exact .inr (.inr (.inr ⟨c, _, fun p same => ⟨s, site, Option.some.inj same⟩, rfl⟩))
  · obtain ⟨c, -, rfl⟩ := free_cases free
    refine .inr (.inr (.inr ⟨c, none, fun p absent => ?_, rfl⟩))
    cases absent

theorem exists_site_of_card {r : RFNode} (member : r ∈ toNodeGroupedFlowNodes localeCompare dgNodes localNodeId)
    {card : NodeServiceCardData} (isCard : r.data = .nodeServiceCard card) :
    ∃ s ∈ sites localeCompare dgNodes, ∃ run ∈ groupByService (tasksOf localeCompare dgNodes s.1.id),
      r = serviceCard s.1.id (hostOf s) (inactiveAt s) run := by
  rcases view_cases member with group | ⟨s, -, rfl⟩ | card | ⟨c, parent, -, rfl⟩
  · rcases viewGroups_cases group with ⟨-, data, rfl⟩ | ⟨role, -, rfl⟩ <;> cases isCard
  · cases isCard
  · exact card
  · cases isCard

theorem exists_site_of_box {r : RFNode} (member : r ∈ toNodeGroupedFlowNodes localeCompare dgNodes localNodeId)
    {data : SwarmNodeGroupData} (isBox : r.data = .swarmNodeGroup data) :
    ∃ s ∈ sites localeCompare dgNodes, r = (siteBox localeCompare dgNodes localNodeId s).box := by
  rcases view_cases member with group | box | ⟨s, -, run, -, rfl⟩ | ⟨c, parent, -, rfl⟩
  · rcases viewGroups_cases group with ⟨-, data, rfl⟩ | ⟨role, -, rfl⟩ <;> cases isBox
  · exact box
  · cases isBox
  · cases isBox

theorem exists_role_of_group {r : RFNode} (member : r ∈ toNodeGroupedFlowNodes localeCompare dgNodes localNodeId)
    {data : RoleGroupData} (isGroup : r.data = .roleGroup data) :
    ∃ role, r = roleGroupNode localeCompare dgNodes localNodeId role := by
  rcases view_cases member with group | ⟨s, -, rfl⟩ | ⟨s, -, run, -, rfl⟩ | ⟨c, parent, -, rfl⟩
  · rcases viewGroups_cases group with ⟨-, data, rfl⟩ | ⟨role, -, rfl⟩
    · cases isGroup
    · exact ⟨role, rfl⟩
  · cases isGroup
  · cases isGroup
  · cases isGroup

theorem taskCount_role (named : Named dgNodes) (role : SwarmRole) :
    ((roleBoxes localeCompare dgNodes localNodeId role).map AddedBox.taskCount).sum =
      (((toNodeGroupedFlowNodes localeCompare dgNodes localNodeId).filter
        fun b => b.parentId = some (roleGroupId role)).map
          fun b => itemsIn (toNodeGroupedFlowNodes localeCompare dgNodes localNodeId) b.id).sum := by
  rw [children_role named, roleBoxes, List.map_map, List.map_map, List.map_map]
  refine congrArg List.sum (List.map_congr_left fun n member => ?_)
  obtain ⟨listed, type, rfl⟩ := mem_roleMembers.mp member
  have site : (n, some (swarmRole n)) ∈ sites localeCompare dgNodes := mem_sites.mpr (.inl ⟨n, listed, type, rfl⟩)
  exact (itemsIn_site named site).symm

end Shown

/-- The per-node view shows every task once, whatever node is the local one. -/
theorem nodeView_complete (localeCompare : String → String → Int) (order : Total localeCompare)
    (dgNodes : List DGNode) (named : Named dgNodes) (localNodeId : Option String) :
    TaskView dgNodes (toNodeGroupedFlowNodes localeCompare dgNodes localNodeId) where
  unique := nodup_view order named
  parents := parentsFirst_view
  tasks := by
    refine ⟨taskGroup dgNodes, fun p _ => boxOf_taskGroup (fun n listed empty => ?_) p.task, shown_view named⟩
    exact named.unreserved n listed (.inl empty)
  oneCard := by
    intro r first q second card other isCard isOther parent service
    obtain ⟨s, site, run, listed, rfl⟩ := exists_site_of_card first isCard
    obtain ⟨t, site', run', listed', rfl⟩ := exists_site_of_card second isOther
    obtain rfl := NodeData.nodeServiceCard.inj isCard
    obtain rfl := NodeData.nodeServiceCard.inj isOther
    have boxes : s.1.id = t.1.id := by simpa [serviceCard] using parent
    obtain rfl := eq_of_key_eq (fun s => s.1.id) (nodup_siteIds named) site site' boxes
    have services : ((groupByService (tasksOf localeCompare dgNodes s.1.id)).map fun run => run.head.id).Nodup :=
      nodup_services order named s.1.id
    rw [eq_of_key_eq (fun run : Run DGNode TaskInfo => run.head.id) services listed listed' service]
  containers := by
    intro c member type status
    have drawn : containerNode (localGroupId dgNodes localNodeId) c ∈
        toNodeGroupedFlowNodes localeCompare dgNodes localNodeId := by
      rw [(perm_view named).mem_iff]
      refine List.mem_append_right _ (List.mem_append_right _ (List.mem_map_of_mem ?_))
      exact mem_runningContainers.mpr ⟨member, type, status⟩
    exact ⟨_, rfl, rfl, filter_key_eq (nodup_view order named) drawn⟩
  boxCounts := by
    intro r member data isBox
    obtain ⟨s, site, rfl⟩ := exists_site_of_box member isBox
    obtain rfl := NodeData.swarmNodeGroup.inj isBox
    exact (itemsIn_site named site).symm
  roleCounts := by
    intro r member data isGroup
    obtain ⟨role, rfl⟩ := exists_role_of_group member isGroup
    obtain rfl := NodeData.roleGroup.inj isGroup
    exact taskCount_role named role

/-- A leader and a worker, a service with a task on each and one that waits, and a container. -/
def twoNodes : List DGNode :=
  [{ id := "swarmnode:w1", type := "swarmnode", name := "w1"
     swarmNode := some { id := "n2", role := "worker", availability := "active", state := "ready" } },
   { id := "swarmnode:m1", type := "swarmnode", name := "m1"
     swarmNode := some { id := "n1", role := "manager", leader := some true, availability := "active", state := "ready" } },
   { id := "service:web", type := "service", name := "web"
     service := some
       { replicas := { running := 2, desired := 3 }
         tasks := some [{ id := "t1", slot := some 1, nodeHostname := some "w1" },
           { id := "t2", slot := some 2, nodeId := some "n1" }, { id := "t3", slot := some 3 }] } },
   { id := "container:db", type := "container", name := "db", status := some "running" }]

theorem named_twoNodes : Named twoNodes where
  unique := by decide
  unreserved := by
    have typed : ∀ n ∈ twoNodes, n.type ∈ idTypes ∧ n.id = n.type ++ ":" ++ n.name := by decide
    exact unreserved_of_typed fun n member => ⟨n.type, (typed n member).1, n.name, (typed n member).2⟩
  services := by decide
  colonless := by decide
  hosts := by decide
  starless := by decide

theorem nodeView_complete_twoNodes :
    TaskView twoNodes (toNodeGroupedFlowNodes (sign fun a b : String => a < b) twoNodes (some "n1")) :=
  nodeView_complete _ total_sign _ named_twoNodes _

end Dockgraph.Frontend
