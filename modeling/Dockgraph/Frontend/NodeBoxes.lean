import Dockgraph.Frontend.NodeTransform
import Dockgraph.Library.Text

/-!
# The boxes of the per-node view

Each box is added for a swarm node, or for the tasks without one. What it is given are the tasks placed on
that node, service by service, and the containers if the node is the local one.
-/
namespace Dockgraph.Frontend

open Comparator Keyed Runs

/-! ## Graphs -/

/-- An ID that is none, or that the view gives to nodes of its own. -/
def Reserved (id : String) : Prop :=
  id = "" ∨ id = CONTROL_SUMMARY_ID ∨ id = UNASSIGNED_NODE_GROUP_ID ∨ (∃ role, id = roleGroupId role) ∨
    ∃ host name, id = nodeServiceCardId host name

/-- A graph as the backend names its nodes. -/
structure Named (dgNodes : List DGNode) : Prop where
  unique : (dgNodes.map DGNode.id).Nodup
  unreserved : ∀ n ∈ dgNodes, ¬Reserved n.id
  services : ((dgNodes.filter fun n => n.type = "service").map DGNode.name).Nodup
  colonless : ∀ n ∈ dgNodes, n.type = "service" → ':' ∉ n.name.toList
  hosts : ((dgNodes.filter fun n => n.type = "swarmnode").map DGNode.name).Nodup
  starless : ∀ n ∈ dgNodes, n.type = "swarmnode" → n.name ≠ UNASSIGNED_CARD_HOST

/-- An ID that starts with its node's type is free. -/
theorem not_reserved {type name : String} (typed : type ∈ idTypes) : ¬Reserved (type ++ ":" ++ name) := by
  rintro (empty | summary | unassigned | ⟨role, group⟩ | ⟨host, service, card⟩)
  · have chars := congrArg String.toList empty
    simp at chars
  · have colon : ':' ∈ (type ++ ":" ++ name).toList := by simp
    rw [summary] at colon
    exact absurd colon (by decide)
  · exact typed_ne typed "nodegroup" "unassigned" (by decide) (by decide) unassigned
  · cases role with
    | manager => exact typed_ne typed "rolegroup" "manager" (by decide) (by decide) group
    | worker => exact typed_ne typed "rolegroup" "worker" (by decide) (by decide) group
  · refine typed_ne typed "nodesvc" (host ++ ":" ++ service) (by decide) (by decide) (card.trans ?_)
    simp [nodeServiceCardId, String.append_assoc]

/-- IDs of the form type:name are free. -/
theorem unreserved_of_typed {dgNodes : List DGNode} (typed : ∀ n ∈ dgNodes, Typed n) :
    ∀ n ∈ dgNodes, ¬Reserved n.id := by
  intro n member
  obtain ⟨type, listed, name, same⟩ := typed n member
  rw [same]
  exact not_reserved listed

section Orders

variable {localeCompare : String → String → Int} (order : Total localeCompare)
include order

/-! ## Orders -/

/-- The order of services that the order of tasks goes by first. -/
def compareServices (localeCompare : String → String → Int) (s t : DGNode) : Int :=
  orElse (noneLast localeCompare (projectOf s) (projectOf t)) (localeCompare s.name t.name)

theorem comparePlacedTasks_eq (a b : PlacedTask) :
    comparePlacedTasks localeCompare a b = orElse (compareServices localeCompare a.service b.service)
      (orElse (a.task.slot.getD 0 - b.task.slot.getD 0)
        (orElse (localeCompare (a.task.nodeId.getD "") (b.task.nodeId.getD ""))
          (localeCompare a.task.id b.task.id))) := by
  unfold comparePlacedTasks compareServices
  dsimp only
  split
  next differ =>
    have decides : noneLast localeCompare (projectOf a.service) (projectOf b.service) ≠ 0 := by
      rwa [Ne, order.noneLast_eq_zero]
    simp [orElse, decides]
  next same =>
    rw [Decidable.not_not] at same
    rw [order.noneLast_eq_zero.mpr same]
    simp [orElse]

theorem consistent_services : Consistent (compareServices localeCompare) :=
  (order.noneLast.comap projectOf).orElse (order.comap DGNode.name)

theorem consistent_placedTasks : Consistent (comparePlacedTasks localeCompare) := by
  have same : comparePlacedTasks localeCompare = _ := funext fun a => funext fun b => comparePlacedTasks_eq order a b
  rw [same]
  exact ((consistent_services order).comap PlacedTask.service).orElse
    ((consistent_sub.comap fun p : PlacedTask => p.task.slot.getD 0).orElse
      ((order.comap fun p : PlacedTask => p.task.nodeId.getD "").orElse
        (order.comap fun p : PlacedTask => p.task.id)))

/-- Between two tasks of a service stand tasks of services of its name only. -/
theorem name_between {a b c : PlacedTask} (ab : comparePlacedTasks localeCompare a b ≤ 0)
    (bc : comparePlacedTasks localeCompare b c ≤ 0) (same : a.service = c.service) :
    b.service.name = c.service.name := by
  rw [comparePlacedTasks_eq order] at ab bc
  have services := consistent_services order
  have ends : compareServices localeCompare a.service c.service = 0 := same ▸ services.refl
  obtain ⟨-, equal⟩ := services.zero_between (orElse_le_zero ab) (orElse_le_zero bc) ends
  exact order.eq_of_zero _ _ (orElse_eq_zero.mp equal).2

end Orders

/-! ## Tasks -/

section Tasks

variable {localeCompare : String → String → Int} {dgNodes : List DGNode}

/-- The swarm nodes that are called by the task's hostname. -/
def OnHost (dgNodes : List DGNode) (task : TaskInfo) (n : DGNode) : Prop :=
  n ∈ dgNodes ∧ n.type = "swarmnode" ∧ truthy task.nodeHostname = some n.name

/-- The swarm nodes that have the task's node ID. -/
def OnNode (dgNodes : List DGNode) (task : TaskInfo) (n : DGNode) : Prop :=
  n ∈ dgNodes ∧ n.type = "swarmnode" ∧ ∃ info, n.swarmNode = some info ∧ truthy task.nodeId = some info.id

/-- The ID of the box of a task's swarm node, which is known by hostname or else by node ID. -/
inductive BoxOf (dgNodes : List DGNode) (task : TaskInfo) : String → Prop
  | host {n : DGNode} (named : OnHost dgNodes task n) : BoxOf dgNodes task n.id
  | node {n : DGNode} (unnamed : ∀ m, ¬OnHost dgNodes task m) (known : OnNode dgNodes task n) : BoxOf dgNodes task n.id
  | unassigned (unnamed : ∀ m, ¬OnHost dgNodes task m) (unknown : ∀ m, ¬OnNode dgNodes task m) :
    BoxOf dgNodes task UNASSIGNED_NODE_GROUP_ID

/-- A lookup of swarm nodes by a key finds the ID of one that has the key, if any has it. -/
theorem lookup_swarmNodes (key : DGNode → Option String) (asked : Option String)
    (unreserved : ∀ n ∈ dgNodes, n.id ≠ "") :
    (∃ n ∈ dgNodes, n.type = "swarmnode" ∧ (∃ k, asked = some k ∧ key n = some k) ∧
      truthy (asked.bind ((dgNodes.filter fun n => n.type = "swarmnode").foldl (assign key DGNode.id) ∅).lookup) =
        some n.id) ∨
    ((∀ n ∈ dgNodes, n.type = "swarmnode" → ∀ k, asked = some k → key n ≠ some k) ∧
      truthy (asked.bind ((dgNodes.filter fun n => n.type = "swarmnode").foldl (assign key DGNode.id) ∅).lookup) =
        none) := by
  cases asked with
  | none =>
    refine .inr ⟨fun n _ _ k absent => ?_, rfl⟩
    cases absent
  | some k =>
    rw [Option.bind_some, lookup_foldl_assign]
    cases last : ((dgNodes.filter fun n => n.type = "swarmnode").filter fun n => key n = some k).getLast? with
    | none =>
      refine .inr ⟨fun n member type l asked keyed => ?_, rfl⟩
      obtain rfl := Option.some.inj asked
      have listed : n ∈ (dgNodes.filter fun n => n.type = "swarmnode").filter fun n => key n = some k := by
        simp [member, type, keyed]
      rw [List.getLast?_eq_none_iff.mp last] at listed
      cases listed
    | some n =>
      have listed := List.mem_of_getLast? last
      simp only [List.mem_filter, decide_eq_true_eq] at listed
      obtain ⟨⟨member, type⟩, keyed⟩ := listed
      exact .inl ⟨n, member, type, ⟨k, rfl, keyed⟩, truthy_eq_some.mpr ⟨rfl, unreserved n member⟩⟩

theorem boxOf_taskGroup (unreserved : ∀ n ∈ dgNodes, n.id ≠ "") (task : TaskInfo) :
    BoxOf dgNodes task (taskGroup dgNodes task) := by
  unfold taskGroup byHostname byNodeId
  rcases lookup_swarmNodes (fun n => some n.name) (truthy task.nodeHostname) unreserved with
    ⟨n, member, type, ⟨k, asked, keyed⟩, found⟩ | ⟨unnamed, absent⟩
  · rw [found]
    exact .host ⟨member, type, asked.trans keyed.symm⟩
  · have unnamed : ∀ m, ¬OnHost dgNodes task m := fun m ⟨member, type, asked⟩ => unnamed m member type _ asked rfl
    rw [absent]
    rcases lookup_swarmNodes (fun n => truthy (n.swarmNode.map SwarmNodeInfo.id)) (truthy task.nodeId) unreserved with
      ⟨n, member, type, ⟨k, asked, keyed⟩, found⟩ | ⟨unknown, absent⟩
    · rw [found]
      obtain ⟨info, set, rfl⟩ := Option.map_eq_some_iff.mp (truthy_eq_some.mp keyed).1
      exact .node unnamed ⟨member, type, info, set, asked⟩
    · rw [absent]
      refine .unassigned unnamed fun m ⟨member, type, info, set, asked⟩ => unknown m member type _ asked ?_
      rw [set]
      exact truthy_eq_some.mpr ⟨rfl, (truthy_eq_some.mp asked).2⟩

/-- The tasks placed on a box, sorted. -/
def tasksOf (localeCompare : String → String → Int) (dgNodes : List DGNode) (box : String) : List PlacedTask :=
  ((activeTasks dgNodes).filter fun p => taskGroup dgNodes p.task = box).mergeSort fun a b =>
    comparePlacedTasks localeCompare a b ≤ 0

theorem lookup_placeTasks (box : String) :
    ((placeTasks localeCompare dgNodes).lookup box).getD [] = tasksOf localeCompare dgNodes box := by
  have grouped : ((group (fun p => some (taskGroup dgNodes p.task)) id (activeTasks dgNodes)).lookup box).getD [] =
      (activeTasks dgNodes).filter fun p => taskGroup dgNodes p.task = box := by
    simp [lookup_group]
  unfold placeTasks tasksOf
  rw [lookup_mapValues, ← grouped]
  cases (group (fun p => some (taskGroup dgNodes p.task)) id (activeTasks dgNodes)).lookup box <;> simp

theorem mem_placeTasks {box : String} :
    box ∈ placeTasks localeCompare dgNodes ↔ ∃ p ∈ activeTasks dgNodes, taskGroup dgNodes p.task = box := by
  unfold placeTasks
  rw [mem_mapValues, mem_group]
  simp

theorem service_of_mem_activeTasks {p : PlacedTask} (active : p ∈ activeTasks dgNodes) :
    p.service ∈ dgNodes.filter fun n => n.type = "service" := by
  obtain ⟨service, listed, tasks⟩ := List.mem_flatMap.mp active
  obtain ⟨task, -, rfl⟩ := List.mem_map.mp tasks
  exact listed

theorem mem_tasksOf {p : PlacedTask} {box : String} :
    p ∈ tasksOf localeCompare dgNodes box ↔ p ∈ activeTasks dgNodes ∧ taskGroup dgNodes p.task = box := by
  simp [tasksOf]

theorem exists_task {run : Run DGNode TaskInfo} {box : String}
    (member : run ∈ groupByService (tasksOf localeCompare dgNodes box)) :
    run.head ∈ dgNodes.filter fun n => n.type = "service" := by
  obtain ⟨p, listed, same⟩ := exists_head member
  exact same ▸ service_of_mem_activeTasks (mem_tasksOf.mp listed).1

/-- A service has one run in each box, as its tasks stand together. -/
theorem nodup_services (order : Total localeCompare) (named : Named dgNodes) (box : String) :
    ((groupByService (tasksOf localeCompare dgNodes box)).map fun run => run.head.id).Nodup := by
  have sorted : (tasksOf localeCompare dgNodes box).Pairwise fun a b => comparePlacedTasks localeCompare a b ≤ 0 :=
    (consistent_placedTasks order).pairwise_mergeSort _
  have service {p : PlacedTask} (listed : p ∈ tasksOf localeCompare dgNodes box) :
      p.service ∈ dgNodes.filter fun n => n.type = "service" :=
    service_of_mem_activeTasks (mem_tasksOf.mp listed).1
  refine nodup_runs sorted fun a ha b hb c hc ab bc same => ?_
  have services : a.service = c.service :=
    eq_of_key_eq DGNode.id named.unique (List.mem_filter.mp (service ha)).1 (List.mem_filter.mp (service hc)).1 same
  have names := name_between order ab bc services
  rw [eq_of_key_eq DGNode.name named.services (service hb) (service hc) names]

end Tasks

/-! ## Sites -/

section Sites

variable (localeCompare : String → String → Int) (dgNodes : List DGNode) (localNodeId : Option String)

/-- What the boxes are added for, with their roles. -/
def sites : List (DGNode × Option SwarmRole) :=
  (roleMembers localeCompare dgNodes .manager).map (fun n => (n, some .manager)) ++
    (roleMembers localeCompare dgNodes .worker).map (fun n => (n, some .worker)) ++
      if UNASSIGNED_NODE_GROUP_ID ∈ placeTasks localeCompare dgNodes then [(unassignedNode, none)] else []

def hostOf (s : DGNode × Option SwarmRole) : String := if s.2.isSome then s.1.name else UNASSIGNED_CARD_HOST

def inactiveAt (s : DGNode × Option SwarmRole) : Bool := if s.2.isSome then isSwarmNodeInactive s.1 else false

def siteBox (s : DGNode × Option SwarmRole) : AddedBox :=
  addBoxOf localeCompare dgNodes localNodeId s.1.id s.1 (s.2.map roleGroupId) s.2

/-- The cards of the services in a box. -/
def siteCards (s : DGNode × Option SwarmRole) : List RFNode :=
  (groupByService (tasksOf localeCompare dgNodes s.1.id)).map (serviceCard s.1.id (hostOf s) (inactiveAt s))

/-- The containers in a box. -/
def siteContainers (s : DGNode × Option SwarmRole) : List RFNode :=
  if localGroupId dgNodes localNodeId = some s.1.id then
    (runningContainers dgNodes).map (containerNode (some s.1.id))
  else []

variable {localeCompare dgNodes localNodeId} {s t : DGNode × Option SwarmRole} {n : DGNode} {role : SwarmRole}

theorem addedBoxes_eq : addedBoxes localeCompare dgNodes localNodeId =
    (sites localeCompare dgNodes).map (siteBox localeCompare dgNodes localNodeId) := by
  unfold addedBoxes sites roleBoxes unassignedBox
  rw [List.map_append, List.map_append, List.map_map, List.map_map, apply_ite (List.map _)]
  rfl

theorem siteBox_cards : (siteBox localeCompare dgNodes localNodeId s).cards =
    siteCards localeCompare dgNodes s ++ siteContainers dgNodes localNodeId s := by
  unfold siteBox addBoxOf addBox siteCards siteContainers
  rw [lookup_placeTasks]
  split <;> rfl

theorem siteBox_taskCount : (siteBox localeCompare dgNodes localNodeId s).taskCount =
    (tasksOf localeCompare dgNodes s.1.id).length + (siteContainers dgNodes localNodeId s).length := by
  unfold siteBox addBoxOf addBox siteContainers
  rw [lookup_placeTasks]
  split <;> simp

theorem siteBox_parentId : (siteBox localeCompare dgNodes localNodeId s).box.parentId = s.2.map roleGroupId := by
  obtain ⟨n, role⟩ := s
  cases role with
  | none => rfl
  | some role => cases role <;> rfl

theorem mem_roleMembers :
    n ∈ roleMembers localeCompare dgNodes role ↔ n ∈ dgNodes ∧ n.type = "swarmnode" ∧ swarmRole n = role := by
  simp [roleMembers, listSwarmNodes, and_assoc]

/-- The sites, in any order: every swarm node with its role, and the unassigned box. -/
theorem perm_sites : (sites localeCompare dgNodes).Perm
    ((dgNodes.filter fun n => n.type = "swarmnode").map (fun n => (n, some (swarmRole n))) ++
      if UNASSIGNED_NODE_GROUP_ID ∈ placeTasks localeCompare dgNodes then [(unassignedNode, none)] else []) := by
  have ofRole (role : SwarmRole) : (roleMembers localeCompare dgNodes role).map (fun n => (n, some role)) =
      (roleMembers localeCompare dgNodes role).map fun n => (n, some (swarmRole n)) :=
    List.map_congr_left fun n member => by rw [(mem_roleMembers.mp member).2.2]
  have workers : roleMembers localeCompare dgNodes .worker =
      (listSwarmNodes localeCompare dgNodes).filter fun n => !decide (swarmRole n = .manager) := by
    refine List.filter_congr fun n _ => ?_
    cases swarmRole n <;> rfl
  unfold sites
  rw [ofRole .manager, ofRole .worker, ← List.map_append, workers]
  refine List.Perm.append_right _ (List.Perm.map _ ?_)
  exact (List.filter_append_perm _ _).trans (List.mergeSort_perm _ _)

theorem mem_sites : s ∈ sites localeCompare dgNodes ↔
    (∃ n ∈ dgNodes, n.type = "swarmnode" ∧ s = (n, some (swarmRole n))) ∨
      UNASSIGNED_NODE_GROUP_ID ∈ placeTasks localeCompare dgNodes ∧ s = (unassignedNode, none) := by
  rw [perm_sites.mem_iff, List.mem_append, List.mem_map]
  refine or_congr ?_ ?_
  · simp [and_assoc, eq_comm]
  · split <;> simp_all

/-- What tells swarm nodes apart, and from the unassigned box, tells sites apart. -/
theorem nodup_sites {f : DGNode × Option SwarmRole → String}
    (unique : ((dgNodes.filter fun n => n.type = "swarmnode").map fun n => f (n, some (swarmRole n))).Nodup)
    (fresh : ∀ n ∈ dgNodes, n.type = "swarmnode" → f (n, some (swarmRole n)) ≠ f (unassignedNode, none)) :
    ((sites localeCompare dgNodes).map f).Nodup := by
  rw [(perm_sites.map f).nodup_iff, List.map_append, List.map_map, List.nodup_append]
  refine ⟨unique, ?_, fun a first b second => ?_⟩
  · split <;> simp
  · obtain ⟨n, member, rfl⟩ := List.mem_map.mp first
    obtain ⟨listed, type⟩ := List.mem_filter.mp member
    split at second
    · obtain rfl := List.mem_singleton.mp second
      exact fresh n listed (of_decide_eq_true type)
    · cases second

theorem nodup_siteIds (named : Named dgNodes) : ((sites localeCompare dgNodes).map fun s => s.1.id).Nodup := by
  refine nodup_sites (named.unique.sublist (List.filter_sublist.map _)) fun n member _ same => ?_
  exact named.unreserved n member (.inr (.inr (.inl same)))

theorem nodup_hosts (named : Named dgNodes) : ((sites localeCompare dgNodes).map hostOf).Nodup :=
  nodup_sites named.hosts named.starless

/-! ## Cards -/

theorem nodeServiceCardId_inj {host host' name name' : String} (colonless : ':' ∉ name.toList)
    (colonless' : ':' ∉ name'.toList) (same : nodeServiceCardId host name = nodeServiceCardId host' name') :
    host = host' ∧ name = name' := by
  have chars : ("nodesvc:" ++ host).toList ++ ':' :: name.toList = ("nodesvc:" ++ host').toList ++ ':' :: name'.toList := by
    simpa [nodeServiceCardId] using congrArg String.toList same
  obtain ⟨hosts, names⟩ := Text.split_at_last colonless colonless' chars
  exact ⟨String.toList_inj.mp (by simpa using hosts), String.toList_inj.mp names⟩

theorem colonless_head (named : Named dgNodes) {run : Run DGNode TaskInfo} {box : String}
    (member : run ∈ groupByService (tasksOf localeCompare dgNodes box)) : ':' ∉ run.head.name.toList := by
  obtain ⟨listed, type⟩ := List.mem_filter.mp (exists_task member)
  exact named.colonless run.head listed (of_decide_eq_true type)

theorem nodup_siteCards (order : Total localeCompare) (named : Named dgNodes) :
    ((siteCards localeCompare dgNodes s).map RFNode.id).Nodup := by
  have services := nodup_services order named s.1.id
  unfold siteCards
  rw [List.map_map]
  refine List.pairwise_map.mpr ((List.pairwise_map.mp services).imp_of_mem fun {a b} ha hb differ same => differ ?_)
  have names := (nodeServiceCardId_inj (colonless_head named ha) (colonless_head named hb) same).2
  rw [eq_of_key_eq DGNode.name named.services (exists_task ha) (exists_task hb) names]

/-- The services' cards have different IDs in different boxes, too. -/
theorem nodup_cards (order : Total localeCompare) (named : Named dgNodes) :
    (((sites localeCompare dgNodes).flatMap (siteCards localeCompare dgNodes)).map RFNode.id).Nodup := by
  rw [List.map_flatMap, List.nodup_flatMap]
  refine ⟨fun s _ => nodup_siteCards order named, (List.pairwise_map.mp (nodup_hosts named)).imp ?_⟩
  intro s t differ id first second
  obtain ⟨r, member, rfl⟩ := List.mem_map.mp first
  obtain ⟨r', member', same⟩ := List.mem_map.mp second
  obtain ⟨run, listed, rfl⟩ := List.mem_map.mp member
  obtain ⟨run', listed', rfl⟩ := List.mem_map.mp member'
  exact differ (nodeServiceCardId_inj (colonless_head named listed) (colonless_head named listed') same.symm).1

end Sites

end Dockgraph.Frontend
