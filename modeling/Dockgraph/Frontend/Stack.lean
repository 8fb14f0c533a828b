import Dockgraph.Frontend.NetworkView
import Dockgraph.Library.Comparator

/-!
# The scope of a stack (`utils/stack.ts`)

A stack's scope has the stack's own nodes, what its workloads refer to and the swarm's machines.
-/
namespace Dockgraph.Frontend

/-- No stack is named so. -/
def STANDALONE_STACK : String := "_standalone"

def inStack (node : DGNode) (stack : String) : Bool :=
  if stack = STANDALONE_STACK then projectOf node = none else projectOf node = some stack

/-! ## The list of stacks -/

structure StackSummary where
  name : String
  running : Nat := 0
  total : Nat := 0

def stackOf (n : DGNode) : String := (projectOf n).getD STANDALONE_STACK

def isRunning (n : DGNode) : Bool := n.status = some "running"

def StackSummary.count (group : StackSummary) (n : DGNode) : StackSummary :=
  { group with
    total := group.total + 1
    running := if isRunning n then group.running + 1 else group.running }

/-- A map has its entries in the order in which their keys came. -/
def countInStack (groups : List StackSummary) (n : DGNode) : List StackSummary :=
  if !isWorkload n then groups
  else if groups.any fun g => g.name = stackOf n then
    groups.map fun g => if g.name = stackOf n then g.count n else g
  else groups ++ [({ name := stackOf n } : StackSummary).count n]

/-- By name, the standalone workloads last. -/
def compareStacks (localeCompare : String → String → Int) (a b : StackSummary) : Int :=
  if a.name = STANDALONE_STACK then 1
  else if b.name = STANDALONE_STACK then -1
  else localeCompare a.name b.name

def listStacks (localeCompare : String → String → Int) (nodes : List DGNode) : List StackSummary :=
  (nodes.foldl countInStack []).mergeSort fun a b => compareStacks localeCompare a b ≤ 0

/-! ## The scope -/

/-- The nodes that are kept for themselves. -/
def isOwn (stack : String) (n : DGNode) : Bool :=
  if n.type = "swarmnode" then true
  else if isWorkload n then inStack n stack
  else stack ≠ STANDALONE_STACK && inStack n stack

def keepNetwork (workloadIds kept : Finset String) (n : DGNode) : Finset String :=
  match truthy n.networkId with
  | some network => if n.id ∈ workloadIds then insert network kept else kept
  | none => kept

def keepEnd (workloadIds kept : Finset String) (e : DGEdge) : Finset String :=
  let kept := if e.type = "secondary_network" ∧ e.source ∈ workloadIds then insert e.target kept else kept
  if e.type = "volume_mount" ∧ e.target ∈ workloadIds then insert e.source kept else kept

def idsOf (nodes : List DGNode) : Finset String := (nodes.map DGNode.id).toFinset

/-- The IDs that are kept. -/
def keptIn (g : Graph) (stack : String) : Finset String :=
  let kept := idsOf (g.nodes.filter (isOwn stack))
  let workloadIds := idsOf (g.nodes.filter fun n => isWorkload n ∧ n.id ∈ kept)
  g.edges.foldl (keepEnd workloadIds) (g.nodes.foldl (keepNetwork workloadIds) kept)

def filterGraphByStack (g : Graph) (stack : Option String) : Graph :=
  match truthy stack with
  | none => g
  | some stack =>
    let scopedNodes := g.nodes.filter fun n => n.id ∈ keptIn g stack
    { nodes := scopedNodes
      edges := g.edges.filter fun e => e.source ∈ idsOf scopedNodes ∧ e.target ∈ idsOf scopedNodes }

/-! ## What is in a scope -/

/-- A workload's networks and volumes. -/
def Refers (g : Graph) (w n : DGNode) : Prop :=
  truthy w.networkId = some n.id ∨ ∃ e ∈ g.edges,
    e.type = "secondary_network" ∧ e.source = w.id ∧ e.target = n.id ∨
      e.type = "volume_mount" ∧ e.target = w.id ∧ e.source = n.id

/-- What a stack's scope is to show. -/
inductive InScope (g : Graph) (stack : String) (n : DGNode) : Prop
  /-- A machine of the swarm, whatever the stack. -/
  | machine (type : n.type = "swarmnode")
  | workload (runs : isWorkload n = true) (member : inStack n stack = true)
  /-- Another node of the stack, where the stack has a name. -/
  | other (named : stack ≠ STANDALONE_STACK) (idle : isWorkload n = false) (member : inStack n stack = true)
  | referred (w : DGNode) (there : w ∈ g.nodes) (runs : isWorkload w = true) (member : inStack w stack = true)
      (refers : Refers g w n)

section Scope

variable {g : Graph} {stack : String} {n w : DGNode} {e : DGEdge} {kept workloadIds : Finset String} {id : String}

theorem mem_idsOf {nodes : List DGNode} : id ∈ idsOf nodes ↔ ∃ n ∈ nodes, n.id = id := by
  simp [idsOf]

theorem mem_keepNetworks {nodes : List DGNode} : id ∈ nodes.foldl (keepNetwork workloadIds) kept ↔
    id ∈ kept ∨ ∃ n ∈ nodes, n.id ∈ workloadIds ∧ truthy n.networkId = some id := by
  induction nodes generalizing kept with
  | nil => simp
  | cons n nodes ih =>
    have first : id ∈ keepNetwork workloadIds kept n ↔
        id ∈ kept ∨ n.id ∈ workloadIds ∧ truthy n.networkId = some id := by
      unfold keepNetwork
      split
      next network set =>
        by_cases workload : n.id ∈ workloadIds
        · simp [set, workload, or_comm, eq_comm]
        · simp [workload]
      next unset => simp [unset]
    rw [List.foldl_cons, ih, first]
    simp [or_assoc]

theorem mem_keepEnds {edges : List DGEdge} : id ∈ edges.foldl (keepEnd workloadIds) kept ↔
    id ∈ kept ∨ ∃ e ∈ edges, e.type = "secondary_network" ∧ e.source ∈ workloadIds ∧ e.target = id ∨
      e.type = "volume_mount" ∧ e.target ∈ workloadIds ∧ e.source = id := by
  induction edges generalizing kept with
  | nil => simp
  | cons e edges ih =>
    have first : id ∈ keepEnd workloadIds kept e ↔
        id ∈ kept ∨ e.type = "secondary_network" ∧ e.source ∈ workloadIds ∧ e.target = id ∨
          e.type = "volume_mount" ∧ e.target ∈ workloadIds ∧ e.source = id := by
      -- an edge has one type, so it passes at most one of the two tests
      by_cases secondary : e.type = "secondary_network" ∧ e.source ∈ workloadIds
      · have other : ¬(e.type = "volume_mount" ∧ e.target ∈ workloadIds) := by simp [secondary.1]
        simp only [keepEnd, if_pos secondary, if_neg other, Finset.mem_insert]
        simp [secondary.1, secondary.2, or_comm, eq_comm]
      · by_cases mount : e.type = "volume_mount" ∧ e.target ∈ workloadIds
        · simp only [keepEnd, if_neg secondary, if_pos mount, Finset.mem_insert]
          simp [mount.1, mount.2, or_comm, eq_comm]
        · simp only [keepEnd, if_neg secondary, if_neg mount]
          tauto
    rw [List.foldl_cons, ih, first]
    simp [or_assoc]

/-- Machines are no workloads, so a workload is the stack's own by its stack alone. -/
theorem isOwn_of_workload (runs : isWorkload w = true) : isOwn stack w = inStack w stack := by
  have type : w.type ≠ "swarmnode" := by
    intro machine
    simp [isWorkload, machine] at runs
  rw [isOwn, if_neg type, if_pos runs]

theorem inScope_iff : InScope g stack n ↔
    isOwn stack n = true ∨ ∃ w ∈ g.nodes, isWorkload w = true ∧ inStack w stack = true ∧ Refers g w n := by
  constructor
  · rintro (machine | ⟨runs, member⟩ | ⟨named, idle, member⟩ | ⟨w, there, runs, member, refers⟩)
    · exact .inl (if_pos machine)
    · exact .inl ((isOwn_of_workload runs).trans member)
    · left
      unfold isOwn
      split <;> simp [named, idle, member]
    · exact .inr ⟨w, there, runs, member, refers⟩
  · rintro (own | ⟨w, there, runs, member, refers⟩)
    -- the tests of `isOwn`, in order
    · unfold isOwn at own
      split at own
      case isTrue machine => exact .machine machine
      split at own
      case isTrue runs => exact .workload runs own
      case isFalse idle =>
        simp only [Bool.and_eq_true, decide_eq_true_eq] at own
        exact .other own.1 (by simpa using idle) own.2
    · exact .referred w there runs member refers

/-- With unique IDs the IDs that are kept are those of the nodes in the scope. -/
theorem mem_keptIn (unique : (g.nodes.map DGNode.id).Nodup) (there : n ∈ g.nodes) :
    n.id ∈ keptIn g stack ↔ InScope g stack n := by
  -- as IDs are unique, a node whose ID is kept was kept itself
  have own {n : DGNode} (there : n ∈ g.nodes) :
      n.id ∈ idsOf (g.nodes.filter (isOwn stack)) ↔ isOwn stack n = true := by
    rw [mem_idsOf]
    constructor
    · rintro ⟨m, listed, same⟩
      obtain ⟨listed, own⟩ := List.mem_filter.mp listed
      rwa [← Keyed.eq_of_key_eq DGNode.id unique listed there same]
    · exact fun own => ⟨n, List.mem_filter.mpr ⟨there, own⟩, rfl⟩
  have workloads {id : String} : id ∈ idsOf (g.nodes.filter fun n =>
      isWorkload n ∧ n.id ∈ idsOf (g.nodes.filter (isOwn stack))) ↔
      ∃ w ∈ g.nodes, isWorkload w = true ∧ inStack w stack = true ∧ w.id = id := by
    rw [mem_idsOf]
    refine exists_congr fun w => ?_
    rw [List.mem_filter, and_assoc]
    refine and_congr_right fun listed => ?_
    rw [decide_eq_true_eq, own listed, and_assoc]
    exact and_congr_right fun runs => by rw [isOwn_of_workload runs]
  -- the loops add networks by name, then the other end of each edge
  rw [keptIn, inScope_iff]
  simp only [mem_keepEnds, mem_keepNetworks, own there, workloads, Refers, or_assoc]
  refine or_congr_right ?_
  constructor
  · rintro (⟨m, listed, ⟨w, there, runs, member, same⟩, network⟩ |
      ⟨e, edge, ⟨secondary, ⟨w, there, runs, member, same⟩, target⟩ |
        ⟨mount, ⟨w, there, runs, member, same⟩, source⟩⟩)
    · refine ⟨w, there, runs, member, .inl ?_⟩
      rwa [Keyed.eq_of_key_eq DGNode.id unique there listed same]
    · exact ⟨w, there, runs, member, .inr ⟨e, edge, .inl ⟨secondary, same.symm, target⟩⟩⟩
    · exact ⟨w, there, runs, member, .inr ⟨e, edge, .inr ⟨mount, same.symm, source⟩⟩⟩
  · rintro ⟨w, there, runs, member, network | ⟨e, edge, ⟨secondary, source, target⟩ | ⟨mount, target, source⟩⟩⟩
    · exact .inl ⟨w, there, ⟨w, there, runs, member, rfl⟩, network⟩
    · exact .inr ⟨e, edge, .inl ⟨secondary, ⟨w, there, runs, member, source.symm⟩, target⟩⟩
    · exact .inr ⟨e, edge, .inr ⟨mount, ⟨w, there, runs, member, target.symm⟩, source⟩⟩

/-! ## A scope is closed -/

theorem scope_eq (named : stack ≠ "") : filterGraphByStack g (some stack) =
    { nodes := g.nodes.filter fun n => n.id ∈ keptIn g stack
      edges := g.edges.filter fun e => e.source ∈ idsOf (g.nodes.filter fun n => n.id ∈ keptIn g stack) ∧
        e.target ∈ idsOf (g.nodes.filter fun n => n.id ∈ keptIn g stack) } := by
  have selected : truthy (some stack) = some stack := truthy_eq_some.mpr ⟨rfl, named⟩
  rw [filterGraphByStack, selected]

theorem mem_scope_nodes (unique : (g.nodes.map DGNode.id).Nodup) (named : stack ≠ "") :
    n ∈ (filterGraphByStack g (some stack)).nodes ↔ n ∈ g.nodes ∧ InScope g stack n := by
  simp only [scope_eq named, List.mem_filter, decide_eq_true_eq]
  exact and_congr_right fun there => mem_keptIn unique there

theorem mem_scope_edges (named : stack ≠ "") :
    e ∈ (filterGraphByStack g (some stack)).edges ↔ e ∈ g.edges ∧
      (∃ s ∈ (filterGraphByStack g (some stack)).nodes, s.id = e.source) ∧
        ∃ t ∈ (filterGraphByStack g (some stack)).nodes, t.id = e.target := by
  simp only [scope_eq named, List.mem_filter, decide_eq_true_eq, mem_idsOf]

/-- What a kept workload refers to is kept, and so is the reference. -/
theorem refers_scope (unique : (g.nodes.map DGNode.id).Nodup) (named : stack ≠ "") (there : w ∈ g.nodes)
    (runs : isWorkload w = true) (member : inStack w stack = true) (listed : n ∈ g.nodes) (refers : Refers g w n) :
    n ∈ (filterGraphByStack g (some stack)).nodes ∧ Refers (filterGraphByStack g (some stack)) w n := by
  have keptW := (mem_scope_nodes unique named).mpr ⟨there, .workload runs member⟩
  have keptN := (mem_scope_nodes unique named).mpr ⟨listed, .referred w there runs member refers⟩
  refine ⟨keptN, ?_⟩
  rcases refers with network | ⟨e, edge, ⟨secondary, source, target⟩ | ⟨mount, target, source⟩⟩
  · exact .inl network
  · have keptE := (mem_scope_edges named).mpr ⟨edge, ⟨w, keptW, source.symm⟩, ⟨n, keptN, target.symm⟩⟩
    exact .inr ⟨e, keptE, .inl ⟨secondary, source, target⟩⟩
  · have keptE := (mem_scope_edges named).mpr ⟨edge, ⟨n, keptN, source.symm⟩, ⟨w, keptW, target.symm⟩⟩
    exact .inr ⟨e, keptE, .inr ⟨mount, target, source⟩⟩

theorem scope_sublist (g : Graph) (stack : Option String) :
    (filterGraphByStack g stack).nodes.Sublist g.nodes ∧ (filterGraphByStack g stack).edges.Sublist g.edges := by
  unfold filterGraphByStack
  split
  · exact ⟨.refl _, .refl _⟩
  · exact ⟨List.filter_sublist, List.filter_sublist⟩

theorem scope_scope (unique : (g.nodes.map DGNode.id).Nodup) (named : stack ≠ "") :
    filterGraphByStack (filterGraphByStack g (some stack)) (some stack) = filterGraphByStack g (some stack) := by
  have uniqueScope := ((scope_sublist g (some stack)).1.map DGNode.id).nodup unique
  -- what a workload of the stack refers to, it still refers to in the scope
  have kept (n : DGNode) (listed : n ∈ (filterGraphByStack g (some stack)).nodes) :
      n.id ∈ keptIn (filterGraphByStack g (some stack)) stack := by
    obtain ⟨there, scope⟩ := (mem_scope_nodes unique named).mp listed
    apply (mem_keptIn uniqueScope listed).mpr
    cases scope with
    | machine type => exact .machine type
    | workload runs member => exact .workload runs member
    | other nonempty idle member => exact .other nonempty idle member
    | referred w thereW runs member refers =>
      have keptW := (mem_scope_nodes unique named).mpr ⟨thereW, .workload runs member⟩
      exact .referred w keptW runs member (refers_scope unique named thereW runs member there refers).2
  have nodes : ((filterGraphByStack g (some stack)).nodes.filter fun n =>
      n.id ∈ keptIn (filterGraphByStack g (some stack)) stack) = (filterGraphByStack g (some stack)).nodes :=
    List.filter_eq_self.mpr fun n listed => decide_eq_true (kept n listed)
  have edges : ((filterGraphByStack g (some stack)).edges.filter fun e =>
      e.source ∈ idsOf (filterGraphByStack g (some stack)).nodes ∧
        e.target ∈ idsOf (filterGraphByStack g (some stack)).nodes) = (filterGraphByStack g (some stack)).edges := by
    refine List.filter_eq_self.mpr fun e listed => decide_eq_true ?_
    obtain ⟨-, source, target⟩ := (mem_scope_edges named).mp listed
    exact ⟨mem_idsOf.mpr source, mem_idsOf.mpr target⟩
  rw [scope_eq named, nodes, edges]

/-- A scope has the nodes and edges of the graph that it names, in their order. What its workloads refer to stays
referred to, and to scope it again changes nothing. -/
theorem filterGraphByStack_scope (unique : (g.nodes.map DGNode.id).Nodup) (named : stack ≠ "") :
    let scope := filterGraphByStack g (some stack)
    (scope.nodes.Sublist g.nodes ∧ ∀ n, n ∈ scope.nodes ↔ n ∈ g.nodes ∧ InScope g stack n) ∧
      (scope.edges.Sublist g.edges ∧ ∀ e, e ∈ scope.edges ↔
        e ∈ g.edges ∧ (∃ s ∈ scope.nodes, s.id = e.source) ∧ ∃ t ∈ scope.nodes, t.id = e.target) ∧
      (∀ w ∈ g.nodes, isWorkload w = true → inStack w stack = true → ∀ n ∈ g.nodes, Refers g w n →
        n ∈ scope.nodes ∧ Refers scope w n) ∧
      filterGraphByStack scope (some stack) = scope := by
  intro scope
  obtain ⟨nodes, edges⟩ := scope_sublist g (some stack)
  refine ⟨⟨nodes, fun n => mem_scope_nodes unique named⟩, ⟨edges, fun e => mem_scope_edges named⟩, ?_,
    scope_scope unique named⟩
  exact fun w there runs member n listed refers => refers_scope unique named there runs member listed refers

end Scope

/-- Two stacks, a network both use and a container of none. -/
def twoStacks : Graph where
  nodes :=
    [{ id := "service:shop_web", type := "service", name := "shop_web", stack := some "shop", status := some "running"
       networkId := some "network:proxy" },
      { id := "service:shop_db", type := "service", name := "shop_db", stack := some "shop" },
      { id := "service:blog_app", type := "service", name := "blog_app", stack := some "blog"
        networkId := some "network:proxy" },
      { id := "container:lone", type := "container", name := "lone", status := some "running" },
      { id := "network:proxy", type := "network", name := "proxy" },
      { id := "volume:data", type := "volume", name := "data" },
      { id := "swarmnode:m1", type := "swarmnode", name := "m1" }]
  edges := [{ id := "v", type := "volume_mount", source := "volume:data", target := "service:shop_db" },
    { id := "d", type := "depends_on", source := "service:shop_web", target := "service:shop_db" },
    { id := "s", type := "secondary_network", source := "service:blog_app", target := "network:proxy" }]

/-- The other stack and its edge go; what both use stays. -/
theorem filterGraphByStack_scope_shop :
    let scope := filterGraphByStack twoStacks (some "shop")
    (∀ n, n ∈ scope.nodes ↔ n ∈ twoStacks.nodes ∧ InScope twoStacks "shop" n) ∧
      scope.nodes.map DGNode.id = ["service:shop_web", "service:shop_db", "network:proxy", "volume:data", "swarmnode:m1"] ∧
      scope.edges.map DGEdge.id = ["v", "d"] ∧ filterGraphByStack scope (some "shop") = scope := by
  obtain ⟨⟨-, nodes⟩, -, -, again⟩ := @filterGraphByStack_scope twoStacks "shop" (by decide) (by decide)
  exact ⟨nodes, by decide, by decide, again⟩

/-! ## The stacks share out the workloads -/

/-- What is counted under a name. -/
def countedUnder (nodes : List DGNode) (name : String) : List DGNode :=
  nodes.filter fun n => isWorkload n ∧ stackOf n = name

/-- The summary of a stack. -/
def summary (nodes : List DGNode) (name : String) : StackSummary where
  name
  running := ((countedUnder nodes name).filter isRunning).length
  total := (countedUnder nodes name).length

/-- The summaries after a number of nodes: of the stacks that some workload is in. -/
def Counted (nodes : List DGNode) (groups : List StackSummary) : Prop :=
  ∃ names : List String, names.Nodup ∧ groups = names.map (summary nodes) ∧
    ∀ name, name ∈ names ↔ countedUnder nodes name ≠ []

section Counts

variable {nodes : List DGNode} {groups : List StackSummary} {n : DGNode} {name : String}

theorem countedUnder_other (other : isWorkload n = true → stackOf n ≠ name) :
    countedUnder (nodes ++ [n]) name = countedUnder nodes name := by
  have out : ¬(isWorkload n = true ∧ stackOf n = name) := fun both => other both.1 both.2
  rw [countedUnder, List.filter_append, List.filter_cons_of_neg (by simpa using out), List.filter_nil, List.append_nil]
  rfl

theorem countedUnder_same (runs : isWorkload n = true) :
    countedUnder (nodes ++ [n]) (stackOf n) = countedUnder nodes (stackOf n) ++ [n] := by
  rw [countedUnder, List.filter_append, List.filter_cons_of_pos (by simp [runs]), List.filter_nil]
  rfl

theorem summary_other (other : isWorkload n = true → stackOf n ≠ name) :
    summary (nodes ++ [n]) name = summary nodes name := by
  rw [summary, summary, countedUnder_other other]

theorem summary_same (runs : isWorkload n = true) :
    summary (nodes ++ [n]) (stackOf n) = (summary nodes (stackOf n)).count n := by
  rw [summary, countedUnder_same runs, StackSummary.count]
  by_cases running : isRunning n <;> simp [summary, running]

/-- One more node is counted where it belongs. -/
theorem Counted.step (counted : Counted nodes groups) (n : DGNode) :
    Counted (nodes ++ [n]) (countInStack groups n) := by
  obtain ⟨names, unique, rfl, listed⟩ := counted
  by_cases runs : isWorkload n = true
  · -- only the summary of the node's own stack changes
    have others {name : String} (differs : name ≠ stackOf n) : summary (nodes ++ [n]) name = summary nodes name :=
      summary_other fun _ => differs.symm
    have present : ((names.map (summary nodes)).any fun g => g.name = stackOf n) = true ↔ stackOf n ∈ names := by
      constructor
      · intro some
        obtain ⟨g, member, same⟩ := List.any_eq_true.mp some
        obtain ⟨name, there, rfl⟩ := List.mem_map.mp member
        exact of_decide_eq_true same ▸ there
      · exact fun there => List.any_eq_true.mpr ⟨_, List.mem_map_of_mem there, decide_eq_true rfl⟩
    rw [countInStack, if_neg (by simp [runs])]
    -- the stack has a group that counts one more, or gets one
    by_cases known : stackOf n ∈ names
    · rw [if_pos (present.mpr known)]
      refine ⟨names, unique, ?_, fun name => ?_⟩
      · rw [List.map_map]
        refine List.map_congr_left fun name _ => ?_
        by_cases here : name = stackOf n
        · subst here
          rw [summary_same runs]
          exact if_pos rfl
        · rw [others here]
          exact if_neg here
      · by_cases here : name = stackOf n
        · subst here
          simp [known, countedUnder_same runs]
        · rw [listed, countedUnder_other fun _ => Ne.symm here]
    · have uncounted : countedUnder nodes (stackOf n) = [] := not_not.mp (mt (listed _).mpr known)
      rw [if_neg (mt present.mp known)]
      refine ⟨names ++ [stackOf n], ?_, ?_, fun name => ?_⟩
      · exact List.nodup_append.mpr ⟨unique, List.nodup_singleton _, fun name there other only same =>
          known (List.mem_singleton.mp only ▸ same ▸ there)⟩
      · rw [List.map_append, List.map_singleton, summary_same runs]
        congr 1
        · refine List.map_congr_left fun name there => (others ?_).symm
          rintro rfl
          exact known there
        · rw [summary, uncounted]
          rfl
      · rw [List.mem_append, List.mem_singleton, listed]
        by_cases here : name = stackOf n
        · subst here
          simp [countedUnder_same runs]
        · rw [countedUnder_other fun _ => Ne.symm here]
          simp [here]
  · -- no other node is counted
    have other (name : String) : isWorkload n = true → stackOf n ≠ name := fun workload => absurd workload runs
    rw [countInStack, if_pos (by simpa using runs)]
    refine ⟨names, unique, List.map_congr_left fun name _ => (summary_other (other name)).symm, fun name => ?_⟩
    rw [countedUnder_other (other name), listed]

theorem counted_foldl (nodes : List DGNode) : Counted nodes (nodes.foldl countInStack []) := by
  induction nodes using List.reverseRecOn with
  | nil => exact ⟨[], .nil, rfl, by simp [countedUnder]⟩
  | append_singleton nodes n ih =>
    rw [List.foldl_concat]
    exact ih.step n

/-- A summary for each stack that some workload is in. -/
theorem listStacks_perm (localeCompare : String → String → Int) (nodes : List DGNode) :
    ∃ names : List String, names.Nodup ∧ (listStacks localeCompare nodes).Perm (names.map (summary nodes)) ∧
      ∀ name, name ∈ names ↔ countedUnder nodes name ≠ [] := by
  obtain ⟨names, unique, groups, listed⟩ := counted_foldl nodes
  exact ⟨names, unique, groups ▸ List.mergeSort_perm _ _, listed⟩

end Counts

/-- A graph whose workloads refer to networks and volumes, and are in no stack named like none. -/
structure Scopable (g : Graph) : Prop where
  unique : (g.nodes.map DGNode.id).Nodup
  shaped : ∀ e ∈ g.edges, Shaped g.nodes e
  networks : ∀ w ∈ g.nodes, ∀ n ∈ g.nodes, truthy w.networkId = some n.id → isWorkload n = false
  named : ∀ n ∈ g.nodes, projectOf n ≠ some STANDALONE_STACK

section Scopable

variable {g : Graph} {stack : String} {n : DGNode}

theorem projectOf_ne_empty : projectOf n ≠ some "" := by
  intro empty
  simp only [projectOf, Option.orElse_eq_orElse, Option.orElse_eq_or, Option.or_eq_some_iff, truthy_eq_some] at empty
  rcases empty with ⟨-, other⟩ | ⟨-, ⟨-, other⟩ | ⟨-, -, other⟩⟩ <;> exact other rfl

theorem stackOf_ne_empty : stackOf n ≠ "" := by
  rw [stackOf]
  cases project : projectOf n with
  | none => decide
  | some name =>
    rintro rfl
    exact projectOf_ne_empty project

theorem inStack_iff (named : projectOf n ≠ some STANDALONE_STACK) : inStack n stack = true ↔ stackOf n = stack := by
  by_cases standalone : stack = STANDALONE_STACK
  · subst standalone
    cases project : projectOf n with
    | none => simp [inStack, stackOf, project]
    | some name =>
      have other : name ≠ STANDALONE_STACK := fun same => named (same ▸ project)
      simp [inStack, stackOf, project, other]
  · cases project : projectOf n with
    | none => simp [inStack, stackOf, project, standalone, Ne.symm standalone]
    | some name => simp [inStack, stackOf, project, standalone]

/-- No workload is kept but the stack's own. -/
theorem mem_scope_workload (scopable : Scopable g) (there : n ∈ g.nodes)
    (runs : isWorkload n = true) : n.id ∈ keptIn g stack ↔ stackOf n = stack := by
  rw [mem_keptIn scopable.unique there, ← inStack_iff (scopable.named n there)]
  constructor
  · rintro (machine | ⟨-, member⟩ | ⟨-, idle, -⟩ | ⟨w, listed, workload, -, refers⟩)
    · simp [isWorkload, machine] at runs
    · exact member
    · rw [runs] at idle
      cases idle
    · have notNetwork : n.type ≠ "network" ∧ n.type ≠ "volume" := by
        constructor <;> intro type <;> simp [isWorkload, type] at runs
      -- by the shapes of edges only networks and volumes are referred to
      rcases refers with network | ⟨e, edge, ⟨secondary, source, target⟩ | ⟨mount, target, source⟩⟩
      · rw [scopable.networks w listed n there network] at runs
        cases runs
      · rcases scopable.shaped e edge w listed n there source.symm target.symm with ⟨type, -⟩ | ⟨-, -, type⟩ | ⟨type, -⟩
        · simp [secondary] at type
        · exact absurd type notNetwork.1
        · simp [secondary] at type
      · rcases scopable.shaped e edge n there w listed source.symm target.symm with ⟨-, type, -⟩ | ⟨type, -⟩ | ⟨type, -⟩
        · exact absurd type notNetwork.2
        · simp [mount] at type
        · simp [mount] at type
  · exact fun member => .workload runs member

theorem scope_workloads (scopable : Scopable g) (named : stack ≠ "") :
    (filterGraphByStack g (some stack)).nodes.filter isWorkload = countedUnder g.nodes stack := by
  simp only [scope_eq named, List.filter_filter, countedUnder]
  refine List.filter_congr fun n there => ?_
  by_cases runs : isWorkload n = true
  · simp [runs, mem_scope_workload scopable there runs]
  · simp [runs]

/-- A stack is listed with the workloads that its scope shows, and each workload is in the scope of one that is
listed. -/
theorem listStacks_scopes (scopable : Scopable g) (localeCompare : String → String → Int) :
    let summaries := listStacks localeCompare g.nodes
    (summaries.map StackSummary.name).Nodup ∧
      (∀ s ∈ summaries, let shown := (filterGraphByStack g (some s.name)).nodes.filter isWorkload
        shown ≠ [] ∧ s.total = shown.length ∧ s.running = (shown.filter isRunning).length) ∧
      ∀ n ∈ g.nodes, isWorkload n = true →
        ∃ s ∈ summaries, ∀ t ∈ summaries, n ∈ (filterGraphByStack g (some t.name)).nodes ↔ t = s := by
  intro summaries
  obtain ⟨names, unique, perm, listed⟩ := listStacks_perm localeCompare g.nodes
  have summarised : (names.map (summary g.nodes)).map StackSummary.name = names := by
    rw [List.map_map]
    exact List.map_id' names
  have filled {name : String} (there : name ∈ names) : name ≠ "" := by
    obtain ⟨n, counted⟩ := List.exists_mem_of_ne_nil _ ((listed name).mp there)
    have same := (of_decide_eq_true (List.mem_filter.mp counted).2).2
    exact same ▸ stackOf_ne_empty
  refine ⟨?_, fun s member => ?_, fun n there runs => ?_⟩
  · rwa [(perm.map StackSummary.name).nodup_iff, summarised]
  · obtain ⟨name, there, rfl⟩ := List.mem_map.mp (perm.mem_iff.mp member)
    have shown := scope_workloads scopable (filled there)
    intro kept
    rw [show kept = countedUnder g.nodes name from shown]
    exact ⟨(listed name).mp there, rfl, rfl⟩
  · have own : stackOf n ∈ names := by
      refine (listed _).mpr (List.ne_nil_of_mem (List.mem_filter.mpr ⟨there, ?_⟩))
      simp [runs]
    refine ⟨summary g.nodes (stackOf n), perm.mem_iff.mpr (List.mem_map_of_mem own), fun t member => ?_⟩
    obtain ⟨name, known, rfl⟩ := List.mem_map.mp (perm.mem_iff.mp member)
    change n ∈ (filterGraphByStack g (some name)).nodes ↔ _
    rw [scope_eq (filled known), List.mem_filter, decide_eq_true_eq, mem_scope_workload scopable there runs]
    constructor
    · rintro ⟨-, rfl⟩
      rfl
    · exact fun same => ⟨there, congrArg StackSummary.name same.symm⟩

end Scopable

theorem twoStacks_scopable : Scopable twoStacks where
  unique := by decide
  shaped := by
    unfold Shaped
    decide
  networks := by decide
  named := by decide

theorem listStacks_scopes_two :
    ((listStacks (Comparator.sign fun a b => a < b) twoStacks.nodes).map StackSummary.name).Nodup :=
  (listStacks_scopes twoStacks_scopable _).1

end Dockgraph.Frontend
