import Dockgraph.Collector.AgentLocate
import Dockgraph.Library.Agreement
import Mathlib.Data.List.TakeWhile

/-!
# Where a container is

The reports of the agents agree on the node of an ID or they do not, whatever the order in which
they came. The task list is read for one node as well, but no node and many are the same answer.
-/
namespace Dockgraph.Collector

open Agreement Keyed

/-! ## The reports -/

def ContainerSample.standalone (s : ContainerSample) : Bool :=
  s.id ≠ "" ∧ s.name ≠ "" ∧ s.taskID = ""

/-- Every standalone container with the node that reported it. -/
def standaloneReports (reports : List Report) : List (String × ContainerSample) :=
  reports.flatMap fun r => (r.samples.filter ContainerSample.standalone).map fun s => (r.nodeID, s)

theorem lookup_claim (claims : Claims) (key value k : String) :
    (claim claims key value).lookup k =
      merge "" (claims.lookup k) (if key = k then some value else none) := by
  -- only the claimed key changes
  by_cases here : key = k
  · subst here
    rw [if_pos rfl, claim]
    cases held : claims.lookup key with
    | none => rw [AList.lookup_insert, none_merge]
    | some claimed =>
      by_cases same : claimed = value
      · simp [merge, same]
      · simp [merge, same]
  · rw [if_neg here, merge_none, claim]
    have other : k ≠ key := Ne.symm here
    split
    · split <;> rw [AList.lookup_insert_ne other]
    · rw [AList.lookup_insert_ne other]

section Field

-- `owners` with the IDs, or `names` with the names.
variable {field : Reported → Claims} {key : ContainerSample → String}
  (add : ∀ nodeID r s, field (Reported.add nodeID r s) =
    if s.standalone then claim (field r) (key s) nodeID else field r)

include add

theorem field_foldl_add (nodeID : String) (samples : List ContainerSample) (r : Reported) :
    field (samples.foldl (Reported.add nodeID) r) =
      (samples.filter ContainerSample.standalone).foldl (fun c s => claim c (key s) nodeID) (field r) := by
  -- by samples; those of tasks leave the field as it is
  induction samples generalizing r with
  | nil => rfl
  | cons s samples ih =>
    rw [List.foldl_cons, ih, add]
    by_cases standalone : s.standalone = true
    · rw [if_pos standalone, List.filter_cons_of_pos standalone, List.foldl_cons]
    · rw [if_neg standalone, List.filter_cons_of_neg standalone]

theorem field_reported (reports : List Report) : field (reported reports) =
    (standaloneReports reports).foldl (fun c x => claim c (key x.2) x.1) (field {}) := by
  unfold reported
  generalize ({} : Reported) = r
  -- by reports, from whatever was claimed before
  induction reports generalizing r with
  | nil => rfl
  | cons report reports ih =>
    have parts : standaloneReports (report :: reports) =
        (report.samples.filter ContainerSample.standalone).map (fun s => (report.nodeID, s)) ++
          standaloneReports reports := rfl
    rw [List.foldl_cons, ih, field_foldl_add add, parts, List.foldl_append, List.foldl_map]

end Field

/-- A sample is a standalone container's, or it leaves the nodes' claims as they are. -/
theorem add_cases (nodeID : String) (r : Reported) (s : ContainerSample) :
    (s.standalone = true ∧ (r.add nodeID s).owners = claim r.owners s.id nodeID ∧
      (r.add nodeID s).names = claim r.names s.name nodeID) ∨
    (s.standalone = false ∧ (r.add nodeID s).owners = r.owners ∧ (r.add nodeID s).names = r.names) := by
  unfold Reported.add
  by_cases unnamed : s.id = "" ∨ s.name = ""
  · right
    rw [if_pos unnamed]
    exact ⟨decide_eq_false fun all => unnamed.elim all.1 all.2.1, rfl, rfl⟩
  · rw [if_neg unnamed]
    rw [not_or] at unnamed
    dsimp only
    by_cases standalone : s.taskID = ""
    · left
      rw [if_neg (not_not.mpr standalone)]
      exact ⟨decide_eq_true ⟨unnamed.1, unnamed.2, standalone⟩, rfl, rfl⟩
    · right
      rw [if_pos standalone]
      exact ⟨decide_eq_false fun all => standalone all.2.2, rfl, rfl⟩

theorem owners_add (nodeID : String) (r : Reported) (s : ContainerSample) :
    (r.add nodeID s).owners = if s.standalone then claim r.owners s.id nodeID else r.owners := by
  rcases add_cases nodeID r s with ⟨standalone, owners, -⟩ | ⟨other, owners, -⟩
  · rw [owners, if_pos standalone]
  · rw [owners, other, if_neg Bool.false_ne_true]

theorem names_add (nodeID : String) (r : Reported) (s : ContainerSample) :
    (r.add nodeID s).names = if s.standalone then claim r.names s.name nodeID else r.names := by
  rcases add_cases nodeID r s with ⟨standalone, -, names⟩ | ⟨other, -, names⟩
  · rw [names, if_pos standalone]
  · rw [names, other, if_neg Bool.false_ne_true]

/-- Keys with the values claimed for them, one after the other. -/
def claimAll (claims : Claims) (list : List (String × String)) : Claims :=
  list.foldl (fun c x => claim c x.1 x.2) claims

/-- A key's claim tells which values were claimed for it. -/
theorem speaks_claimAll (list : List (String × String)) (k : String) :
    Speaks "" ((claimAll ∅ list).lookup k) fun v => (k, v) ∈ list := by
  -- the claims under one key are merged in the order they came
  have fold (claims : Claims) : (claimAll claims list).lookup k =
      list.foldl (fun answer x => merge "" answer (if x.1 = k then some x.2 else none))
        (claims.lookup k) := by
    induction list generalizing claims with
    | nil => rfl
    | cons x list ih =>
      have step := ih (claim claims x.1 x.2)
      rw [lookup_claim] at step
      exact step
  have each : ∀ x ∈ list, Speaks "" (if x.1 = k then some x.2 else none)
      fun v => x.1 = k ∧ x.2 = v := by
    intro x _
    by_cases here : x.1 = k
    · rw [if_pos here]
      exact speaks_some.congr fun v => by simp [here, eq_comm]
    · rw [if_neg here]
      exact speaks_none fun v both => here both.1
  rw [fold]
  refine ((speaks_none fun _ => not_false).foldl each).congr fun v => ?_
  rw [false_or]
  constructor
  · rintro ⟨⟨_, _⟩, member, rfl, rfl⟩
    exact member
  · intro member
    exact ⟨(k, v), member, rfl, rfl⟩

theorem speaks_claims (key : ContainerSample → String) (found : List (String × ContainerSample))
    (k : String) :
    Speaks "" ((found.foldl (fun c x => claim c (key x.2) x.1) ∅).lookup k)
      fun n => ∃ x ∈ found, key x.2 = k ∧ x.1 = n := by
  have speaks := speaks_claimAll (found.map fun x => (key x.2, x.1)) k
  rw [claimAll, List.foldl_map] at speaks
  exact speaks.congr fun n => by simp

theorem speaks_owners (reports : List Report) (id : String) :
    Speaks "" ((reported reports).owners.lookup id)
      fun n => ∃ x ∈ standaloneReports reports, x.2.id = id ∧ x.1 = n := by
  rw [@field_reported Reported.owners _ owners_add]
  exact speaks_claims ContainerSample.id (standaloneReports reports) id

theorem speaks_names (reports : List Report) (name : String) :
    Speaks "" ((reported reports).names.lookup name)
      fun n => ∃ x ∈ standaloneReports reports, x.2.name = name ∧ x.1 = n := by
  rw [@field_reported Reported.names _ names_add]
  exact speaks_claims ContainerSample.name (standaloneReports reports) name

/-! ## Matches of an ID -/

theorem uniquePrefixMatch_loop (id : String) (entries : List ((_ : String) × String))
    (value : Option String) :
    uniquePrefixMatch.loop id entries value = entries.foldl
      (fun answer e => merge "" answer (if hasPrefix e.1 id then some e.2 else none)) value := by
  -- by the entries, with what was found so far
  induction entries generalizing value with
  | nil => rfl
  | cons e entries ih =>
    obtain ⟨key, v⟩ := e
    rw [List.foldl_cons, uniquePrefixMatch.loop.eq_def]
    dsimp only
    by_cases fits : hasPrefix key id = true
    · simp only [fits, Bool.not_true, Bool.false_eq_true, if_false, if_true]
      cases value with
      | none => exact ih (some v)
      | some found =>
        dsimp only
        by_cases other : v = found
        · subst other
          rw [if_neg (not_not.mpr rfl), ih]
          simp [merge]
        · -- the loop returns here
          have conflict : merge "" (some found) (some v) = some "" := by
            simp [merge, Ne.symm other]
          rw [if_pos other, conflict, foldl_conflict]
    · simp only [fits, Bool.not_false, if_true, Bool.false_eq_true, if_false, merge_none]
      exact ih value

theorem speaks_prefixMatch (ord : RangeOrder) (reports : List Report) {id : String}
    (possible : maybeContainerID id = true) :
    Speaks "" (uniquePrefixMatch ord (reported reports).owners id)
      fun n => ∃ x ∈ standaloneReports reports, hasPrefix x.2.id id = true ∧ x.1 = n := by
  have each : ∀ e ∈ ord.visit (reported reports).owners.entries,
      Speaks "" (if hasPrefix e.1 id then some e.2 else none) fun n =>
        hasPrefix e.1 id = true ∧ ∃ x ∈ standaloneReports reports, x.2.id = e.1 ∧ x.1 = n := by
    intro e member
    by_cases fits : hasPrefix e.1 id = true
    · rw [if_pos fits]
      have held := AList.mem_lookup_iff.mpr ((ord.mem_visit _ e).mp member)
      have speaks := speaks_owners reports e.1
      rw [held] at speaks
      exact speaks.congr fun n => (and_iff_right fits).symm
    · rw [if_neg fits]
      exact speaks_none fun n both => fits both.1
  rw [uniquePrefixMatch, possible, Bool.not_true, if_neg Bool.false_ne_true, uniquePrefixMatch_loop]
  refine ((speaks_none fun _ => not_false).foldl each).congr fun n => ?_
  rw [false_or]
  constructor
  · rintro ⟨e, -, fits, x, listed, same, node⟩
    exact ⟨x, listed, same ▸ fits, node⟩
  · rintro ⟨x, listed, fits, node⟩
    have some := mt (speaks_owners reports x.2.id).none_iff.mp fun silent =>
      silent x.1 ⟨x, listed, rfl, rfl⟩
    obtain ⟨v, held⟩ := Option.ne_none_iff_exists'.mp some
    exact ⟨⟨x.2.id, v⟩, (ord.mem_visit _ _).mpr (AList.mem_lookup_iff.mp held), fits, x, listed, rfl, node⟩

/-- The sample is of the container that the ID, name or ID prefix names. -/
def ContainerSample.matches (id : String) (s : ContainerSample) : Prop :=
  s.id = id ∨ s.name = id ∨ hasPrefix s.id id = true

/-- A node reported a standalone container of that ID. -/
def NamedByReport (reports : List Report) (id nodeID : String) : Prop :=
  ∃ x ∈ standaloneReports reports, x.2.matches id ∧ x.1 = nodeID

theorem namedByReport_ne {reports : List Report} {id nodeID : String}
    (named : NamedByReport reports id nodeID) : nodeID ≠ "" := by
  obtain ⟨x, listed, -, rfl⟩ := named
  obtain ⟨r, -, sampled⟩ := List.mem_flatMap.mp listed
  obtain ⟨s, -, rfl⟩ := List.mem_map.mp sampled
  exact r.known

theorem standaloneClaims_eq (p : AgentPool) (ord : RangeOrder) (id : String) :
    p.standaloneClaims ord id = merge "" (merge "" (p.owners.lookup id) (p.names.lookup id))
      (uniquePrefixMatch ord p.owners id) := by
  have combined : p.standaloneClaims ord id =
      ([p.owners.lookup id, p.names.lookup id, uniquePrefixMatch ord p.owners id].filterMap fun v => v).foldl
        (fun answer a => merge "" answer (some a)) none := by
    unfold AgentPool.standaloneClaims
    dsimp only
    split
    next none => rw [none, List.foldl_nil]
    next first rest found => rw [found, List.foldl_cons, merge, foldl_merge_some]
  rw [combined, List.foldl_filterMap]
  cases p.owners.lookup id <;> cases p.names.lookup id <;> cases uniquePrefixMatch ord p.owners id <;> rfl

/-- The standalone claims are those of all matching reports at once. -/
theorem speaks_standaloneClaims (p : AgentPool) (ord : RangeOrder) (reports : List Report) {id : String}
    (possible : maybeContainerID id = true) :
    Speaks "" ((p.poll reports).standaloneClaims ord id) (NamedByReport reports id) := by
  rw [standaloneClaims_eq]
  refine ((((speaks_owners reports id).merge (speaks_names reports id)).merge
    (speaks_prefixMatch ord reports possible))).congr fun n => ?_
  simp only [NamedByReport, ContainerSample.matches]
  constructor
  · rintro ((⟨x, listed, same, node⟩ | ⟨x, listed, same, node⟩) | ⟨x, listed, fits, node⟩)
    · exact ⟨x, listed, .inl same, node⟩
    · exact ⟨x, listed, .inr (.inl same), node⟩
    · exact ⟨x, listed, .inr (.inr fits), node⟩
  · rintro ⟨x, listed, same | same | fits, node⟩
    · exact .inl (.inl ⟨x, listed, same, node⟩)
    · exact .inl (.inr ⟨x, listed, same, node⟩)
    · exact .inr ⟨x, listed, fits, node⟩

/-! ## The task list -/

/-- The nodes of the tasks with the container, from the first task that has a node on. -/
def taskNodes (tasks : List Task) (id : String) : List String :=
  ((tasks.filter fun t => AgentPool.claims id t).map Task.nodeID).dropWhile fun n => n = ""

/-- A task on the node claims the container. -/
def NamedByTask (tasks : List Task) (id nodeID : String) : Prop :=
  nodeID ≠ "" ∧ ∃ t ∈ tasks, AgentPool.claims id t = true ∧ t.nodeID = nodeID

theorem ownerFromTasks_loop_named {taskID id owner : String} (named : owner ≠ "") {tasks : List Task}
    (container : ∀ t ∈ tasks, t.id ≠ taskID) :
    AgentPool.ownerFromTasks.loop taskID id tasks owner =
      if ((tasks.filter fun t => AgentPool.claims id t).map Task.nodeID).any fun n => n ≠ owner then ""
      else owner := by
  -- by tasks, once one of them has named a node
  induction tasks with
  | nil => rfl
  | cons t tasks ih =>
    rw [List.forall_mem_cons] at container
    rw [AgentPool.ownerFromTasks.loop, if_neg container.1]
    by_cases claims : AgentPool.claims id t = true
    · rw [if_pos claims, List.filter_cons_of_pos claims, List.map_cons, List.any_cons]
      by_cases same : owner = t.nodeID
      · rw [if_neg fun differs => differs.2 same, ← same, ih container.2]
        simp
      · have differs : decide (t.nodeID ≠ owner) = true := decide_eq_true (Ne.symm same)
        rw [if_pos ⟨named, same⟩, differs, Bool.true_or, if_pos rfl]
    · rw [if_neg claims, List.filter_cons_of_neg claims, ih container.2]

theorem ownerFromTasks_loop {taskID id : String} {tasks : List Task} (container : ∀ t ∈ tasks, t.id ≠ taskID) :
    AgentPool.ownerFromTasks.loop taskID id tasks "" =
      match taskNodes tasks id with
      | [] => ""
      | first :: rest => if rest.any fun n => n ≠ first then "" else first := by
  -- tasks without a node are passed by until one has it
  induction tasks with
  | nil => rfl
  | cons t tasks ih =>
    rw [List.forall_mem_cons] at container
    rw [AgentPool.ownerFromTasks.loop, if_neg container.1]
    by_cases claims : AgentPool.claims id t = true
    · rw [if_pos claims, if_neg fun differs => differs.1 rfl, taskNodes,
        List.filter_cons_of_pos claims, List.map_cons]
      by_cases placed : t.nodeID = ""
      · have skipped (nodes : List String) :
            (t.nodeID :: nodes).dropWhile (fun n => n = "") = nodes.dropWhile fun n => n = "" :=
          List.dropWhile_cons_of_pos (decide_eq_true placed)
        rw [skipped, placed, ih container.2, taskNodes]
      · have kept (nodes : List String) :
            (t.nodeID :: nodes).dropWhile (fun n => n = "") = t.nodeID :: nodes :=
          List.dropWhile_cons_of_neg (by simpa using placed)
        rw [kept, ownerFromTasks_loop_named placed container.2]
    · rw [if_neg claims, ih container.2, taskNodes, taskNodes, List.filter_cons_of_neg claims]

theorem namedByTask_iff {tasks : List Task} {id n : String} :
    NamedByTask tasks id n ↔ n ≠ "" ∧ n ∈ taskNodes tasks id := by
  let nodes := (tasks.filter fun t => AgentPool.claims id t).map Task.nodeID
  have all : n ∈ nodes ↔ ∃ t ∈ tasks, AgentPool.claims id t = true ∧ t.nodeID = n := by
    simp [nodes, and_assoc]
  have parts : nodes = nodes.takeWhile (fun m => m = "") ++ taskNodes tasks id :=
    List.takeWhile_append_dropWhile.symm
  refine and_congr_right fun proper => all.symm.trans ?_
  rw [parts, List.mem_append, or_iff_right]
  intro skipped
  have empty := List.mem_takeWhile_imp (p := fun m => decide (m = "")) skipped
  exact proper (of_decide_eq_true empty)

/-- Two matching tasks have different nodes. Where one has none yet, it counts once a task before
it has one. -/
def TasksDisagree (tasks : List Task) (id : String) : Prop :=
  ∃ m ∈ taskNodes tasks id, ∃ n ∈ taskNodes tasks id, m ≠ n

/-- No node and many are told alike. -/
theorem ownerFromTasks_cases {taskID id : String} {tasks : List Task}
    (container : ∀ t ∈ tasks, t.id ≠ taskID) :
    (AgentPool.ownerFromTasks.loop taskID id tasks "" = "" ∧
      (TasksDisagree tasks id ∨ ∀ n, ¬NamedByTask tasks id n)) ∨
    (AgentPool.ownerFromTasks.loop taskID id tasks "" ≠ "" ∧ ¬TasksDisagree tasks id ∧
      ∀ n, NamedByTask tasks id n ↔ n = AgentPool.ownerFromTasks.loop taskID id tasks "") := by
  have named (n : String) : NamedByTask tasks id n ↔ n ≠ "" ∧ n ∈ taskNodes tasks id := namedByTask_iff
  have proper : ∀ first rest, taskNodes tasks id = first :: rest → first ≠ "" := by
    intro first rest nodes
    have head := List.head?_dropWhile_not (fun n => decide (n = ""))
      ((tasks.filter fun t => AgentPool.claims id t).map Task.nodeID)
    rw [taskNodes] at nodes
    rw [nodes] at head
    exact of_decide_eq_false head
  rw [ownerFromTasks_loop container]
  unfold TasksDisagree
  simp only [named]
  -- no node, or a first one that the others repeat or contradict
  cases nodes : taskNodes tasks id with
  | nil => exact .inl ⟨rfl, .inr fun n both => List.not_mem_nil both.2⟩
  | cons first rest =>
    have first_ne := proper first rest nodes
    dsimp only
    by_cases differs : rest.any (fun n => n ≠ first) = true
    · left
      rw [if_pos differs]
      obtain ⟨n, member, other⟩ := List.any_eq_true.mp differs
      exact ⟨rfl, .inl ⟨n, List.mem_cons_of_mem _ member, first, List.mem_cons_self,
        of_decide_eq_true other⟩⟩
    · right
      rw [if_neg differs]
      have same : ∀ n ∈ first :: rest, n = first := by
        intro n member
        rcases List.mem_cons.mp member with rfl | later
        · rfl
        · by_contra other
          exact differs (List.any_eq_true.mpr ⟨n, later, decide_eq_true other⟩)
      refine ⟨first_ne, ?_, fun n => ⟨fun both => same n both.2, ?_⟩⟩
      · rintro ⟨m, left, n, right, other⟩
        exact other ((same m left).trans (same n right).symm)
      · rintro rfl
        exact ⟨first_ne, List.mem_cons_self⟩

/-! ## Locating -/

theorem taskIDOfName_containerID {id : String} (possible : maybeContainerID id = true) :
    taskIDOfName id = id := by
  have digits := (of_decide_eq_true possible).2.2
  have plain : id.toList.reverse.takeWhile (fun c => c ≠ '.') = id.toList.reverse := by
    refine List.takeWhile_eq_self_iff.mpr fun c member => decide_eq_true ?_
    rintro rfl
    exact absurd (List.all_eq_true.mp digits '.' (List.mem_reverse.mp member)) (by decide)
  rw [taskIDOfName, plain, List.reverse_reverse, String.ofList_toList]

theorem agentURL_eq_some {p : AgentPool} {nodeID url : String} :
    p.agentURL nodeID = some url ↔ nodeID ≠ "" ∧ nodeID ≠ p.cfg.localNodeID ∧
      ∃ a, p.agents.lookup nodeID = some a ∧ url = "http://" ++ a.addr := by
  unfold AgentPool.agentURL
  by_cases skipped : nodeID = "" ∨ nodeID = p.cfg.localNodeID
  · rw [if_pos skipped]
    exact ⟨nofun, fun all => (skipped.elim all.1 all.2.1).elim⟩
  · rw [if_neg skipped, Option.map_eq_some_iff]
    rw [not_or] at skipped
    simp only [ne_eq, skipped, not_false_eq_true, true_and, eq_comm (a := url)]

section Locate

variable (p : AgentPool) (tasks : List Task) (reports : List Report) (id : String)

/-- The node is named by a task or by a report. -/
def Named (nodeID : String) : Prop := NamedByTask tasks id nodeID ∨ NamedByReport reports id nodeID

/-- Nodes that contradict each other locate nothing; what is located is with the agent of the one
node that is named. -/
structure Unambiguous (located : Option String) : Prop where
  contested : (∃ m n, Named tasks reports id m ∧ Named tasks reports id n ∧ m ≠ n) → located = none
  only : ∀ url, located = some url → ∃ nodeID agent, (∀ n, Named tasks reports id n ↔ n = nodeID) ∧
    p.agents.lookup nodeID = some agent ∧ url = "http://" ++ agent.addr

/-- The tasks contradict each other and the reports do not: they name one node, which has an agent
and is not the only one the tasks name. -/
def Overlooked : Prop :=
  TasksDisagree tasks id ∧ ∃ nodeID, (∀ n, NamedByReport reports id n ↔ n = nodeID) ∧
    (∃ n, NamedByTask tasks id n ∧ n ≠ nodeID) ∧ nodeID ≠ p.cfg.localNodeID ∧ nodeID ∈ p.agents

variable {p tasks reports id}

/-- The lookup of what may be a container ID, as its two sources of claims decide it. -/
theorem locateContainer_eq (ord : RangeOrder) (placed : Option (List Task)) (set : p.cfg.tasks = true)
    (possible : maybeContainerID id = true) :
    ((p.poll reports).locateContainer ord placed (some tasks) id).1 =
      let owner := AgentPool.ownerFromTasks.loop id id tasks ""
      let standalone := (p.poll reports).standaloneClaims ord id
      if owner ≠ "" ∧ (standalone.any fun s => s ≠ owner) = true then none
      else if owner = "" then p.agentURL (standalone.getD "") else p.agentURL owner := by
  have long : id ≠ "" := by
    rintro rfl
    exact absurd possible (by decide)
  have owner : (p.poll reports).ownerFromTasks (some tasks) id =
      some (AgentPool.ownerFromTasks.loop id id tasks "") := by
    have same : (p.poll reports).cfg.tasks = true := set
    rw [AgentPool.ownerFromTasks, same, Bool.not_true, if_neg Bool.false_ne_true,
      taskIDOfName_containerID possible, if_neg long, Option.map_some]
  -- a container ID skips the lookup by task
  unfold AgentPool.locateContainer
  simp only [possible, Bool.not_true, Bool.false_eq_true, if_false, owner, true_and]
  split
  · rfl
  · split <;> rfl

section Sources

variable {owner : String} {standalone : Option String}
  (cases : (owner = "" ∧ (TasksDisagree tasks id ∨ ∀ n, ¬NamedByTask tasks id n)) ∨
    (owner ≠ "" ∧ ¬TasksDisagree tasks id ∧ ∀ n, NamedByTask tasks id n ↔ n = owner))
  (speaks : Speaks "" standalone (NamedByReport reports id))
include cases speaks

/-- What is overlooked: the node of the reports is returned although another is named. -/
theorem overlooked_located (overlooked : Overlooked p tasks reports id) :
    owner = "" ∧ ∃ n url, Named tasks reports id n ∧ Named tasks reports id (standalone.getD "") ∧
      n ≠ standalone.getD "" ∧ p.agentURL (standalone.getD "") = some url := by
  obtain ⟨disagree, nodeID, reported, ⟨n, task, other⟩, remote, agent⟩ := overlooked
  have empty : owner = "" := by
    rcases cases with ⟨empty, -⟩ | ⟨-, agree, -⟩
    · exact empty
    · exact absurd disagree agree
  have report := (reported nodeID).mpr rfl
  have proper := namedByReport_ne report
  obtain ⟨a, held⟩ := Keyed.mem_iff_lookup.mp agent
  rw [(speaks.some_iff nodeID proper).mpr reported, Option.getD_some]
  exact ⟨empty, n, _, .inl task, .inr report, other, agentURL_eq_some.mpr ⟨proper, remote, a, held, rfl⟩⟩

/-- Where the tasks name nobody, the reports alone place it. -/
theorem only_reported (spared : ¬Overlooked p tasks reports id) (empty : owner = "") {url : String}
    (located : p.agentURL (standalone.getD "") = some url) :
    ∃ nodeID agent, (∀ n, Named tasks reports id n ↔ n = nodeID) ∧
      p.agents.lookup nodeID = some agent ∧ url = "http://" ++ agent.addr := by
  obtain ⟨proper, remote, a, held, rfl⟩ := agentURL_eq_some.mp located
  cases standalone with
  | none => exact absurd rfl proper
  | some nodeID =>
    rw [Option.getD_some] at proper remote held
    have reported := (speaks.some_iff nodeID proper).mp rfl
    refine ⟨nodeID, a, fun n => ⟨?_, fun here => .inr ((reported n).mpr here)⟩, held, rfl⟩
    rintro (task | report)
    · by_contra other
      rcases cases with ⟨-, disagree | silent⟩ | ⟨named, -⟩
      · exact spared ⟨disagree, nodeID, reported, ⟨n, task, other⟩, remote,
          AList.lookup_isSome.mp (by rw [held]; rfl)⟩
      · exact silent n task
      · exact named empty
    · exact (reported n).mp report

/-- Where the tasks place it, no report says otherwise. -/
theorem only_tasked (proper : owner ≠ "") (agreed : ¬(standalone.any fun s => s ≠ owner) = true) {url : String}
    (located : p.agentURL owner = some url) :
    ∃ nodeID agent, (∀ n, Named tasks reports id n ↔ n = nodeID) ∧
      p.agents.lookup nodeID = some agent ∧ url = "http://" ++ agent.addr := by
  rcases cases with ⟨none, -⟩ | ⟨-, -, tasked⟩
  · exact absurd none proper
  obtain ⟨-, -, a, held, rfl⟩ := agentURL_eq_some.mp located
  refine ⟨owner, a, fun n => ⟨?_, fun here => .inl ((tasked n).mpr here)⟩, held, rfl⟩
  rintro (task | report)
  · exact (tasked n).mp task
  · cases standalone with
    | none => exact absurd report (speaks.none_iff.mp rfl n)
    | some nodeID =>
      have same : nodeID = owner := by
        by_contra other
        exact agreed (decide_eq_true other)
      subst same
      exact (((speaks.some_iff nodeID proper).mp rfl) n).mp report

end Sources

/-- What is located with one node only is none of two. -/
theorem unambiguous_of_only {located : Option String} (only : ∀ url, located = some url → ∃ nodeID agent,
      (∀ n, Named tasks reports id n ↔ n = nodeID) ∧ p.agents.lookup nodeID = some agent ∧
        url = "http://" ++ agent.addr) :
    Unambiguous p tasks reports id located where
  contested := by
    rintro ⟨m, n, left, right, other⟩
    by_contra found
    obtain ⟨url, found⟩ := Option.ne_none_iff_exists'.mp found
    obtain ⟨nodeID, -, named, -⟩ := only url found
    exact other (((named m).mp left).trans ((named n).mp right).symm)
  only := only

theorem locateContainer_unambiguous_iff (p : AgentPool) (set : p.cfg.tasks = true) (ord : RangeOrder)
    (reports : List Report) (placed : Option (List Task)) (tasks : List Task) (id : String)
    (possible : maybeContainerID id = true) (container : ∀ t ∈ tasks, t.id ≠ id) :
    Unambiguous p tasks reports id
        ((p.poll reports).locateContainer ord placed (some tasks) id).1 ↔
      ¬Overlooked p tasks reports id := by
  have speaks := speaks_standaloneClaims p ord reports possible
  have cases := @ownerFromTasks_cases id id tasks container
  rw [locateContainer_eq ord placed set possible]
  generalize AgentPool.ownerFromTasks.loop id id tasks "" = owner at cases
  generalize (p.poll reports).standaloneClaims ord id = standalone at speaks
  dsimp only
  constructor
  · intro unambiguous overlooked
    obtain ⟨empty, n, url, named, named', other, located⟩ := overlooked_located cases speaks overlooked
    have contested := unambiguous.contested ⟨n, _, named, named', other⟩
    rw [if_neg fun both => both.1 empty, if_pos empty, located] at contested
    cases contested
  · intro spared
    refine unambiguous_of_only fun url located => ?_
    by_cases empty : owner = ""
    · rw [if_neg fun both => both.1 empty, if_pos empty] at located
      exact only_reported cases speaks spared empty located
    · by_cases contradicted : standalone.any (fun s => s ≠ owner) = true
      · rw [if_pos ⟨empty, contradicted⟩] at located
        cases located
      · rw [if_neg fun both => contradicted both.2, if_neg empty] at located
        exact only_tasked cases speaks empty contradicted located

end Locate

def webID : String := "5b5b5b5b5b5b"

def webTask (id nodeID : String) : Task := { id, nodeID, containerID := webID }

/-- An agent on a third node. -/
def agentPool : AgentPool :=
  { newAgentPool {} with
    agents := (∅ : AList fun _ : String => AgentEndpoint).insert "node-c" ⟨"10.0.0.3:7800", "c"⟩ }

/-- The third node reports the container as a standalone one. -/
def webReport : Report where
  nodeID := "node-c"
  samples := [{ id := webID, name := "web" }]
  known := by decide

/-- A task's container that another node reports as its own is not located. -/
theorem locateContainer_task :
    ((agentPool.poll [webReport]).locateContainer RangeOrder.asWritten none
      (some [webTask "t1" "node-a"]) webID).1 = none := by
  have spared : ¬Overlooked agentPool [webTask "t1" "node-a"] [webReport] webID := by
    intro overlooked
    obtain ⟨m, left, n, right, other⟩ := overlooked.1
    have nodes : taskNodes [webTask "t1" "node-a"] webID = ["node-a"] := by decide
    rw [nodes, List.mem_singleton] at left right
    exact other (left.trans right.symm)
  have unambiguous := (locateContainer_unambiguous_iff agentPool rfl RangeOrder.asWritten [webReport] none
    [webTask "t1" "node-a"] webID (by decide) (by decide)).mpr spared
  have tasked : NamedByTask [webTask "t1" "node-a"] webID "node-a" :=
    ⟨by decide, webTask "t1" "node-a", by simp, by decide, rfl⟩
  have reported : Named [webTask "t1" "node-a"] [webReport] webID "node-c" :=
    .inr ⟨("node-c", { id := webID, name := "web" }), List.mem_singleton_self _, .inl rfl, rfl⟩
  exact unambiguous.contested ⟨"node-a", "node-c", .inl tasked, reported, by decide⟩

/-- Two nodes claim the container for their tasks, and a third one gets it. -/
theorem contested_located :
    ¬∀ p : AgentPool, p.cfg.tasks = true → ∀ (ord : RangeOrder) (reports : List Report)
      (placed : Option (List Task)) (tasks : List Task) (id : String), maybeContainerID id = true →
        (∀ t ∈ tasks, t.id ≠ id) →
          Unambiguous p tasks reports id
            ((p.poll reports).locateContainer ord placed (some tasks) id).1 := by
  intro all
  have unambiguous := all agentPool rfl RangeOrder.asWritten [webReport] none
    [webTask "t1" "node-a", webTask "t2" "node-b"] webID (by decide) (by decide)
  have first : NamedByTask [webTask "t1" "node-a", webTask "t2" "node-b"] webID "node-a" :=
    ⟨by decide, webTask "t1" "node-a", by simp, by decide, rfl⟩
  have second : NamedByTask [webTask "t1" "node-a", webTask "t2" "node-b"] webID "node-b" :=
    ⟨by decide, webTask "t2" "node-b", by simp, by decide, rfl⟩
  exact absurd (unambiguous.contested ⟨_, _, .inl first, .inl second, by decide⟩) (by decide)

end Dockgraph.Collector
