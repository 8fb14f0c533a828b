import Dockgraph.Frontend.Types
import Dockgraph.Library.Text
import Mathlib.Data.Rat.Defs

/-!
# Nodes and edges of React Flow (`types.ts`, `layout/elkGraph.ts`)

The canvas draws nodes of eight types. An empty string is as good as none where JavaScript tests for
one.
-/
namespace Dockgraph.Frontend

inductive NodeType
  | networkGroup
  | containerNode
  | serviceNode
  | volumeNode
  | roleGroup
  | nodeGroup
  | nodeServiceCard
  | controlSummary
  deriving DecidableEq

inductive SwarmRole
  | manager
  | worker
  deriving DecidableEq

/-- A swarm node box. -/
structure SwarmNodeGroupData where
  dgNode : DGNode
  taskCount : Nat
  role : Option SwarmRole := none
  unassigned : Bool := false
  deriving DecidableEq

/-- One service on one swarm node. -/
structure NodeServiceCardData where
  dgNode : DGNode
  serviceId : String
  serviceName : String
  stack : Option String := none
  mode : Option String := none
  tasks : List TaskInfo
  nodeInactive : Bool := false
  deriving DecidableEq

structure RoleGroupData where
  role : SwarmRole
  nodeCount : Nat
  taskCount : Nat
  deriving DecidableEq

structure ControlSummaryData where
  ready : Nat
  total : Nat
  healthy : Bool
  deriving DecidableEq

inductive NodeData
  | graphNode (dgNode : DGNode)
  | swarmNodeGroup (data : SwarmNodeGroupData)
  | nodeServiceCard (data : NodeServiceCardData)
  | roleGroup (data : RoleGroupData)
  | controlSummary (data : ControlSummaryData)
  deriving DecidableEq

structure Position where
  x : ℚ := 0
  y : ℚ := 0
  deriving DecidableEq

structure Size where
  width : ℚ
  height : ℚ
  deriving DecidableEq

/-- `style` is the node's size where one is set, `nodeWidth` the field of that name in its data. -/
structure RFNode where
  id : String
  type : NodeType
  parentId : Option String := none
  data : NodeData
  position : Position := {}
  style : Option Size := none
  nodeWidth : Option ℚ := none
  deriving DecidableEq

structure EdgeData where
  edgeType : String
  active : Bool
  animated : Bool
  nodeCount : Nat
  deriving DecidableEq

structure RFEdge where
  id : String
  source : String
  target : String
  data : Option EdgeData := none
  stroke : Option String := none
  deriving DecidableEq

def CONTAINER_NODE_HEIGHT : ℚ := 84

/-- A string that is set. -/
def truthy (s : Option String) : Option String := s.filter fun s => s ≠ ""

@[simp] theorem truthy_none : truthy none = none := rfl

theorem truthy_eq_some {s : Option String} {t : String} : truthy s = some t ↔ s = some t ∧ t ≠ "" := by
  rw [truthy, Option.filter_eq_some_iff, decide_eq_true_eq]

/-- The parent, as the code tests for one. -/
def RFNode.parent (n : RFNode) : Option String := truthy n.parentId

/-- The types that are rendered as containers of other nodes. -/
def isGroupType : NodeType → Bool
  | .networkGroup | .nodeGroup | .roleGroup => true
  | _ => false

/-! ## Lists of nodes -/

/-- The parent of every node is a group that stands before it. -/
def ParentsFirst (nodes : List RFNode) : Prop :=
  ∀ before n after, nodes = before ++ n :: after → ∀ p, n.parentId = some p →
    ∃ g ∈ before, g.id = p ∧ isGroupType g.type = true

/-- Nodes without parents. -/
theorem parentsFirst_of_free {nodes : List RFNode} (free : ∀ n ∈ nodes, n.parentId = none) : ParentsFirst nodes := by
  rintro before n after rfl p parent
  rw [free n (by simp)] at parent
  cases parent

/-- Nodes whose parents are among those before them. -/
theorem ParentsFirst.append {nodes more : List RFNode} (first : ParentsFirst nodes)
    (named : ∀ n ∈ more, ∀ p, n.parentId = some p → ∃ g ∈ nodes, g.id = p ∧ isGroupType g.type = true) :
    ParentsFirst (nodes ++ more) := by
  intro before n after split p parent
  rcases List.append_eq_append_iff.mp split with ⟨between, rfl, last⟩ | ⟨rest, front, back⟩
  · obtain ⟨g, member, same⟩ := named n (last ▸ by simp) p parent
    exact ⟨g, List.mem_append_left _ member, same⟩
  · cases rest with
    | nil =>
      rw [List.append_nil] at front
      obtain ⟨g, member, same⟩ := named n (by rw [List.nil_append] at back; rw [← back]; simp) p parent
      exact ⟨g, front ▸ member, same⟩
    | cons m rest =>
      obtain ⟨rfl, -⟩ := List.cons.inj back
      exact first before n rest front p parent

/-! ## The backend's IDs -/

/-- The types that the backend's IDs start with. -/
def idTypes : List String := ["container", "service", "network", "volume", "swarmnode"]

/-- The node's ID is of the form type:name. -/
def Typed (n : DGNode) : Prop := ∃ type ∈ idTypes, ∃ name, n.id = type ++ ":" ++ name

/-- An ID that starts with another word is none of the backend's. -/
theorem typed_ne {type name : String} (typed : type ∈ idTypes) (other rest : String) (foreign : other ∉ idTypes)
    (colonless : ':' ∉ other.toList) : type ++ ":" ++ name ≠ other ++ ":" ++ rest := by
  intro same
  have plain : ∀ t ∈ idTypes, ':' ∉ t.toList := by decide
  have chars : type.toList ++ ':' :: name.toList = other.toList ++ ':' :: rest.toList := by
    simpa using congrArg String.toList same
  have starts := (Text.split_at_first (plain type typed) colonless chars).1
  exact foreign (String.toList_inj.mp starts ▸ typed)

end Dockgraph.Frontend
