import Dockgraph.Frontend.ElkGraph

/-!
# The layout graph loses nothing

Every node and every edge is in the graph once: in its group, or in the component that its top-level node
is in.
-/
namespace Dockgraph.Frontend

open Components Forest Keyed Relation
open scoped List

/-! ## What the graph has to hold -/

/-- The top-level node that a node is in or is. -/
def RFNode.top (n : RFNode) : String := n.parentId.getD n.id

/-- An edge leads from what is in or is the one top-level node to what is in or is the other. -/
def Links (nodes : List RFNode) (edges : List RFEdge) (a b : String) : Prop :=
  ∃ e ∈ edges, ∃ m ∈ nodes, ∃ n ∈ nodes, m.id = e.source ∧ n.id = e.target ∧ m.top = a ∧ n.top = b

/-- Nodes in groups that are in no group, and edges among them. -/
structure GroupedFlow (nodes : List RFNode) (edges : List RFEdge) : Prop where
  nodeIds : (nodes.map RFNode.id).Nodup
  edgeIds : (edges.map RFEdge.id).Nodup
  parents : ∀ n ∈ nodes, ∀ p, n.parentId = some p → ∃ g ∈ nodes, g.id = p ∧ isGroupType g.type = true ∧ g.parentId = none
  ends : ∀ e ∈ edges, (∃ m ∈ nodes, m.id = e.source) ∧ ∃ n ∈ nodes, n.id = e.target

/-- No group is in a group, and every node has a name. -/
structure FlatFlow (nodes : List RFNode) (edges : List RFEdge) : Prop extends GroupedFlow nodes edges where
  flat : ∀ n ∈ nodes, isGroupType n.type = true → n.parentId = none
  named : ∀ n ∈ nodes, n.id ≠ ""

/-- A partition of the top-level nodes by the edges. -/
structure LinkedComponents (nodes : List RFNode) (edges : List RFEdge) (components : List (List String)) : Prop where
  perm : components.flatten.Perm ((nodes.filter fun n => n.parentId = none).map RFNode.id)
  nonempty : ∀ c ∈ components, c ≠ []
  linked : ∀ c ∈ components, ∀ a ∈ c, ∀ b, b ∈ c ↔ EqvGen (Links nodes edges) a b

/-- The nodes that a top-level node puts into the graph, with the group each is in. -/
def ElkNode.nodes (n : ElkNode) : List (String × Option String) :=
  (n.id, none) :: (n.children.filter fun c => c ≠ placeholder n.id).map fun c => (c.id, some n.id)

def ElkRoot.children : ElkRoot → List ElkNode
  | .node n => [n]
  | .wrapper _ children _ => children

/-- The edges of the wrapper. -/
def ElkRoot.edges : ElkRoot → List ElkEdge
  | .node _ => []
  | .wrapper _ _ edges => edges

/-- Every component has its place, every node is in the graph once, where it belongs, and every edge once, at the group
that both ends are in or else at the wrapper of its component. -/
structure Conserves (nodes : List RFNode) (edges : List RFEdge) (components : List (List String))
    (graph : List ElkRoot) : Prop where
  tops : graph.map (fun root => root.children.map ElkNode.id) = components
  placed : (graph.flatMap fun root => root.children.flatMap ElkNode.nodes).Perm (nodes.map fun n => (n.id, n.parentId))
  drawn : (graph.flatMap fun root => root.children.flatMap ElkNode.edges ++ root.edges).Perm (edges.map elkEdge)
  grouped : ∀ root ∈ graph, ∀ g ∈ root.children, ∀ e ∈ g.edges, ∃ m ∈ nodes, ∃ n ∈ nodes,
    m.id = e.source ∧ n.id = e.target ∧ m.parentId = some g.id ∧ n.parentId = some g.id
  wrapped : ∀ root ∈ graph, ∀ e ∈ root.edges, ∃ m ∈ nodes, ∃ n ∈ nodes,
    m.id = e.source ∧ n.id = e.target ∧ m.top ∈ root.children.map ElkNode.id ∧
      n.top ∈ root.children.map ElkNode.id ∧ ∀ g, ¬(m.parentId = some g ∧ n.parentId = some g)

variable {nodes : List RFNode} {edges : List RFEdge} {n : RFNode} {a b id : String}

/-! ## Parents and top-level nodes -/

/-- The parent that is written for a child. -/
theorem lookup_childToParent (unique : (nodes.map RFNode.id).Nodup) (member : n ∈ nodes) :
    (classifyNodes nodes).childToParent.lookup n.id = n.parent := by
  have written : (classifyNodes nodes).childToParent =
      (classifyNodes nodes).children.foldl (write RFNode.id RFNode.parent) ∅ := by
    unfold classifyNodes
    dsimp only
    congr 1
    funext m c
    unfold write
    cases c.parent <;> rfl
  have names : ((classifyNodes nodes).children.map RFNode.id).Nodup := unique.sublist (List.filter_sublist.map _)
  rw [written, lookup_foldl_write RFNode.id RFNode.parent names]
  cases found : (classifyNodes nodes).children.find? fun c => c.id = n.id with
  | none =>
    -- only what has no parent is no child
    cases parent : n.parent with
    | none => rfl
    | some p =>
      have child : n ∈ (classifyNodes nodes).children := List.mem_filter.mpr ⟨member, by rw [parent]; rfl⟩
      exact absurd (decide_eq_true rfl) (List.find?_eq_none.mp found n child)
  | some c =>
    have listed := (List.mem_filter.mp (List.mem_of_find?_eq_some found)).1
    have same : c.id = n.id := by simpa using List.find?_some found
    rw [eq_of_key_eq RFNode.id unique listed member same]
    rfl

/-! ## Neighbours -/

section Neighbors

variable {adj : AList fun _ : String => List String} {s t : String} {ids : List String}
  {childToParent : AList fun _ : String => String} {e : RFEdge}

theorem mem_addNeighbor : a ∈ addNeighbor adj s t ↔ a ∈ adj := by
  unfold addNeighbor
  split
  next neighbors found =>
    have held : s ∈ adj := mem_iff_lookup.mpr ⟨neighbors, found⟩
    rw [AList.mem_insert]
    exact ⟨fun either => either.elim (fun same => same ▸ held) id, .inr⟩
  next => rfl

theorem lookup_addNeighbor : b ∈ ((addNeighbor adj s t).lookup a).getD [] ↔
    b ∈ (adj.lookup a).getD [] ∨ s ∈ adj ∧ a = s ∧ b = t := by
  unfold addNeighbor
  split
  next neighbors found =>
    have held : s ∈ adj := mem_iff_lookup.mpr ⟨neighbors, found⟩
    by_cases same : a = s
    · subst same
      simp [found, held]
    · simp [AList.lookup_insert_ne same, same]
  next missing =>
    have absent : s ∉ adj := AList.lookup_eq_none.mp missing
    simp [absent]

/-- The ends of an edge are in or are the one and the other. -/
def Joins (ids : List String) (childToParent : AList fun _ : String => String) (e : RFEdge) (a b : String) : Prop :=
  truthy (topOf ids childToParent e.source) = some a ∧ truthy (topOf ids childToParent e.target) = some b

theorem mem_addLink : a ∈ addLink ids childToParent adj e ↔ a ∈ adj := by
  unfold addLink
  split
  next => split <;> simp only [mem_addNeighbor]
  next => rfl

theorem lookup_addLink : b ∈ ((addLink ids childToParent adj e).lookup a).getD [] ↔
    b ∈ (adj.lookup a).getD [] ∨
      a ∈ adj ∧ a ≠ b ∧ (Joins ids childToParent e a b ∨ Joins ids childToParent e b a) := by
  unfold addLink Joins
  split
  next s t source target =>
    rw [source, target]
    simp only [Option.some.injEq]
    split
    next differs =>
      rw [lookup_addNeighbor, lookup_addNeighbor, mem_addNeighbor, or_assoc]
      refine or_congr_right ⟨?_, ?_⟩
      · rintro (⟨held, rfl, rfl⟩ | ⟨held, rfl, rfl⟩)
        · exact ⟨held, differs, .inl ⟨rfl, rfl⟩⟩
        · exact ⟨held, differs.symm, .inr ⟨rfl, rfl⟩⟩
      · rintro ⟨held, -, ⟨rfl, rfl⟩ | ⟨rfl, rfl⟩⟩
        · exact .inl ⟨held, rfl, rfl⟩
        · exact .inr ⟨held, rfl, rfl⟩
    next same =>
      -- both ends are in one top-level node: the edge links nothing
      rw [not_not] at same
      subst same
      refine ⟨.inl, fun either => either.resolve_right ?_⟩
      rintro ⟨-, differs, ⟨rfl, rfl⟩ | ⟨rfl, rfl⟩⟩ <;> exact differs rfl
  next unset =>
    -- an end that is nowhere
    refine ⟨.inl, fun either => either.resolve_right ?_⟩
    rintro ⟨-, -, ⟨source, target⟩ | ⟨source, target⟩⟩ <;> exact unset _ _ source target

theorem mem_adjacency : a ∈ adjacency ids edges childToParent ↔ a ∈ ids := by
  unfold adjacency
  induction edges using List.reverseRecOn with
  | nil =>
    rw [List.foldl_nil]
    induction ids using List.reverseRecOn with
    | nil => simp
    | append_singleton ids id ih => simp [ih, or_comm]
  | append_singleton edges e ih => rw [List.foldl_concat, mem_addLink, ih]

/-- The neighbours of a top-level node: the others that an edge joins it with. -/
theorem mem_neighborsOf : b ∈ neighborsOf ids edges childToParent a ↔
    a ∈ ids ∧ a ≠ b ∧ ∃ e ∈ edges, Joins ids childToParent e a b ∨ Joins ids childToParent e b a := by
  unfold neighborsOf
  induction edges using List.reverseRecOn with
  | nil =>
    have empty : ((adjacency ids [] childToParent).lookup a).getD [] = [] := by
      unfold adjacency
      rw [List.foldl_nil]
      induction ids using List.reverseRecOn with
      | nil => rfl
      | append_singleton ids id ih =>
        rw [List.foldl_concat]
        by_cases same : a = id
        · subst same
          rw [AList.lookup_insert, Option.getD_some]
        · rw [AList.lookup_insert_ne same, ih]
    simp [empty]
  | append_singleton edges e ih =>
    have before : a ∈ adjacency ids edges childToParent ↔ a ∈ ids := mem_adjacency
    have last : adjacency ids (edges ++ [e]) childToParent =
        addLink ids childToParent (adjacency ids edges childToParent) e := List.foldl_concat _ _ _ _
    rw [last, lookup_addLink, ih, before]
    simp only [List.mem_append, List.mem_singleton, or_and_right, exists_or, exists_eq_left, ← and_or_left]

end Neighbors

namespace FlatFlow

variable (flow : FlatFlow nodes edges)
include flow

theorem parent_eq (member : n ∈ nodes) : n.parent = n.parentId := by
  unfold RFNode.parent
  cases parent : n.parentId with
  | none => rfl
  | some p =>
    obtain ⟨g, held, rfl, -⟩ := flow.parents n member p parent
    exact truthy_eq_some.mpr ⟨rfl, flow.named g held⟩

theorem lookup_eq (member : n ∈ nodes) : (classifyNodes nodes).childToParent.lookup n.id = n.parentId := by
  rw [lookup_childToParent flow.nodeIds member, flow.parent_eq member]

theorem children_eq : (classifyNodes nodes).children = nodes.filter fun n => n.parentId ≠ none := by
  refine List.filter_congr fun n member => ?_
  rw [flow.parent_eq member]
  cases n.parentId <;> rfl

/-- Groups and free nodes are the nodes without parents. -/
theorem topIds_perm : (topIds nodes).Perm ((nodes.filter fun n => n.parentId = none).map RFNode.id) := by
  have groups : (classifyNodes nodes).groups =
      (nodes.filter fun n => n.parentId = none).filter fun n => isGroupType n.type := by
    rw [List.filter_filter]
    refine List.filter_congr fun n member => ?_
    cases group : isGroupType n.type with
    | false => rfl
    -- groups are not nested in a flat flow
    | true => simp [flow.flat n member group]
  have freeNodes : (classifyNodes nodes).freeNodes =
      (nodes.filter fun n => n.parentId = none).filter fun n => !isGroupType n.type := by
    rw [List.filter_filter]
    refine List.filter_congr fun n member => ?_
    rw [flow.parent_eq member]
    cases n.parentId <;> simp
  rw [topIds, groups, freeNodes, ← List.map_append]
  exact (List.filter_append_perm _ _).map _

theorem mem_topIds : a ∈ topIds nodes ↔ ∃ n ∈ nodes, n.parentId = none ∧ n.id = a := by
  rw [flow.topIds_perm.mem_iff]
  simp [and_assoc]

theorem nodup_topIds : (topIds nodes).Nodup :=
  flow.topIds_perm.nodup_iff.mpr ((List.filter_sublist.map _).nodup flow.nodeIds)

theorem top_mem (member : n ∈ nodes) : n.top ∈ topIds nodes := by
  rw [flow.mem_topIds, RFNode.top]
  cases parent : n.parentId with
  | none => exact ⟨n, member, parent, rfl⟩
  | some p =>
    obtain ⟨g, held, same, -, free⟩ := flow.parents n member p parent
    exact ⟨g, held, free, same⟩

theorem liftedTop_eq (member : n ∈ nodes) : liftedTop (classifyNodes nodes).childToParent n.id = n.top := by
  rw [liftedTop, flow.lookup_eq member, RFNode.top]

theorem topOf_eq (member : n ∈ nodes) :
    truthy (topOf (topIds nodes) (classifyNodes nodes).childToParent n.id) = some n.top := by
  obtain ⟨g, held, -, same⟩ := flow.mem_topIds.mp (flow.top_mem member)
  have set : n.top ≠ "" := same ▸ flow.named g held
  refine truthy_eq_some.mpr ⟨?_, set⟩
  rw [topOf, flow.lookup_eq member]
  cases parent : n.parentId with
  | some p => simp [RFNode.top, parent]
  | none =>
    have top : n.id ∈ topIds nodes := flow.mem_topIds.mpr ⟨n, member, parent, rfl⟩
    simp [RFNode.top, parent, top]

/-! ## Components -/

/-- The links that edges make. -/
theorem links_iff : Links nodes edges a b ↔
    ∃ e ∈ edges, Joins (topIds nodes) (classifyNodes nodes).childToParent e a b := by
  constructor
  · rintro ⟨e, listed, m, first, n, second, source, target, rfl, rfl⟩
    exact ⟨e, listed, by rw [← source, flow.topOf_eq first], by rw [← target, flow.topOf_eq second]⟩
  · rintro ⟨e, listed, source, target⟩
    obtain ⟨⟨m, first, same⟩, n, second, same'⟩ := flow.ends e listed
    rw [← same, flow.topOf_eq first, Option.some.injEq] at source
    rw [← same', flow.topOf_eq second, Option.some.injEq] at target
    exact ⟨e, listed, m, first, n, second, same, same', source, target⟩

theorem links_mem (links : Links nodes edges a b) : a ∈ topIds nodes ∧ b ∈ topIds nodes := by
  obtain ⟨e, -, m, first, n, second, -, -, rfl, rfl⟩ := links
  exact ⟨flow.top_mem first, flow.top_mem second⟩

theorem next_iff : Next (neighborsOf (topIds nodes) edges (classifyNodes nodes).childToParent) a b ↔
    a ≠ b ∧ (Links nodes edges a b ∨ Links nodes edges b a) := by
  rw [Next, mem_neighborsOf, flow.links_iff, flow.links_iff]
  constructor
  · rintro ⟨-, differs, e, listed, forward | backward⟩
    · exact ⟨differs, .inl ⟨e, listed, forward⟩⟩
    · exact ⟨differs, .inr ⟨e, listed, backward⟩⟩
  · rintro ⟨differs, ⟨e, listed, forward⟩ | ⟨e, listed, backward⟩⟩
    · exact ⟨(flow.links_mem (flow.links_iff.mpr ⟨e, listed, forward⟩)).1, differs, e, listed, .inl forward⟩
    · exact ⟨(flow.links_mem (flow.links_iff.mpr ⟨e, listed, backward⟩)).2, differs, e, listed, .inr backward⟩

theorem symmetric : Symmetric (neighborsOf (topIds nodes) edges (classifyNodes nodes).childToParent) (topIds nodes) where
  inside := by
    intro a _ b next
    rcases (flow.next_iff.mp next).2 with forward | backward
    · exact (flow.links_mem forward).2
    · exact (flow.links_mem backward).1
  back := by
    intro a b next
    obtain ⟨differs, linked⟩ := flow.next_iff.mp next
    exact flow.next_iff.mpr ⟨differs.symm, linked.symm⟩

/-- Steps between neighbours are chains of edges in either direction. -/
theorem reaches_iff : ReflTransGen (Next (neighborsOf (topIds nodes) edges (classifyNodes nodes).childToParent)) a b ↔
    EqvGen (Links nodes edges) a b := by
  constructor
  · intro reached
    induction reached with
    | refl => exact .refl _
    | tail _ next ih =>
      rcases (flow.next_iff.mp next).2 with forward | backward
      · exact ih.trans _ _ _ (.rel _ _ forward)
      · exact ih.trans _ _ _ (.symm _ _ (.rel _ _ backward))
  · intro chain
    have links : Std.Symm (Next (neighborsOf (topIds nodes) edges (classifyNodes nodes).childToParent)) :=
      ⟨flow.symmetric.back⟩
    induction chain with
    | rel a b link =>
      -- the search does not follow a link of a node with itself
      by_cases same : a = b
      · rw [same]
      · exact .single (flow.next_iff.mpr ⟨same, .inl link⟩)
    | refl a => exact .refl
    | symm a b _ ih => exact symm ih
    | trans a b c _ _ first second => exact first.trans second

/-- The search finds the components. -/
theorem findComponents_spec : ∃ components,
    findComponents (topIds nodes) edges (classifyNodes nodes).childToParent = some components ∧
      LinkedComponents nodes edges components := by
  obtain ⟨components, found, partition⟩ := components_spec flow.symmetric flow.nodup_topIds
    (Nat.add_lt_add_right (Nat.lt_succ_self 1) _)
  refine ⟨components, found, partition.perm.trans flow.topIds_perm, partition.nonempty, fun c held a first b => ?_⟩
  rw [partition.linked c held a first b, flow.reaches_iff]

end FlatFlow

/-! ## The hierarchy -/

section Hierarchy

variable (nodeMap : AList fun _ : String => RFNode) (children : List RFNode) (edges : List RFEdge)
  (childToParent : AList fun _ : String => String) (nodeWidth : ℚ)

/-- The edges that have both ends in a group. -/
def edgesIn (id : String) : List ElkEdge := (edges.filter fun e => sharedGroup childToParent e = some id).map elkEdge

/-- An edge's ends are in or are nodes of a component. -/
abbrev InComponent (compIds : List String) (e : RFEdge) : Prop :=
  liftedTop childToParent e.source ∈ compIds ∧ liftedTop childToParent e.target ∈ compIds

/-- The other edges of a component. -/
def edgesBetween (compIds : List String) : List ElkEdge :=
  ((edges.filter fun e => InComponent childToParent compIds e).filter fun e => sharedGroup childToParent e = none).map elkEdge

/-- A top-level node with the edges in it. -/
def placed (id : String) : Option ElkNode :=
  (nodeMap.lookup id).map fun rfNode =>
    { elkNodeOf nodeMap children nodeWidth id rfNode with edges := edgesIn edges childToParent id }

variable {nodeMap children edges childToParent nodeWidth} {e : RFEdge} {compIds : List String}
  {components : List (List String)} {x : ElkNode}

@[simp] theorem elkNodeOf_id : (elkNodeOf nodeMap children nodeWidth id n).id = id := by
  unfold elkNodeOf
  split <;> rfl

@[simp] theorem elkNodeOf_edges : (elkNodeOf nodeMap children nodeWidth id n).edges = [] := by
  unfold elkNodeOf
  split <;> rfl

/-- No node is as low as a placeholder. -/
theorem nodeHeight_ne_one : nodeHeight n ≠ 1 := by
  unfold nodeHeight
  split <;> decide

theorem placed_id (held : placed nodeMap children edges childToParent nodeWidth id = some x) : x.id = id := by
  obtain ⟨rfNode, -, rfl⟩ := Option.map_eq_some_iff.mp held
  exact elkNodeOf_id

theorem placed_edges (held : placed nodeMap children edges childToParent nodeWidth id = some x) :
    x.edges = edgesIn edges childToParent x.id := by
  have same := placed_id held
  obtain ⟨rfNode, -, rfl⟩ := Option.map_eq_some_iff.mp held
  rw [same]

theorem sharedGroup_eq_some : sharedGroup childToParent e = some a ↔
    truthy (childToParent.lookup e.source) = some a ∧ truthy (childToParent.lookup e.target) = some a := by
  unfold sharedGroup
  split
  next s t source target =>
    rw [source, target]
    split
    next same => simp [same]
    next differs =>
      refine ⟨nofun, ?_⟩
      rintro ⟨source, target⟩
      exact absurd (Option.some.inj (source.trans target.symm)) differs
  next unset => exact ⟨nofun, fun both => absurd both.2 (unset _ _ both.1)⟩

/-- What is in one group is in the component of the group. -/
theorem inside_of_sharedGroup (shared : sharedGroup childToParent e = some a) :
    InComponent childToParent compIds e ↔ a ∈ compIds := by
  obtain ⟨source, target⟩ := sharedGroup_eq_some.mp shared
  unfold InComponent liftedTop
  rw [(truthy_eq_some.mp source).1, (truthy_eq_some.mp target).1]
  exact and_self_iff

/-- One component: its nodes are added with their edges, and its other edges go to the root. -/
theorem buildComponent_spec {built : List ElkNode × List ElkEdge} (fresh : ∀ x ∈ built.1, x.id ∉ compIds) :
    buildComponent nodeMap children edges childToParent nodeWidth built compIds =
      (built.1 ++ compIds.filterMap (placed nodeMap children edges childToParent nodeWidth),
        built.2 ++ edgesBetween edges childToParent compIds) := by
  have groups (id : String) : id ∈ group (sharedGroup childToParent) elkEdge
      (edges.filter fun e => InComponent childToParent compIds e) → id ∈ compIds := by
    rw [mem_group]
    rintro ⟨e, listed, shared⟩
    exact (inside_of_sharedGroup shared).mp (of_decide_eq_true (List.mem_filter.mp listed).2)
  have edgesOf (id : String) (held : id ∈ compIds) : ((group (sharedGroup childToParent) elkEdge
      (edges.filter fun e => InComponent childToParent compIds e)).lookup id).getD [] = edgesIn edges childToParent id := by
    rw [lookup_group, List.filter_filter, edgesIn]
    congr 1
    refine List.filter_congr fun e _ => ?_
    by_cases shared : sharedGroup childToParent e = some id
    · simp [shared, (inside_of_sharedGroup shared).mpr held]
    · simp [shared]
  unfold buildComponent
  dsimp only
  rw [List.map_append, List.map_filterMap]
  refine congrArg₂ Prod.mk (congrArg₂ HAppend.hAppend ?_ ?_) rfl
  · -- no group of this component has been there before
    refine (List.map_congr_left (g := id) fun x held => ?_).trans (List.map_id _)
    split
    next found => exact absurd (groups x.id (mem_iff_lookup.mpr ⟨_, found⟩)) (fresh x held)
    next => rfl
  · refine List.filterMap_congr fun id held => ?_
    unfold placed
    rw [Option.map_map]
    refine Option.map_congr fun rfNode _ => ?_
    have same : (elkNodeOf nodeMap children nodeWidth id rfNode).id = id := elkNodeOf_id
    have bare : (elkNodeOf nodeMap children nodeWidth id rfNode).edges = [] := elkNodeOf_edges
    rw [Function.comp_apply, ← edgesOf id held]
    generalize elkNodeOf nodeMap children nodeWidth id rfNode = x at same bare ⊢
    subst same
    split
    next groupEdges found => rw [found, Option.getD_some]
    next missing =>
      -- without edges in it the node stays as it was built
      rw [missing, Option.getD_none, ← bare]

theorem buildElkChildren_spec (distinct : components.flatten.Nodup) :
    buildElkChildren nodeMap children edges childToParent nodeWidth components =
      (components.flatten.filterMap (placed nodeMap children edges childToParent nodeWidth),
        components.flatMap (edgesBetween edges childToParent)) := by
  unfold buildElkChildren
  induction components using List.reverseRecOn with
  | nil => rfl
  | append_singleton before c ih =>
    rw [List.flatten_append, List.flatten_singleton] at distinct
    obtain ⟨first, -, apart⟩ := List.nodup_append.mp distinct
    rw [List.foldl_concat, ih first, buildComponent_spec, List.flatten_append, List.flatten_singleton,
      List.filterMap_append, List.flatMap_append, List.flatMap_singleton]
    intro x built held
    obtain ⟨id, listed, stands⟩ := List.mem_filterMap.mp built
    exact apart id listed x.id held (placed_id stands).symm

/-- Every component gets back what was built for it. -/
theorem wrapComponents_spec (distinct : components.flatten.Nodup) (nonempty : ∀ c ∈ components, c ≠ []) :
    (wrapComponents components (components.flatten.filterMap (placed nodeMap children edges childToParent nodeWidth))
      (components.flatMap (edgesBetween edges childToParent)) childToParent).map
        (fun root => (root.children, root.edges)) =
      components.map fun c => (c.filterMap (placed nodeMap children edges childToParent nodeWidth),
        edgesBetween edges childToParent c) := by
  have unique : components.Nodup := nodup_of_flatten distinct nonempty
  unfold wrapComponents
  rw [List.map_map]
  refine List.map_congr_left fun c held => ?_
  have nodesHere : (components.flatten.filterMap (placed nodeMap children edges childToParent nodeWidth)).filter
      (fun x => x.id ∈ c) = c.filterMap (placed nodeMap children edges childToParent nodeWidth) := by
    rw [List.filterMap_flatten, ← List.flatMap_def]
    refine filter_flatMap_eq unique held (fun x stands => ?_) fun d second differs x stands => ?_
    · obtain ⟨id, listed, stands⟩ := List.mem_filterMap.mp stands
      rw [placed_id stands]
      exact decide_eq_true listed
    · obtain ⟨id, listed, stands⟩ := List.mem_filterMap.mp stands
      rw [placed_id stands, decide_eq_true_eq]
      exact disjoint_of_flatten distinct second held differs listed
  have edgesHere : (components.flatMap (edgesBetween edges childToParent)).filter
      (fun e => liftedTop childToParent e.source ∈ c ∧ liftedTop childToParent e.target ∈ c) =
        edgesBetween edges childToParent c := by
    refine filter_flatMap_eq unique held (fun x stands => ?_) fun d second differs x stands => ?_
    · obtain ⟨e, listed, rfl⟩ := List.mem_map.mp stands
      exact (List.mem_filter.mp (List.mem_filter.mp listed).1).2
    · obtain ⟨e, listed, rfl⟩ := List.mem_map.mp stands
      have inside : InComponent childToParent d e :=
        of_decide_eq_true (List.mem_filter.mp (List.mem_filter.mp listed).1).2
      rw [decide_eq_true_eq]
      exact fun both => disjoint_of_flatten distinct second held differs inside.1 both.1
  rw [Function.comp_apply]
  dsimp only
  rw [nodesHere, edgesHere]
  split
  next alone none => rw [alone, none]; rfl
  next => rfl

end Hierarchy

/-! ## What the hierarchy holds -/

namespace FlatFlow

variable {m g : RFNode} {e : RFEdge} {nodeWidth : ℚ} (flow : FlatFlow nodes edges)
include flow

theorem sharedGroup_iff (first : m ∈ nodes) (second : n ∈ nodes) (source : m.id = e.source) (target : n.id = e.target) :
    sharedGroup (classifyNodes nodes).childToParent e = some a ↔ m.parentId = some a ∧ n.parentId = some a := by
  have held {n : RFNode} (member : n ∈ nodes) : truthy ((classifyNodes nodes).childToParent.lookup n.id) = n.parentId := by
    rw [flow.lookup_eq member]
    exact flow.parent_eq member
  rw [sharedGroup_eq_some, ← source, ← target, held first, held second]

/-- A node without parent stands with what is in it. -/
theorem nodes_elkNodeOf (member : n ∈ nodes) :
    (elkNodeOf (index RFNode.id nodes) (classifyNodes nodes).children nodeWidth n.id n).nodes =
      (n.id, none) :: (nodes.filter fun c => c.parentId = some n.id).map fun c => (c.id, c.parentId) := by
  have inGroup : (classifyNodes nodes).children.filter (fun c => c.parentId = some n.id) =
      nodes.filter fun c => c.parentId = some n.id := by
    rw [flow.children_eq, List.filter_filter]
    refine List.filter_congr fun c _ => ?_
    cases c.parentId <;> simp
  unfold ElkNode.nodes
  rw [elkNodeOf_id]
  refine congrArg (List.cons _) ?_
  unfold elkNodeOf
  split
  next group =>
    dsimp only
    rw [inGroup]
    split
    next =>
      have real : ∀ c ∈ (nodes.filter fun c => c.parentId = some n.id).map fun child =>
          ({ id := child.id, size :=
            { width := nodeWidth, height := nodeHeight (((index RFNode.id nodes).lookup child.id).getD child) } } : ElkChild),
          c ≠ placeholder n.id := by
        intro c listed same
        obtain ⟨child, -, rfl⟩ := List.mem_map.mp listed
        exact nodeHeight_ne_one (congrArg (fun c => c.size.height) same)
      rw [List.filter_eq_self.mpr fun c listed => decide_eq_true (real c listed), List.map_map]
      refine List.map_congr_left fun c listed => ?_
      rw [of_decide_eq_true (List.mem_filter.mp listed).2]
      rfl
    next none =>
      rw [List.eq_nil_of_length_eq_zero (Nat.eq_zero_of_not_pos none)]
      simp
  next free =>
    -- only groups are parents
    have none : nodes.filter (fun c => c.parentId = some n.id) = [] := by
      refine List.filter_eq_nil_iff.mpr fun c listed parent => ?_
      obtain ⟨g, held, same, group, -⟩ := flow.parents c listed n.id (of_decide_eq_true parent)
      rw [eq_of_key_eq RFNode.id flow.nodeIds held member same] at group
      exact free group
    rw [none]
    rfl

end FlatFlow

/-! ## All of the graph -/

variable {components : List (List String)} {graph : List ElkRoot} {nodeWidth : ℚ} {e : RFEdge}

section Whole

variable (nodes edges nodeWidth)

/-- What stands for a node without parent. -/
def standing (n : RFNode) : ElkNode :=
  { elkNodeOf (index RFNode.id nodes) (classifyNodes nodes).children nodeWidth n.id n with
    edges := edgesIn edges (classifyNodes nodes).childToParent n.id }

/-- What stands for a component. -/
def standingIn (compIds : List String) : List ElkNode :=
  compIds.filterMap (placed (index RFNode.id nodes) (classifyNodes nodes).children edges
    (classifyNodes nodes).childToParent nodeWidth)

/-- What the graph has for each component. -/
def Built (components : List (List String)) (graph : List ElkRoot) : Prop :=
  graph.map (fun root => (root.children, root.edges)) = components.map fun c =>
    (standingIn nodes edges nodeWidth c, edgesBetween edges (classifyNodes nodes).childToParent c)

end Whole

theorem Built.flatMap_eq {γ : Type} (built : Built nodes edges nodeWidth components graph)
    (f : List ElkNode → List ElkEdge → List γ) : (graph.flatMap fun root => f root.children root.edges) =
      components.flatMap fun c => f (standingIn nodes edges nodeWidth c)
        (edgesBetween edges (classifyNodes nodes).childToParent c) := by
  have mapped := congrArg (List.flatMap fun p : List ElkNode × List ElkEdge => f p.1 p.2) built
  rwa [List.flatMap_map, List.flatMap_map] at mapped

theorem Built.mem {root : ElkRoot} (built : Built nodes edges nodeWidth components graph) (held : root ∈ graph) :
    ∃ c ∈ components, root.children = standingIn nodes edges nodeWidth c ∧
      root.edges = edgesBetween edges (classifyNodes nodes).childToParent c := by
  have pair : (root.children, root.edges) ∈ components.map fun c =>
      (standingIn nodes edges nodeWidth c, edgesBetween edges (classifyNodes nodes).childToParent c) := by
    rw [← built]
    exact List.mem_map_of_mem held
  obtain ⟨c, member, same⟩ := List.mem_map.mp pair
  obtain ⟨children, edges⟩ := Prod.mk.inj same
  exact ⟨c, member, children.symm, edges.symm⟩

theorem LinkedComponents.distinct (linked : LinkedComponents nodes edges components)
    (unique : (nodes.map RFNode.id).Nodup) : components.flatten.Nodup :=
  linked.perm.nodup_iff.mpr ((List.filter_sublist.map _).nodup unique)

namespace FlatFlow

variable (flow : FlatFlow nodes edges)
include flow

theorem layoutGraph_spec (nodeWidth : ℚ) : ∃ components graph,
    layoutGraph nodes edges nodeWidth = some (components, graph) ∧ LinkedComponents nodes edges components ∧
      Built nodes edges nodeWidth components graph := by
  obtain ⟨components, found, linked⟩ := flow.findComponents_spec
  have distinct := linked.distinct flow.nodeIds
  refine ⟨components, _, by rw [layoutGraph, found]; rfl, linked, ?_⟩
  rw [buildElkChildren_spec distinct]
  exact wrapComponents_spec distinct linked.nonempty

theorem placed_eq (member : n ∈ nodes) :
    placed (index RFNode.id nodes) (classifyNodes nodes).children edges (classifyNodes nodes).childToParent nodeWidth n.id =
      some (standing nodes edges nodeWidth n) := by
  rw [placed, (lookup_index RFNode.id flow.nodeIds).mpr ⟨member, rfl⟩]
  rfl

theorem standingIn_ids {compIds : List String} (within : ∀ id ∈ compIds, ∃ n ∈ nodes, n.id = id) :
    (standingIn nodes edges nodeWidth compIds).map ElkNode.id = compIds := by
  unfold standingIn
  rw [List.map_filterMap]
  refine (List.filterMap_congr (g := some) fun id held => ?_).trans List.filterMap_some
  obtain ⟨n, member, rfl⟩ := within id held
  rw [flow.placed_eq member, Option.map_some, standing, elkNodeOf_id]

/-! Every node once -/

theorem nodup_keys : ((nodes.filter fun n => n.parentId = none).map fun n => some n.id).Nodup := by
  have ids : ((nodes.filter fun n => n.parentId = none).map RFNode.id).Nodup :=
    (List.filter_sublist.map _).nodup flow.nodeIds
  have keys := ids.map (Option.some_injective String)
  rwa [List.map_map] at keys

/-- The nodes in the groups, group by group. -/
theorem grouped_perm {γ : Type} (f : RFNode → γ) :
    ((nodes.filter fun n => n.parentId = none).flatMap fun n => (nodes.filter fun c => c.parentId = some n.id).map f).Perm
      ((nodes.filter fun c => c.parentId ≠ none).map f) := by
  rw [← List.map_flatMap]
  refine List.Perm.map f ?_
  have covers : ∀ c ∈ nodes.filter (fun c => c.parentId ≠ none),
      c.parentId ∈ (nodes.filter fun n => n.parentId = none).map fun n => some n.id := by
    intro c listed
    obtain ⟨member, grouped⟩ := List.mem_filter.mp listed
    obtain ⟨p, parent⟩ := Option.ne_none_iff_exists'.mp (of_decide_eq_true grouped)
    obtain ⟨g, held, same, -, free⟩ := flow.parents c member p parent
    rw [parent, ← same]
    exact List.mem_map_of_mem (List.mem_filter.mpr ⟨held, decide_eq_true free⟩)
  have perm := perm_flatMap_filter flow.nodup_keys covers
  rw [List.flatMap_map] at perm
  refine (List.Perm.of_eq ?_).trans perm
  refine List.flatMap_congr fun n _ => ?_
  rw [List.filter_filter]
  refine List.filter_congr fun c _ => ?_
  cases c.parentId <;> simp

variable (linked : LinkedComponents nodes edges components)
include linked

/-- The components together have what stands for each node without parent. -/
theorem standing_perm : (components.flatMap (standingIn nodes edges nodeWidth)).Perm
    ((nodes.filter fun n => n.parentId = none).map (standing nodes edges nodeWidth)) := by
  have whole : components.flatMap (standingIn nodes edges nodeWidth) = components.flatten.filterMap
      (placed (index RFNode.id nodes) (classifyNodes nodes).children edges (classifyNodes nodes).childToParent nodeWidth) := by
    rw [List.filterMap_flatten, ← List.flatMap_def]
    rfl
  rw [whole]
  refine (linked.perm.filterMap _).trans (List.Perm.of_eq ?_)
  rw [List.filterMap_map, ← List.filterMap_eq_map]
  refine List.filterMap_congr fun n listed => ?_
  exact flow.placed_eq (List.mem_filter.mp listed).1

theorem placed_perm (built : Built nodes edges nodeWidth components graph) :
    (graph.flatMap fun root => root.children.flatMap ElkNode.nodes).Perm (nodes.map fun n => (n.id, n.parentId)) := by
  have tops : (nodes.filter fun n => n.parentId = none).map (fun n => (n.id, none)) =
      (nodes.filter fun n => n.parentId = none).map fun n => (n.id, n.parentId) := by
    refine List.map_congr_left fun n listed => ?_
    rw [of_decide_eq_true (List.mem_filter.mp listed).2]
  calc (graph.flatMap fun root => root.children.flatMap ElkNode.nodes)
    _ = components.flatMap fun c => (standingIn nodes edges nodeWidth c).flatMap ElkNode.nodes :=
      built.flatMap_eq fun children _ => children.flatMap ElkNode.nodes
    _ = (components.flatMap (standingIn nodes edges nodeWidth)).flatMap ElkNode.nodes := List.flatMap_assoc.symm
    _ ~ ((nodes.filter fun n => n.parentId = none).map (standing nodes edges nodeWidth)).flatMap ElkNode.nodes :=
      (flow.standing_perm linked).flatMap_right _
    _ = (nodes.filter fun n => n.parentId = none).flatMap fun n =>
        (n.id, none) :: (nodes.filter fun c => c.parentId = some n.id).map fun c => (c.id, c.parentId) := by
      rw [List.flatMap_map]
      exact List.flatMap_congr fun n listed => flow.nodes_elkNodeOf (List.mem_filter.mp listed).1
    _ ~ (nodes.filter fun n => n.parentId = none).map (fun n => (n.id, none)) ++
        (nodes.filter fun n => n.parentId = none).flatMap fun n =>
          (nodes.filter fun c => c.parentId = some n.id).map fun c => (c.id, c.parentId) :=
      (List.map_append_flatMap_perm _ _ _).symm
    _ ~ (nodes.filter fun n => n.parentId = none).map (fun n => (n.id, n.parentId)) ++
        (nodes.filter fun c => c.parentId ≠ none).map fun c => (c.id, c.parentId) := by
      rw [tops]
      exact (flow.grouped_perm _).append_left _
    _ ~ nodes.map fun n => (n.id, n.parentId) := by
      rw [← List.map_append]
      refine List.Perm.map _ ?_
      have split := List.filter_append_perm (fun n : RFNode => decide (n.parentId = none)) nodes
      simpa only [← decide_not] using split

/-! Every edge once -/

/-- An edge is in one component. -/
theorem inComponent_iff (listed : e ∈ edges) {c : List String} (held : c ∈ components) :
    InComponent (classifyNodes nodes).childToParent c e ↔ liftedTop (classifyNodes nodes).childToParent e.source ∈ c := by
  obtain ⟨⟨m, first, source⟩, n, second, target⟩ := flow.ends e listed
  unfold InComponent
  rw [← source, ← target, flow.liftedTop_eq first, flow.liftedTop_eq second]
  refine ⟨And.left, fun here => ⟨here, ?_⟩⟩
  exact (linked.linked c held _ here _).mpr (.rel _ _ ⟨e, listed, m, first, n, second, source, target, rfl, rfl⟩)

theorem exists_component (member : n ∈ nodes) : ∃ c ∈ components, n.top ∈ c := by
  obtain ⟨c, held, here⟩ := List.mem_flatten.mp
    (linked.perm.mem_iff.mpr (flow.topIds_perm.mem_iff.mp (flow.top_mem member)))
  exact ⟨c, held, here⟩

theorem between_perm : (components.flatMap (edgesBetween edges (classifyNodes nodes).childToParent)).Perm
    ((edges.filter fun e => sharedGroup (classifyNodes nodes).childToParent e = none).map elkEdge) := by
  have distinct := linked.distinct flow.nodeIds
  have keys : (components.map some).Nodup :=
    (nodup_of_flatten distinct linked.nonempty).map (Option.some_injective _)
  have covers : ∀ e ∈ edges.filter (fun e => sharedGroup (classifyNodes nodes).childToParent e = none),
      components.find? (fun c => liftedTop (classifyNodes nodes).childToParent e.source ∈ c) ∈ components.map some := by
    intro e listed
    obtain ⟨⟨m, first, source⟩, -⟩ := flow.ends e (List.mem_filter.mp listed).1
    obtain ⟨c, held, here⟩ := flow.exists_component linked first
    rw [← source, flow.liftedTop_eq first, (find?_block_eq_some distinct held).mpr here]
    exact List.mem_map_of_mem held
  have perm := (perm_flatMap_filter keys covers).map elkEdge
  rw [List.flatMap_map, List.map_flatMap] at perm
  refine (List.Perm.of_eq ?_).trans perm
  refine List.flatMap_congr fun c held => ?_
  rw [edgesBetween, List.filter_comm]
  congr 1
  refine List.filter_congr fun e listed => ?_
  rw [decide_eq_decide, flow.inComponent_iff linked (List.mem_filter.mp listed).1 held, find?_block_eq_some distinct held]

theorem drawn_perm (built : Built nodes edges nodeWidth components graph) :
    (graph.flatMap fun root => root.children.flatMap ElkNode.edges ++ root.edges).Perm (edges.map elkEdge) := by
  have keys : (none :: (nodes.filter fun n => n.parentId = none).map fun n => some n.id).Nodup :=
    List.nodup_cons.mpr ⟨by simp, flow.nodup_keys⟩
  have covers : ∀ e ∈ edges, sharedGroup (classifyNodes nodes).childToParent e ∈
      none :: (nodes.filter fun n => n.parentId = none).map fun n => some n.id := by
    intro e listed
    obtain ⟨⟨m, first, source⟩, n, second, target⟩ := flow.ends e listed
    cases shared : sharedGroup (classifyNodes nodes).childToParent e with
    | none => exact List.mem_cons_self
    | some a =>
      obtain ⟨g, held, same, -, free⟩ :=
        flow.parents m first a ((flow.sharedGroup_iff first second source target).mp shared).1
      rw [← same]
      exact List.mem_cons_of_mem _ (List.mem_map_of_mem (List.mem_filter.mpr ⟨held, decide_eq_true free⟩))
  have groups : (components.flatMap (standingIn nodes edges nodeWidth)).flatMap ElkNode.edges ~
      (nodes.filter fun n => n.parentId = none).flatMap fun n => edgesIn edges (classifyNodes nodes).childToParent n.id := by
    refine ((flow.standing_perm linked).flatMap_right _).trans (List.Perm.of_eq ?_)
    rw [List.flatMap_map]
    rfl
  calc (graph.flatMap fun root => root.children.flatMap ElkNode.edges ++ root.edges)
    _ = components.flatMap fun c => (standingIn nodes edges nodeWidth c).flatMap ElkNode.edges ++
        edgesBetween edges (classifyNodes nodes).childToParent c :=
      built.flatMap_eq fun children edges => children.flatMap ElkNode.edges ++ edges
    _ ~ (components.flatMap fun c => (standingIn nodes edges nodeWidth c).flatMap ElkNode.edges) ++
        components.flatMap (edgesBetween edges (classifyNodes nodes).childToParent) :=
      (List.flatMap_append_perm _ _ _).symm
    _ ~ ((nodes.filter fun n => n.parentId = none).flatMap fun n =>
          edgesIn edges (classifyNodes nodes).childToParent n.id) ++
        (edges.filter fun e => sharedGroup (classifyNodes nodes).childToParent e = none).map elkEdge := by
      rw [← List.flatMap_assoc]
      exact groups.append (flow.between_perm linked)
    _ ~ (edges.filter fun e => sharedGroup (classifyNodes nodes).childToParent e = none).map elkEdge ++
        (nodes.filter fun n => n.parentId = none).flatMap fun n =>
          edgesIn edges (classifyNodes nodes).childToParent n.id := List.perm_append_comm
    _ ~ edges.map elkEdge := by
      have perm := (perm_flatMap_filter keys covers).map elkEdge
      rwa [List.flatMap_cons, List.flatMap_map, List.map_append, List.map_flatMap] at perm

theorem conserves (built : Built nodes edges nodeWidth components graph) : Conserves nodes edges components graph := by
  have ids (c : List String) (held : c ∈ components) : (standingIn nodes edges nodeWidth c).map ElkNode.id = c := by
    refine flow.standingIn_ids fun id here => ?_
    obtain ⟨n, member, -, same⟩ := flow.mem_topIds.mp
      (flow.topIds_perm.mem_iff.mpr (linked.perm.mem_iff.mp (List.mem_flatten.mpr ⟨c, held, here⟩)))
    exact ⟨n, member, same⟩
  refine ⟨?_, flow.placed_perm linked built, flow.drawn_perm linked built, ?_, ?_⟩
  · have mapped := congrArg (List.map fun p : List ElkNode × List ElkEdge => p.1.map ElkNode.id) built
    rw [List.map_map, List.map_map] at mapped
    refine mapped.trans ((List.map_congr_left (g := id) fun c held => ?_).trans (List.map_id _))
    exact ids c held
  · intro root held g child x listed
    obtain ⟨c, member, children, -⟩ := built.mem held
    rw [children, standingIn] at child
    obtain ⟨id, here, stands⟩ := List.mem_filterMap.mp child
    rw [placed_edges stands] at listed
    obtain ⟨e, inGroup, rfl⟩ := List.mem_map.mp listed
    obtain ⟨given, shared⟩ := List.mem_filter.mp inGroup
    obtain ⟨⟨m, first, source⟩, n, second, target⟩ := flow.ends e given
    exact ⟨m, first, n, second, source, target,
      (flow.sharedGroup_iff first second source target).mp (of_decide_eq_true shared)⟩
  · intro root held x listed
    obtain ⟨c, member, children, between⟩ := built.mem held
    rw [between] at listed
    obtain ⟨e, outside, rfl⟩ := List.mem_map.mp listed
    obtain ⟨inside, shared⟩ := List.mem_filter.mp outside
    obtain ⟨given, inside⟩ := List.mem_filter.mp inside
    obtain ⟨⟨m, first, source⟩, n, second, target⟩ := flow.ends e given
    have tops : InComponent (classifyNodes nodes).childToParent c e := of_decide_eq_true inside
    unfold InComponent at tops
    rw [← source, ← target, flow.liftedTop_eq first, flow.liftedTop_eq second] at tops
    rw [children, ids c member]
    refine ⟨m, first, n, second, source, target, tops.1, tops.2, fun g both => ?_⟩
    rw [(flow.sharedGroup_iff first second source target).mpr both] at shared
    cases of_decide_eq_true shared

end FlatFlow

/-- Where no group is in a group and every node has a name, the components are those of the edges, and the graph has
every node and every edge once. -/
theorem layoutGraph_conserves (flow : FlatFlow nodes edges) (nodeWidth : ℚ) : ∃ components graph,
    layoutGraph nodes edges nodeWidth = some (components, graph) ∧ LinkedComponents nodes edges components ∧
      Conserves nodes edges components graph := by
  obtain ⟨components, graph, done, linked, built⟩ := flow.layoutGraph_spec nodeWidth
  exact ⟨components, graph, done, linked, flow.conserves linked built⟩

/-! ## Groups in groups, and a node without a name -/

section Cases

def flowNode (id : String) (type : NodeType) (parentId : Option String) : RFNode :=
  { id, type, parentId, data := .controlSummary { ready := 0, total := 0, healthy := true } }

/-- Two containers in a network, a volume and what is mounted. -/
def networkNodes : List RFNode :=
  [flowNode "net" .networkGroup none, flowNode "web" .containerNode (some "net"),
    flowNode "db" .containerNode (some "net"), flowNode "data" .volumeNode none]

def networkEdges : List RFEdge :=
  [{ id := "e1", source := "web", target := "db" }, { id := "e2", source := "db", target := "data" }]

/-- One group in another. -/
def nestedNodes : List RFNode := [flowNode "outer" .networkGroup none, flowNode "inner" .networkGroup (some "outer")]

def unnamedNodes : List RFNode := [flowNode "" .containerNode none, flowNode "web" .containerNode none]

def unnamedEdges : List RFEdge := [{ id := "e", source := "", target := "web" }]

theorem layoutGraph_conserves_network : ∃ components graph,
    layoutGraph networkNodes networkEdges 140 = some (components, graph) ∧
      LinkedComponents networkNodes networkEdges components ∧ Conserves networkNodes networkEdges components graph :=
  layoutGraph_conserves
    { nodeIds := by decide
      edgeIds := by decide
      parents := by decide
      ends := by decide
      flat := by decide
      named := by decide } 140

/-- A group in a group is there twice, and the edge of a node without a name is lost. -/
theorem not_conserves_nested_unnamed :
    (GroupedFlow nestedNodes [] ∧ ∀ components graph, layoutGraph nestedNodes [] 140 = some (components, graph) →
      ¬Conserves nestedNodes [] components graph) ∧
    GroupedFlow unnamedNodes unnamedEdges ∧
      ∀ components graph, layoutGraph unnamedNodes unnamedEdges 140 = some (components, graph) →
        ¬Conserves unnamedNodes unnamedEdges components graph := by
  have twice : (layoutGraph nestedNodes [] 140).map
      (fun result => result.2.flatMap fun root => root.children.flatMap ElkNode.nodes) =
        some [("outer", none), ("inner", some "outer"), ("inner", none)] := by decide
  have lost : (layoutGraph unnamedNodes unnamedEdges 140).map
      (fun result => result.2.flatMap fun root => root.children.flatMap ElkNode.edges ++ root.edges) = some [] := by decide
  refine ⟨⟨⟨by decide, by decide, by decide, by decide⟩, fun components graph done conserves => ?_⟩,
    ⟨by decide, by decide, by decide, by decide⟩, fun components graph done conserves => ?_⟩
  · rw [done, Option.map_some, Option.some.injEq] at twice
    have count := conserves.placed.length_eq
    rw [twice] at count
    cases count
  · rw [done, Option.map_some, Option.some.injEq] at lost
    have count := conserves.drawn.length_eq
    rw [lost] at count
    cases count

end Cases

end Dockgraph.Frontend
