import Dockgraph.Frontend.SelectionGraph
import Dockgraph.Library.FailingLoop

/-!
# Lit nodes in faded groups

The groups above a lit node are lit by climbs that stop at the first lit group, which is right where the
groups above that one are lit. A selected group is lit without the groups above it.
-/
namespace Dockgraph.Frontend

open FailingLoop Forest Keyed Relation

/-! ## The forest of the nodes -/

/-- Parents are groups among the nodes, and none is within itself. -/
structure Nested (nodes : List RFNode) : Prop where
  unique : (nodes.map RFNode.id).Nodup
  acyclic : Acyclic (parentOf nodes)
  groups : ∀ n ∈ nodes, ∀ p, n.parent = some p → ∃ g ∈ nodes, g.id = p ∧ isGroupType g.type = true

abbrev Inside (nodes : List RFNode) (id : String) (groupId : String) : Prop := Below (parentOf nodes) id groupId

namespace Nested

variable {nodes : List RFNode} (nested : Nested nodes) {id p : String} {fuel : Nat}
include nested

theorem nodeById_iff {n : RFNode} : nodeById nodes id = some n ↔ n ∈ nodes ∧ n.id = id :=
  lookup_index RFNode.id nested.unique

theorem parentOf_iff : parentOf nodes id = some p ↔ ∃ n ∈ nodes, n.id = id ∧ n.parent = some p := by
  simp only [parentOf, Option.bind_eq_some_iff, nested.nodeById_iff, and_assoc]

theorem isGroup_iff : isGroup nodes id = true ↔ ∃ n ∈ nodes, n.id = id ∧ isGroupType n.type = true := by
  rw [isGroup, Option.any_eq_true]
  simp only [nested.nodeById_iff, and_assoc]

theorem isGroupSelection_node : isGroupSelection nodes (.node id) = isGroup nodes id := by
  rw [Bool.eq_iff_iff, nested.isGroup_iff, isGroupSelection, Option.any_eq_true]
  simp only [find?_key_eq_some RFNode.id nested.unique, and_assoc]

theorem isGroup_parent (child : parentOf nodes id = some p) : isGroup nodes p = true := by
  obtain ⟨n, member, -, parent⟩ := nested.parentOf_iff.mp child
  exact nested.isGroup_iff.mpr (nested.groups n member p parent)

theorem isGroup_above (inside : Inside nodes id p) : isGroup nodes p = true := by
  cases inside with
  | single child => exact nested.isGroup_parent child
  | tail _ child => exact nested.isGroup_parent child

theorem mem_childrenIds : id ∈ childrenIds nodes p ↔ parentOf nodes id = some p := by
  rw [childrenIds, lookup_group, nested.parentOf_iff, List.mem_map]
  simp only [List.mem_filter, decide_eq_true_eq]
  exact exists_congr fun n => by tauto

theorem parent_listed (child : parentOf nodes id = some p) : p ∈ nodes.map RFNode.id := by
  obtain ⟨n, member, -, parent⟩ := nested.parentOf_iff.mp child
  obtain ⟨g, member, rfl, -⟩ := nested.groups n member p parent
  exact List.mem_map_of_mem member

theorem exists_descendantIds (enough : nodes.length + 2 ≤ fuel) :
    ∃ ids, descendantIds fuel p nodes = some ids ∧ ∀ id, id ∈ ids ↔ Inside nodes id p := by
  have listed : ∀ q, ∀ id ∈ childrenIds nodes q, id ∈ nodes.map RFNode.id := by
    intro q id child
    obtain ⟨n, member, rfl, -⟩ := nested.parentOf_iff.mp (nested.mem_childrenIds.mp child)
    exact List.mem_map_of_mem member
  have few := missing_le (nodes.map RFNode.id) []
  rw [List.length_map] at few
  have ends : ∃ ids, descend (childrenIds nodes) fuel [p] [] = some ids :=
    descend_ends listed (by rw [List.length_singleton]; omega)
  obtain ⟨ids, done⟩ := ends
  refine ⟨ids, done, fun id => ?_⟩
  have same : (fun a b => a ∈ childrenIds nodes b) = Child (parentOf nodes) := by
    funext a b
    exact propext nested.mem_childrenIds
  rw [Descent.start.mem_descend done, same]

theorem exists_highlightAbove (enough : nodes.length + 2 ≤ fuel) {marked : List String}
    (closed : ∀ a b, Inside nodes id a → a ∈ marked → parentOf nodes a = some b → b ∈ marked) :
    ∃ result, highlightAbove fuel nodes id marked = some result ∧ ∀ a, a ∈ result ↔ a ∈ marked ∨ Inside nodes id a := by
  have few := missing_le (nodes.map RFNode.id) marked
  rw [List.length_map] at few
  have ends : ∃ result, highlightAbove fuel nodes id marked = some result :=
    climb_ends (fun p start => nested.parent_listed start) (fun a p child => nested.parent_listed child) (by omega)
  obtain ⟨result, done⟩ := ends
  refine ⟨result, done, fun a => ?_⟩
  rw [mem_climb nested.acyclic (fun p a b start above => closed a b (.head' start above)) done]
  exact or_congr_right (TransGen.head'_iff (r := Child (parentOf nodes))).symm

end Nested

/-! ## What is to be lit -/

section Spec

variable (nodes : List RFNode) (edges : List RFEdge)

/-- The selected node, what is in it, and the cards of its service. -/
def Selected (selected id : String) : Prop :=
  id = selected ∨ (isGroup nodes selected = true ∧ Inside nodes id selected) ∨
    ∃ c s, nodeById nodes selected = some c ∧ serviceIdOf c = some s ∧ s ≠ "" ∧
      ∃ n ∈ nodes, n.id = id ∧ serviceIdOf n = some s

/-- The edges that are to be lit. -/
def Connected : SelectionState → String → Prop
  | .node selected, id => ∃ e ∈ edges, e.id = id ∧ (Selected nodes selected e.source ∨ Selected nodes selected e.target)
  | .edge selected, id => id = selected

/-- No lit node is in a faded group, and the lit edges are those of the selection. -/
structure Lit (selection : SelectionState) (c : ConnectedElements) : Prop where
  unfaded : ∀ id, id ∈ c.highlightedGroupIds ∨ id ∈ c.connectedNodeIds → ∀ groupId, Inside nodes id groupId →
    groupId ∈ c.highlightedGroupIds ∨ groupId ∈ c.connectedNodeIds
  edges : ∀ id, id ∈ c.connectedEdgeIds ↔ Connected nodes edges selection id

/-- The loops end, with what is to be lit. -/
def Lights (selection : SelectionState) : Prop :=
  ∀ fuel, nodes.length + 2 ≤ fuel →
    ∃ c, resolveConnectedElements fuel nodes edges selection = some c ∧ Lit nodes edges selection c

/-- The end of a touching edge that the groups are lit above: the target of an edge from inside. -/
def Remote (groupId : String) (e : RFEdge) (id : String) : Prop :=
  let inside (id : String) := id = groupId ∨ Inside nodes id groupId
  (inside e.source ∧ id = e.target) ∨ (¬inside e.source ∧ inside e.target ∧ id = e.source)

/-- A selected group has no parent, or an edge leads to the parent, into it past the group, or to the group. -/
def ParentReached : SelectionState → Prop
  | .node selected => isGroup nodes selected = true → ∀ p, parentOf nodes selected = some p →
      ∃ e ∈ edges, ∃ id, Remote nodes selected e id ∧ ¬Inside nodes id selected ∧
        ReflTransGen (Child (parentOf nodes)) id p
  | .edge _ => True

end Spec

/-! ## Selections that are no group -/

section Plain

variable {nodes : List RFNode} (nested : Nested nodes) {edges : List RFEdge} {fuel : Nat} {selected id : String}

theorem edgeIds_foldl (lit : RFEdge → Prop) [DecidablePred lit] (c : ConnectedElements) :
    id ∈ (edges.foldl (fun c e => if lit e then c.addEdge e else c) c).connectedEdgeIds ↔
      id ∈ c.connectedEdgeIds ∨ ∃ e ∈ edges, e.id = id ∧ lit e := by
  induction edges generalizing c with
  | nil => simp
  | cons e edges ih =>
    rw [List.foldl_cons, ih]
    by_cases here : lit e
    · simp [here, ConnectedElements.addEdge, or_assoc, eq_comm]
    · simp [here]

/-- The loop over an edge's ends adds nodes only. -/
theorem addChildren_frame (c : ConnectedElements) (endpointId : String) :
    (addChildren nodes c endpointId).connectedEdgeIds = c.connectedEdgeIds ∧
      (addChildren nodes c endpointId).highlightedGroupIds = c.highlightedGroupIds := by
  unfold addChildren
  split <;> exact ⟨rfl, rfl⟩

theorem edgeIds_edgeElements (present : isSelectionPresent nodes edges (.edge selected) = true) :
    id ∈ (edgeElements nodes edges selected).connectedEdgeIds ↔ id = selected := by
  obtain ⟨e, found⟩ : ∃ e, (edges.find? fun e => e.id = selected) = some e := by
    refine Option.isSome_iff_exists.mp (List.find?_isSome.mpr ?_)
    simpa [isSelectionPresent] using present
  have same : e.id = selected := by simpa using List.find?_some found
  rw [edgeElements, found]
  dsimp only [List.foldl_cons, List.foldl_nil]
  rw [(addChildren_frame _ _).1, (addChildren_frame _ _).1]
  simp [ConnectedElements.addEdge, same]

theorem unlit_edgeElements : (edgeElements nodes edges selected).highlightedGroupIds = [] := by
  unfold edgeElements
  split
  next => rfl
  next e _ =>
    dsimp only [List.foldl_cons, List.foldl_nil]
    rw [(addChildren_frame _ _).2, (addChildren_frame _ _).2]
    rfl

theorem unlit_nodeElements : (nodeElements nodes edges selected).highlightedGroupIds = [] := by
  have kept (lit : RFEdge → Prop) [DecidablePred lit] (c : ConnectedElements) :
      (edges.foldl (fun c e => if lit e then c.addEdge e else c) c).highlightedGroupIds = c.highlightedGroupIds := by
    induction edges generalizing c with
    | nil => rfl
    | cons e edges ih =>
      rw [List.foldl_cons, ih]
      split <;> rfl
  exact kept _ _

include nested

theorem mem_originsOf (plain : isGroup nodes selected = false) :
    id ∈ originsOf nodes selected ↔ Selected nodes selected id := by
  have found : (nodes.find? fun n => n.id = selected) = nodeById nodes selected := by
    refine Option.ext fun n => ?_
    rw [find?_key_eq_some RFNode.id nested.unique, nested.nodeById_iff]
  rw [originsOf, found, Selected, plain]
  cases service : truthy ((nodeById nodes selected).bind serviceIdOf) with
  | none =>
    simp only [List.mem_singleton, Bool.false_eq_true, false_and, false_or]
    refine ⟨.inl, ?_⟩
    rintro (same | ⟨c, s, card, named, set, -⟩)
    · exact same
    · have present : truthy ((nodeById nodes selected).bind serviceIdOf) = some s :=
        truthy_eq_some.mpr ⟨Option.bind_eq_some_iff.mpr ⟨c, card, named⟩, set⟩
      rw [service] at present
      cases present
  | some s =>
    obtain ⟨named, set⟩ := truthy_eq_some.mp service
    obtain ⟨c, card, named⟩ := Option.bind_eq_some_iff.mp named
    simp only [mem_foldl_add, List.mem_singleton, List.mem_map, List.mem_filter, decide_eq_true_eq,
      Bool.false_eq_true, false_and, false_or]
    refine or_congr_right ⟨?_, ?_⟩
    · rintro ⟨n, ⟨member, same⟩, rfl⟩
      exact ⟨c, s, card, named, set, n, member, rfl, same⟩
    · rintro ⟨c', s', card', named', -, n, member, rfl, same⟩
      rw [card] at card'
      cases card'
      rw [named] at named'
      cases named'
      exact ⟨n, ⟨member, same⟩, rfl⟩

theorem edgeIds_nodeElements (plain : isGroup nodes selected = false) :
    id ∈ (nodeElements nodes edges selected).connectedEdgeIds ↔ Connected nodes edges (.node selected) id := by
  rw [nodeElements, edgeIds_foldl fun e => e.source ∈ originsOf nodes selected ∨ e.target ∈ originsOf nodes selected]
  simp only [mem_originsOf nested plain, List.not_mem_nil, false_or]
  rfl

/-- The last loop lights every group above a lit node. -/
theorem exists_highlightParents (enough : nodes.length + 2 ≤ fuel) (c : ConnectedElements)
    (unlit : c.highlightedGroupIds = []) :
    ∃ marked, highlightParents fuel nodes c = some { c with highlightedGroupIds := marked } ∧
      ∀ a, a ∈ marked ↔ ∃ id ∈ c.connectedNodeIds, Inside nodes id a := by
  have loop : ∃ marked, c.connectedNodeIds.foldlM (fun marked id => highlightAbove fuel nodes id marked) [] = some marked ∧
      ∀ a, a ∈ marked ↔ ∃ id ∈ c.connectedNodeIds, Inside nodes id a := by
    refine exists_foldlM (fun before marked => ∀ a, a ∈ marked ↔ ∃ id ∈ before, Inside nodes id a) (by simp) ?_
    intro before id marked _ lit
    have closed : ∀ a b, Inside nodes id a → a ∈ marked → parentOf nodes a = some b → b ∈ marked := by
      intro a b _ held child
      obtain ⟨other, member, inside⟩ := (lit a).mp held
      exact (lit b).mpr ⟨other, member, inside.tail child⟩
    obtain ⟨result, done, above⟩ := nested.exists_highlightAbove enough closed
    refine ⟨result, done, fun a => ?_⟩
    rw [above, lit]
    simp [or_and_right, exists_or]
  obtain ⟨marked, run, holds⟩ := loop
  refine ⟨marked, ?_, holds⟩
  rw [highlightParents, unlit, run]
  rfl

theorem lit_highlightParents (enough : nodes.length + 2 ≤ fuel) {selection : SelectionState} {c : ConnectedElements}
    (unlit : c.highlightedGroupIds = []) (edgeIds : ∀ id, id ∈ c.connectedEdgeIds ↔ Connected nodes edges selection id) :
    ∃ c', highlightParents fuel nodes c = some c' ∧ Lit nodes edges selection c' := by
  obtain ⟨marked, done, lit⟩ := exists_highlightParents nested enough c unlit
  refine ⟨_, done, ?_, edgeIds⟩
  rintro id (held | node) groupId inside
  · obtain ⟨other, member, below⟩ := (lit id).mp held
    exact .inl ((lit groupId).mpr ⟨other, member, below.trans inside⟩)
  · exact .inl ((lit groupId).mpr ⟨id, node, inside⟩)

end Plain

/-! ## A selected group -/

section Group

variable {nodes : List RFNode} (nested : Nested nodes) {edges : List RFEdge} {fuel : Nat} {selected : String}

def Touches (nodes : List RFNode) (selected : String) (e : RFEdge) : Prop :=
  (e.source = selected ∨ Inside nodes e.source selected) ∨ (e.target = selected ∨ Inside nodes e.target selected)

/-- What is lit after some of the edges. -/
structure GroupLit (nodes : List RFNode) (selected : String) (before : List RFEdge) (c : ConnectedElements) : Prop where
  edgeIds : ∀ id, id ∈ c.connectedEdgeIds ↔ ∃ e ∈ before, e.id = id ∧ Touches nodes selected e
  nodeIds : ∀ id, id ∈ c.connectedNodeIds ↔
    Inside nodes id selected ∨ ∃ e ∈ before, Touches nodes selected e ∧ (id = e.source ∨ id = e.target)
  groupIds : ∀ id, id ∈ c.highlightedGroupIds ↔ id = selected ∨ (Inside nodes id selected ∧ isGroup nodes id = true) ∨
    ∃ e ∈ before, ∃ r, Remote nodes selected e r ∧ ¬Inside nodes r selected ∧ Inside nodes r id

theorem touches_of_remote {e : RFEdge} {r : String} (remote : Remote nodes selected e r) : Touches nodes selected e := by
  rcases remote with ⟨source, -⟩ | ⟨-, target, -⟩
  · exact .inl source
  · exact .inr target

theorem exists_remote {e : RFEdge} (touches : Touches nodes selected e) : ∃ r, Remote nodes selected e r ∧
    ∀ id, id = e.source ∨ id = e.target → (id = selected ∨ Inside nodes id selected) ∨ id = r := by
  by_cases source : e.source = selected ∨ Inside nodes e.source selected
  · refine ⟨e.target, .inl ⟨source, rfl⟩, ?_⟩
    rintro id (rfl | rfl)
    · exact .inl source
    · exact .inr rfl
  · have target := touches.resolve_left source
    refine ⟨e.source, .inr ⟨source, target, rfl⟩, ?_⟩
    rintro id (rfl | rfl)
    · exact .inr rfl
    · exact .inl target

theorem remote_unique {e : RFEdge} {r r' : String} (first : Remote nodes selected e r)
    (second : Remote nodes selected e r') : r = r' := by
  rcases first with ⟨source, rfl⟩ | ⟨outside, target, rfl⟩ <;> rcases second with ⟨source', rfl⟩ | ⟨outside', target', rfl⟩
  · rfl
  · exact absurd source outside'
  · exact absurd source' outside
  · rfl

include nested

theorem exists_highlightRemote (enough : nodes.length + 2 ≤ fuel) {before : List RFEdge} {c : ConnectedElements}
    (lit : GroupLit nodes selected before c) (r : String) :
    ∃ marked, highlightAbove fuel nodes r c.highlightedGroupIds = some marked ∧
      ∀ id, id ∈ marked ↔ id ∈ c.highlightedGroupIds ∨ (¬Inside nodes r selected ∧ Inside nodes r id) := by
  by_cases inside : Inside nodes r selected
  · -- the parent is lit already
    obtain ⟨p, child, above⟩ := exists_parent inside
    have held : p ∈ c.highlightedGroupIds := by
      rcases below_or_eq above with rfl | below
      · exact (lit.groupIds p).mpr (.inl rfl)
      · exact (lit.groupIds p).mpr (.inr (.inl ⟨below, nested.isGroup_parent child⟩))
    obtain ⟨fuel, rfl⟩ := Nat.exists_eq_succ_of_ne_zero (show fuel ≠ 0 by omega)
    refine ⟨c.highlightedGroupIds, ?_, fun id => by simp [inside]⟩
    rw [highlightAbove, child, climb_held held]
  · have closed : ∀ a b, Inside nodes r a → a ∈ c.highlightedGroupIds → parentOf nodes a = some b →
        b ∈ c.highlightedGroupIds := by
      intro a b above held child
      rcases (lit.groupIds a).mp held with rfl | ⟨below, -⟩ | ⟨e, member, r', remote, outside, below⟩
      · exact absurd above inside
      · exact absurd (above.trans below) inside
      · exact (lit.groupIds b).mpr (.inr (.inr ⟨e, member, r', remote, outside, below.tail child⟩))
    obtain ⟨marked, done, all⟩ := nested.exists_highlightAbove enough closed
    exact ⟨marked, done, fun id => by rw [all]; simp [inside]⟩

omit nested in
/-- An edge that touches the selection lights its ends and what is above the end that is not selected. -/
theorem GroupLit.touching {before : List RFEdge} {c : ConnectedElements} (lit : GroupLit nodes selected before c)
    {e : RFEdge} (touches : Touches nodes selected e) {r : String} (remote : Remote nodes selected e r)
    {marked : List String} (lights : ∀ id, id ∈ marked ↔
      id ∈ c.highlightedGroupIds ∨ (¬Inside nodes r selected ∧ Inside nodes r id)) :
    GroupLit nodes selected (before ++ [e]) { c.addEdge e with highlightedGroupIds := marked } where
  edgeIds id := by
    change id ∈ add c.connectedEdgeIds e.id ↔ _
    rw [mem_add, lit.edgeIds]
    simp only [List.mem_append, List.mem_singleton, or_and_right, exists_or, exists_eq_left, touches, and_true]
    exact or_congr_right eq_comm
  nodeIds id := by
    change id ∈ add (add c.connectedNodeIds e.source) e.target ↔ _
    rw [mem_add, mem_add, lit.nodeIds]
    simp only [List.mem_append, List.mem_singleton, or_and_right, exists_or, exists_eq_left, touches, true_and,
      or_assoc]
  groupIds id := by
    change id ∈ marked ↔ _
    rw [lights, lit.groupIds]
    constructor
    · rintro ((first | below | ⟨e', member, old⟩) | new)
      · exact .inl first
      · exact .inr (.inl below)
      · exact .inr (.inr ⟨e', List.mem_append_left _ member, old⟩)
      · exact .inr (.inr ⟨e, by simp, r, remote, new⟩)
    · rintro (first | below | ⟨e', member, r', remote', outside, above⟩)
      · exact .inl (.inl first)
      · exact .inl (.inr (.inl below))
      · rcases List.mem_append.mp member with old | new
        · exact .inl (.inr (.inr ⟨e', old, r', remote', outside, above⟩))
        · rw [List.mem_singleton.mp new] at remote'
          rw [remote_unique remote' remote] at outside above
          exact .inr ⟨outside, above⟩

omit nested in
/-- Another edge lights nothing. -/
theorem GroupLit.apart {before : List RFEdge} {c : ConnectedElements} (lit : GroupLit nodes selected before c)
    {e : RFEdge} (apart : ¬Touches nodes selected e) : GroupLit nodes selected (before ++ [e]) c where
  edgeIds id := by
    rw [lit.edgeIds]
    simp only [List.mem_append, List.mem_singleton, or_and_right, exists_or, exists_eq_left, apart, and_false,
      or_false]
  nodeIds id := by
    rw [lit.nodeIds]
    simp only [List.mem_append, List.mem_singleton, or_and_right, exists_or, exists_eq_left, apart, false_and,
      or_false]
  groupIds id := by
    rw [lit.groupIds]
    have none (r : String) : ¬Remote nodes selected e r := fun remote => apart (touches_of_remote remote)
    simp only [List.mem_append, List.mem_singleton, or_and_right, exists_or, exists_eq_left, none, false_and,
      exists_false, or_false]

theorem exists_addTouching (enough : nodes.length + 2 ≤ fuel) {before : List RFEdge} {c : ConnectedElements}
    {inside : List String} (all : ∀ id, id ∈ inside ↔ id = selected ∨ Inside nodes id selected)
    (lit : GroupLit nodes selected before c) (e : RFEdge) :
    ∃ c', addTouching fuel nodes inside c e = some c' ∧ GroupLit nodes selected (before ++ [e]) c' := by
  have touches_iff : (e.source ∈ inside ∨ e.target ∈ inside) ↔ Touches nodes selected e := or_congr (all _) (all _)
  unfold addTouching
  split
  next touches =>
    rw [touches_iff] at touches
    obtain ⟨r, remote, -⟩ := exists_remote touches
    have same : (if e.source ∈ inside then e.target else e.source) = r := by
      rcases remote with ⟨source, rfl⟩ | ⟨outside, -, rfl⟩
      · exact if_pos ((all _).mpr source)
      · exact if_neg fun member => outside ((all _).mp member)
    obtain ⟨marked, done, lights⟩ := exists_highlightRemote nested enough lit r
    refine ⟨{ c.addEdge e with highlightedGroupIds := marked }, ?_, lit.touching touches remote lights⟩
    rw [same]
    simp only [done, Option.bind_eq_bind, Option.bind_some]
  next apart =>
    rw [touches_iff] at apart
    exact ⟨c, rfl, lit.apart apart⟩

theorem exists_groupElements (enough : nodes.length + 2 ≤ fuel) :
    ∃ c, groupElements fuel nodes edges selected = some c ∧ GroupLit nodes selected edges c := by
  obtain ⟨childIds, done, children⟩ := nested.exists_descendantIds enough
  have all : ∀ id, id ∈ selected :: childIds ↔ id = selected ∨ Inside nodes id selected := by
    intro id
    rw [List.mem_cons, children]
  have start : GroupLit nodes selected []
      { connectedNodeIds := childIds, highlightedGroupIds := (childIds.filter (isGroup nodes)).foldl add [selected] } :=
    { edgeIds := by simp
      nodeIds := by simp [children]
      groupIds := by simp [children] }
  obtain ⟨c, run, lit⟩ := exists_foldlM (GroupLit nodes selected) start fun before e c _ lit =>
    exists_addTouching nested enough all lit e
  exact ⟨c, by rw [groupElements, done]; exact run, lit⟩

section Lit

variable {c : ConnectedElements} (lit : GroupLit nodes selected edges c)
include lit

/-- Without faded groups an edge lights the selected group's parent. -/
theorem parentReached_of_unfaded
    (unfaded : ∀ id, id ∈ c.highlightedGroupIds ∨ id ∈ c.connectedNodeIds → ∀ groupId, Inside nodes id groupId →
      groupId ∈ c.highlightedGroupIds ∨ groupId ∈ c.connectedNodeIds) :
    ParentReached nodes edges (.node selected) := by
  intro _ p child
  have above : Inside nodes selected p := .single child
  have outside : ¬Inside nodes p selected := fun back => nested.acyclic p (back.trans above)
  have apart : p ≠ selected := by
    rintro rfl
    exact nested.acyclic _ above
  rcases unfaded selected (.inl ((lit.groupIds selected).mpr (.inl rfl))) p above with held | node
  · rcases (lit.groupIds p).mp held with same | ⟨below, -⟩ | ⟨e, member, r, remote, out, reached⟩
    · exact absurd same apart
    · exact absurd below outside
    · exact ⟨e, member, r, remote, out, reached.to_reflTransGen⟩
  · rcases (lit.nodeIds p).mp node with below | ⟨e, member, touches, ends⟩
    · exact absurd below outside
    · obtain ⟨r, remote, either⟩ := exists_remote touches
      obtain rfl := (either p ends).resolve_left (not_or.mpr ⟨apart, outside⟩)
      exact ⟨e, member, p, remote, outside, .refl⟩

section Reached

variable (group : isGroup nodes selected = true) (reached : ParentReached nodes edges (.node selected))
include group reached

omit nested in
/-- What is above the selected group is lit through the edge that reaches its parent. -/
theorem lit_above_selected {groupId : String} (above : Inside nodes selected groupId) :
    groupId ∈ c.highlightedGroupIds ∨ groupId ∈ c.connectedNodeIds := by
  obtain ⟨p, child, up⟩ := exists_parent above
  obtain ⟨e, member, r, remote, outside, to'⟩ := reached group p child
  rcases below_or_eq (to'.trans up) with rfl | below
  · refine .inr ((lit.nodeIds r).mpr (.inr ⟨e, member, touches_of_remote remote, ?_⟩))
    rcases remote with ⟨-, rfl⟩ | ⟨-, -, rfl⟩
    · exact .inr rfl
    · exact .inl rfl
  · exact .inl ((lit.groupIds groupId).mpr (.inr (.inr ⟨e, member, r, remote, outside, below⟩)))

/-- What is above an element of the selected group is in the group, the group itself, or above it. -/
theorem lit_above_inside {id groupId : String} (inside : id = selected ∨ Inside nodes id selected)
    (above : Inside nodes id groupId) : groupId ∈ c.highlightedGroupIds ∨ groupId ∈ c.connectedNodeIds := by
  rcases inside with rfl | inside
  · exact lit_above_selected lit group reached above
  · rcases linear inside.to_reflTransGen above.to_reflTransGen with up | down
    · rcases below_or_eq up with rfl | up
      · exact .inl ((lit.groupIds selected).mpr (.inl rfl))
      · exact lit_above_selected lit group reached up
    · rcases below_or_eq down with rfl | down
      · exact .inl ((lit.groupIds groupId).mpr (.inl rfl))
      · exact .inl ((lit.groupIds groupId).mpr (.inr (.inl ⟨down, nested.isGroup_above above⟩)))

end Reached

/-- A selected group's own groups are lit by an edge only. -/
theorem unfaded_iff (group : isGroup nodes selected = true) :
    (∀ id, id ∈ c.highlightedGroupIds ∨ id ∈ c.connectedNodeIds → ∀ groupId, Inside nodes id groupId →
      groupId ∈ c.highlightedGroupIds ∨ groupId ∈ c.connectedNodeIds) ↔
      ParentReached nodes edges (.node selected) := by
  refine ⟨parentReached_of_unfaded nested lit, fun reached => ?_⟩
  have under {id groupId : String} := @lit_above_inside _ nested _ _ _ lit group reached id groupId
  rintro id (held | node) groupId above
  · rcases (lit.groupIds id).mp held with same | ⟨below, -⟩ | ⟨e, member, r, remote, outside, below⟩
    · exact under (.inl same) above
    · exact under (.inr below) above
    · exact .inl ((lit.groupIds groupId).mpr (.inr (.inr ⟨e, member, r, remote, outside, below.trans above⟩)))
  · rcases (lit.nodeIds id).mp node with below | ⟨e, member, touches, ends⟩
    · exact under (.inr below) above
    · obtain ⟨r, remote, either⟩ := exists_remote touches
      rcases either id ends with inside | rfl
      · exact under inside above
      · by_cases inside : Inside nodes id selected
        · exact under (.inr inside) above
        · exact .inl ((lit.groupIds groupId).mpr (.inr (.inr ⟨e, member, id, remote, inside, above⟩)))

end Lit

end Group

/-! ## Every selection -/

variable {nodes : List RFNode} {edges : List RFEdge}

theorem selected_iff {selected id : String} (group : isGroup nodes selected = true) :
    Selected nodes selected id ↔ id = selected ∨ Inside nodes id selected := by
  rw [Selected, group]
  refine or_congr_right ⟨?_, fun inside => .inl ⟨rfl, inside⟩⟩
  rintro (⟨-, inside⟩ | ⟨c, s, found, named, -⟩)
  · exact inside
  · -- a group is no card
    rw [isGroup, found, Option.any_some] at group
    unfold serviceIdOf at named
    split at named
    next _ _ _ type _ =>
      rw [type] at group
      cases group
    next => cases named

theorem connected_iff {selected id : String} (group : isGroup nodes selected = true) :
    Connected nodes edges (.node selected) id ↔ ∃ e ∈ edges, e.id = id ∧ Touches nodes selected e := by
  simp only [Connected, selected_iff group, Touches]

/-- The loops end and the right edges are lit; no lit node is in a faded group exactly when the selection is no
group with a parent, or an edge lights that parent. -/
theorem lights_iff (nested : Nested nodes) (selection : SelectionState)
    (present : isSelectionPresent nodes edges selection = true) :
    Lights nodes edges selection ↔ ParentReached nodes edges selection := by
  cases selection with
  | edge selected =>
    refine ⟨fun _ => trivial, fun _ fuel enough => ?_⟩
    exact lit_highlightParents nested enough unlit_edgeElements fun id => edgeIds_edgeElements present
  | node selected =>
    have branch (fuel : Nat) : resolveConnectedElements fuel nodes edges (.node selected) =
        if isGroup nodes selected = true then groupElements fuel nodes edges selected
        else highlightParents fuel nodes (nodeElements nodes edges selected) := by
      rw [resolveConnectedElements, nested.isGroupSelection_node]
    cases group : isGroup nodes selected with
    | false =>
      refine ⟨fun _ grouped => ?_, fun _ fuel enough => ?_⟩
      · rw [group] at grouped
        cases grouped
      · rw [branch, if_neg (by simp [group])]
        exact lit_highlightParents nested enough unlit_nodeElements fun id => edgeIds_nodeElements nested group
    | true =>
      constructor
      · intro lights
        obtain ⟨c, done, lit⟩ := lights _ le_rfl
        rw [branch, if_pos group] at done
        have lit' : ∃ c, groupElements (nodes.length + 2) nodes edges selected = some c ∧ GroupLit nodes selected edges c :=
          exists_groupElements nested le_rfl
        obtain ⟨c', done', groupLit⟩ := lit'
        rw [done'] at done
        cases done
        exact (unfaded_iff nested groupLit group).mp lit.unfaded
      · intro reached fuel enough
        have lit : ∃ c, groupElements fuel nodes edges selected = some c ∧ GroupLit nodes selected edges c :=
          exists_groupElements nested enough
        obtain ⟨c, done, groupLit⟩ := lit
        refine ⟨c, ?_, (unfaded_iff nested groupLit group).mpr reached, fun id => ?_⟩
        · rw [branch, if_pos group, done]
        · rw [groupLit.edgeIds, connected_iff group]

/-- A role group with one box in it. -/
def oneBox : List RFNode :=
  [{ id := "rolegroup:manager", type := .roleGroup
     data := .roleGroup { role := .manager, nodeCount := 1, taskCount := 0 } },
   { id := "swarmnode:m1", type := .nodeGroup, parentId := some "rolegroup:manager"
     data := .swarmNodeGroup { dgNode := { id := "swarmnode:m1", type := "swarmnode", name := "m1" }, taskCount := 0 } }]

theorem nested_oneBox : Nested oneBox where
  unique := by decide
  acyclic := by
    refine acyclic_of_rank (fun id => if id = "swarmnode:m1" then 1 else 0) fun id p child => ?_
    obtain ⟨n, found, parent⟩ := Option.bind_eq_some_iff.mp child
    obtain ⟨member, rfl⟩ := mem_of_lookup_index RFNode.id found
    rcases List.mem_pair.mp member with rfl | rfl
    · cases parent
    · cases parent
      decide
  groups n member p parent := by
    rcases List.mem_pair.mp member with rfl | rfl
    · cases parent
    · cases parent
      exact ⟨_, List.mem_cons_self, rfl, rfl⟩

/-- Two machines of a role group, with a container on each. -/
def twoBoxes : List RFNode :=
  oneBox ++
    [{ id := "swarmnode:m2", type := .nodeGroup, parentId := some "rolegroup:manager"
       data := .swarmNodeGroup { dgNode := { id := "swarmnode:m2", type := "swarmnode", name := "m2" }, taskCount := 1 } },
     { id := "container:web", type := .containerNode, parentId := some "swarmnode:m1"
       data := .graphNode { id := "container:web", type := "container", name := "web" } },
     { id := "container:db", type := .containerNode, parentId := some "swarmnode:m2"
       data := .graphNode { id := "container:db", type := "container", name := "db" } }]

def webToDb : List RFEdge := [{ id := "e", source := "container:web", target := "container:db" }]

theorem nested_twoBoxes : Nested twoBoxes where
  unique := by decide
  acyclic := by
    -- the role group, the boxes and what is in them
    refine acyclic_of_rank (fun id => if id = "rolegroup:manager" then 0
      else if id = "swarmnode:m1" ∨ id = "swarmnode:m2" then 1 else 2) fun id p child => ?_
    obtain ⟨n, found, parent⟩ := Option.bind_eq_some_iff.mp child
    obtain ⟨member, rfl⟩ := mem_of_lookup_index RFNode.id found
    simp only [twoBoxes, oneBox, List.cons_append, List.nil_append, List.mem_cons, List.not_mem_nil, or_false] at member
    rcases member with rfl | rfl | rfl | rfl | rfl <;> cases parent <;> decide
  groups n member p parent := by
    simp only [twoBoxes, oneBox, List.cons_append, List.nil_append, List.mem_cons, List.not_mem_nil, or_false] at member
    rcases member with rfl | rfl | rfl | rfl | rfl <;> cases parent <;> decide

/-- The box of one end of an edge is selected; the edge lights the role group of both. -/
theorem lights_iff_twoBoxes : Lights twoBoxes webToDb (.node "swarmnode:m1") := by
  refine (lights_iff nested_twoBoxes (.node "swarmnode:m1") (by decide)).mpr fun _ p child => ?_
  obtain rfl : "rolegroup:manager" = p := Option.some.inj child
  have inside : Inside twoBoxes "container:web" "swarmnode:m1" := .single rfl
  have above : Relation.ReflTransGen (Child (parentOf twoBoxes)) "container:db" "rolegroup:manager" :=
    .head (b := "swarmnode:m2") rfl (.single rfl)
  refine ⟨_, List.mem_singleton_self _, "container:db", .inl ⟨.inr inside, rfl⟩, ?_, above⟩
  -- above the container are its own box and the role group
  intro below
  obtain ⟨p, parent, rest⟩ := exists_parent below
  obtain rfl : "swarmnode:m2" = p := Option.some.inj parent
  rcases rest.cases_head with same | ⟨q, parent, rest⟩
  · exact absurd same (by decide)
  obtain rfl : "rolegroup:manager" = q := Option.some.inj parent
  rcases rest.cases_head with same | ⟨r, parent, -⟩
  · exact absurd same (by decide)
  · cases parent

/-- A selected box is lit in its faded role group. -/
theorem not_lights_box : ¬∀ nodes edges selection, Nested nodes → isSelectionPresent nodes edges selection = true →
    Lights nodes edges selection := by
  intro all
  obtain ⟨c, done, lit⟩ := all oneBox [] (.node "swarmnode:m1") nested_oneBox (by decide) 4 le_rfl
  have found : c = { highlightedGroupIds := ["swarmnode:m1"] } := by
    cases done
    rfl
  subst found
  have faded := lit.unfaded "swarmnode:m1" (.inl List.mem_cons_self) "rolegroup:manager" (.single rfl)
  exact absurd faded (by decide)

end Dockgraph.Frontend
