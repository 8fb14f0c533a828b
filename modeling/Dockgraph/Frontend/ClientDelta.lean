import Dockgraph.Frontend.DeltaUtils
import Dockgraph.Frontend.Wire
import Dockgraph.State.DiffCompleteness

/-!
# Client and server deltas

The client merges an updated node into the one it has by object spread. An emptied
field is not on the wire, so the merge keeps its old value: the client follows the
server exactly as long as no field of a node is emptied.
-/
namespace Dockgraph.Frontend

open Collector (Node Slice StringMap GraphSnapshot)
open State Keyed

/-- The delta as the server means it, on decoded nodes and edges. -/
def Graph.patchDecoded (d : Collector.DeltaUpdate) (g : Graph) : Graph where
  nodes := Keyed.patch DGNode.id (d.nodesAdded.map encodeNode) d.nodesRemoved
    (d.nodesUpdated.map encodeNode) g.nodes
  edges := Keyed.patch DGEdge.id (d.edgesAdded.map encodeEdge) d.edgesRemoved [] g.edges

/-- The `omitempty` fields of a node under their JSON names, with when each is left out. -/
def omittedFields : List (String × (Node → Bool)) :=
  [("image", fun n => n.image = ""),
   ("status", fun n => n.status = ""),
   ("ports", fun n => n.ports.elems = []),
   ("labels", fun n => n.labels.entries = ∅),
   ("networkId", fun n => n.networkID = ""),
   ("driver", fun n => n.driver = ""),
   ("subnet", fun n => n.subnet = ""),
   ("gateway", fun n => n.gateway = ""),
   ("source", fun n => n.source = ""),
   ("createdAt", fun n => n.createdAt = ""),
   ("compose", fun n => n.compose = none),
   ("stack", fun n => n.stack = ""),
   ("service", fun n => n.service = none),
   ("swarmNode", fun n => n.swarmNode = none)]

/-- No optional field set in `old` is empty in `new`. -/
def FieldsKept (old new : Node) : Prop :=
  ∀ field ∈ omittedFields, field.2 new = true → field.2 old = true

instance (old new : Node) : Decidable (FieldsKept old new) :=
  inferInstanceAs (Decidable (∀ field ∈ omittedFields, _))

/-! ## Object spread -/

theorem orElse_eq_left_iff {α : Type} (a b : Option α) : (a <|> b) = a ↔ (a = none → b = none) := by
  cases a <;> simp

@[simp] theorem omitString_eq_none (s : String) : omitString s = none ↔ s = "" := by
  simp [omitString]

@[simp] theorem omitSlice_eq_none {α β : Type} (encode : α → β) (s : Slice α) :
    omitSlice encode s = none ↔ s.elems = [] := by
  simp [omitSlice]

@[simp] theorem omitMap_eq_none (m : StringMap) : omitMap m = none ↔ m.entries = ∅ := by
  simp [omitMap]

/-- Spreading a decoded update over the decoded old node yields the update itself unless a field
was emptied. -/
theorem spread_eq_iff (old new : Node) :
    (encodeNode old).spread (encodeNode new) = encodeNode new ↔ FieldsKept old new := by
  simp only [DGNode.spread, encodeNode, DGNode.mk.injEq, orElse_eq_left_iff, omitString_eq_none,
    omitSlice_eq_none, omitMap_eq_none, Option.map_eq_none_iff, true_and, FieldsKept, omittedFields,
    List.forall_mem_cons, decide_eq_true_eq, List.not_mem_nil, false_implies, implies_true, and_true]

theorem entries_eq_empty_iff (m : StringMap) : m.entries = ∅ ↔ m.entries.keys.card = 0 := by
  rw [Finset.card_eq_zero]
  constructor
  · intro empty
    rw [empty, Finmap.keys_empty]
  · intro empty
    apply Finmap.ext_lookup
    intro k
    have absent : k ∉ m.entries := fun member => by simpa [empty] using Finmap.mem_keys.mpr member
    rw [Finmap.lookup_eq_none.mpr absent, Finmap.lookup_empty]

/-- Nodes the server takes for equal have the same fields set. -/
theorem fieldsKept_of_nodeEqual {old new : Node} (equal : nodeEqual old new = true) :
    FieldsKept old new := by
  obtain ⟨others, labels⟩ := (nodeEqual_iff old new).mp equal
  have sizes : old.labels.entries.keys.card = new.labels.entries.keys.card := by
    rcases (labelsEqual_iff _ _).mp labels with same | ⟨sizes, _⟩
    · rw [same]
    · exact sizes
  have same := normalize_eq_of_nodeEqual others rfl
  simp only [Node.normalize, Node.mk.injEq, Option.some.injEq, true_and] at same
  obtain ⟨_, _, _, image, status, ports, networkID, subnet, gateway, driver, source, createdAt,
    compose, stack, service, swarmNode⟩ := same
  have composeSet : new.compose = none → old.compose = none := fun none => by
    simpa [none] using compose
  have serviceSet : new.service = none → old.service = none := fun none => by
    simpa [none] using service
  simp only [FieldsKept, omittedFields, List.forall_mem_cons, decide_eq_true_eq, List.not_mem_nil,
    false_implies, implies_true, and_true, entries_eq_empty_iff, image, status, ports, sizes,
    networkID, subnet, gateway, driver, source, createdAt, stack, swarmNode, imp_self, true_and]
  exact ⟨composeSet, serviceSet⟩

/-! ## The loop over the updates -/

/-- What the loop leaves of one node: the first update of its ID spread over it. -/
def spreadUpdate (updated : List DGNode) (node : DGNode) : DGNode :=
  match updated.find? fun u => u.id = node.id with
  | some update => node.spread update
  | none => node

theorem spreadUpdate_id (updated : List DGNode) (node : DGNode) :
    (spreadUpdate updated node).id = node.id := by
  unfold spreadUpdate
  split
  next update found =>
    have hit : update.id = node.id := by simpa using List.find?_some found
    exact hit
  next => rfl

theorem mergeUpdate_cons (node : DGNode) (rest : List DGNode) (update : DGNode) :
    mergeUpdate (node :: rest) update =
      if node.id = update.id then node.spread update :: rest
      else node :: mergeUpdate rest update := by
  by_cases hit : node.id = update.id
  · simp [mergeUpdate, List.findIdx?_cons, hit]
  · simp only [mergeUpdate, List.findIdx?_cons, hit, decide_false, if_false]
    cases rest.findIdx? (fun n => n.id = update.id) <;> simp

theorem map_id_mergeUpdate (nodes : List DGNode) (update : DGNode) :
    (mergeUpdate nodes update).map DGNode.id = nodes.map DGNode.id := by
  induction nodes with
  | nil => rfl
  | cons node rest ih =>
    rw [mergeUpdate_cons]
    split
    next hit => simp [DGNode.spread, hit]
    · simp [ih]

theorem map_id_foldl_mergeUpdate (updated nodes : List DGNode) :
    (updated.foldl mergeUpdate nodes).map DGNode.id = nodes.map DGNode.id := by
  induction updated generalizing nodes with
  | nil => rfl
  | cons update rest ih => rw [List.foldl_cons, ih, map_id_mergeUpdate]

theorem mergeUpdate_eq_map {nodes : List DGNode} (unique : (nodes.map DGNode.id).Nodup)
    (update : DGNode) : mergeUpdate nodes update = nodes.map (spreadUpdate [update]) := by
  induction nodes with
  | nil => rfl
  | cons node rest ih =>
    obtain ⟨fresh, unique⟩ := List.nodup_cons.mp unique
    rw [mergeUpdate_cons]
    split
    next hit =>
      -- The index found is the head's; no later node has the ID.
      have untouched : rest.map (spreadUpdate [update]) = rest := by
        refine (List.map_congr_left fun n member => ?_).trans (List.map_id rest)
        have other : update.id ≠ n.id := fun same =>
          fresh (by rw [hit, same]; exact List.mem_map_of_mem member)
        simp [spreadUpdate, other]
      simp [spreadUpdate, hit, untouched]
    next missed =>
      have kept : spreadUpdate [update] node = node := by simp [spreadUpdate, Ne.symm missed]
      rw [List.map_cons, kept, ih unique]

theorem foldl_mergeUpdate {nodes updated : List DGNode} (unique : (nodes.map DGNode.id).Nodup)
    (uniqueU : (updated.map DGNode.id).Nodup) :
    updated.foldl mergeUpdate nodes = nodes.map (spreadUpdate updated) := by
  induction updated generalizing nodes with
  | nil =>
    have kept : spreadUpdate [] = id := by funext n; rfl
    simp [kept]
  | cons update rest ih =>
    obtain ⟨fresh, uniqueU⟩ := List.nodup_cons.mp uniqueU
    have ids : (nodes.map (spreadUpdate [update])).map DGNode.id = nodes.map DGNode.id := by
      rw [List.map_map]
      exact List.map_congr_left fun n _ => spreadUpdate_id [update] n
    rw [List.foldl_cons, mergeUpdate_eq_map unique, ih (by rwa [ids]) uniqueU, List.map_map]
    refine List.map_congr_left fun n _ => ?_
    by_cases hit : update.id = n.id
    · -- A node updated once meets no later update of its ID.
      have later : rest.find? (fun u => u.id = n.id) = none :=
        List.find?_eq_none.mpr fun u member => by
          simpa using fun same : u.id = n.id =>
            fresh (by rw [hit, ← same]; exact List.mem_map_of_mem member)
      have spreadId : (n.spread update).id = n.id := hit
      simp [spreadUpdate, hit, spreadId, later]
    · simp [spreadUpdate, hit]

/-! ## Refinement -/

/-- An absent part of a delta changes nothing. -/
theorem applyDelta_eq (g : Graph) (d : DeltaUpdate) :
    applyDelta g d =
      { nodes := (d.nodesUpdated.getD []).foldl mergeUpdate
          (remove DGNode.id (d.nodesRemoved.getD []) g.nodes ++ d.nodesAdded.getD [])
        edges := remove DGEdge.id (d.edgesRemoved.getD []) g.edges ++ d.edgesAdded.getD [] } := by
  obtain ⟨added, removed, updated, edgesAdded, edgesRemoved⟩ := d
  cases added <;> cases removed <;> cases updated <;> cases edgesAdded <;> cases edgesRemoved <;>
    simp [applyDelta, remove]

theorem getD_omitList {α β : Type} (encode : α → β) (xs : List α) :
    (omitList encode xs).getD [] = xs.map encode := by
  cases xs <;> rfl

theorem applyDelta_encoded (d : Collector.DeltaUpdate) (g : Graph) :
    applyDelta g (encodeDelta d) =
      { nodes := (d.nodesUpdated.map encodeNode).foldl mergeUpdate
          (remove DGNode.id d.nodesRemoved g.nodes ++ d.nodesAdded.map encodeNode)
        edges := remove DGEdge.id d.edgesRemoved g.edges ++ d.edgesAdded.map encodeEdge } := by
  simp only [applyDelta_eq, encodeDelta, getD_omitList, List.map_id]

/-- One updated node: the merge and the replacement agree when the spread keeps nothing old. -/
theorem spreadUpdate_eq_iff {updated : List Node} (unique : (updated.map Node.id).Nodup) (p : Node) :
    spreadUpdate (updated.map encodeNode) (encodeNode p) =
        replacement DGNode.id (updated.map encodeNode) (encodeNode p) ↔
      ∀ c ∈ updated, p.id = c.id → FieldsKept p c := by
  simp only [spreadUpdate, replacement]
  constructor
  · intro agree c member same
    have found : (updated.map encodeNode).find? (fun u => u.id = (encodeNode p).id) =
        some (encodeNode c) := by
      have uniqueE : ((updated.map encodeNode).map DGNode.id).Nodup := by
        simpa only [List.map_map, Function.comp_def, encodeNode_id] using unique
      exact (find?_key_eq_some DGNode.id uniqueE).mpr ⟨List.mem_map_of_mem member, same.symm⟩
    rw [found] at agree
    exact (spread_eq_iff p c).mp agree
  · intro kept
    cases found : (updated.map encodeNode).find? fun u => u.id = (encodeNode p).id with
    | none => rfl
    | some u =>
      obtain ⟨c, member, rfl⟩ := List.mem_map.mp (List.mem_of_find?_eq_some found)
      have hit := List.find?_some found
      have same : c.id = p.id := of_decide_eq_true hit
      exact (spread_eq_iff p c).mpr (kept c member same.symm)

section Refinement

variable {prev curr : GraphSnapshot} {d : Collector.DeltaUpdate}
variable (unique : prev.UniqueIDs)
variable (diff : IsDiff Node.id nodeEqual prev.nodes (indexed curr).nodes
  d.nodesAdded d.nodesRemoved d.nodesUpdated)
include unique diff

theorem applyDelta_nodes_iff :
    (applyDelta (encodeSnapshot prev) (encodeDelta d)).nodes.Perm
        ((encodeSnapshot prev).patchDecoded d).nodes ↔
      ∀ p ∈ prev.nodes, ∀ c ∈ (indexed curr).nodes, p.id = c.id → FieldsKept p c := by
  have kept : remove DGNode.id d.nodesRemoved (prev.nodes.map encodeNode) ++
      d.nodesAdded.map encodeNode =
      (remove Node.id d.nodesRemoved prev.nodes ++ d.nodesAdded).map encodeNode := by
    rw [List.map_append, remove, remove, List.filter_map]
    rfl
  have uniqueKept :
      (((remove Node.id d.nodesRemoved prev.nodes ++ d.nodesAdded).map encodeNode).map
        DGNode.id).Nodup := by
    have patched := diff.patch_nodup unique.nodes
    rw [map_key_patch] at patched
    simpa only [List.map_map, Function.comp_def, encodeNode_id] using patched
  have uniqueU : ((d.nodesUpdated.map encodeNode).map DGNode.id).Nodup := by
    simpa only [List.map_map, Function.comp_def, encodeNode_id] using diff.updated_nodup
  rw [applyDelta_encoded, Graph.patchDecoded, encodeSnapshot, Keyed.patch, kept,
    foldl_mergeUpdate uniqueKept uniqueU,
    map_perm_map_iff DGNode.id uniqueKept (spreadUpdate_id _) (key_replacement DGNode.id _)]
  simp only [List.forall_mem_map, spreadUpdate_eq_iff diff.updated_nodup]
  constructor
  · intro exact p hp c hc same
    cases equal : nodeEqual p c with
    | true => exact fieldsKept_of_nodeEqual equal
    | false =>
      have stays : p ∈ remove Node.id d.nodesRemoved prev.nodes :=
        diff.mem_remove.mpr ⟨hp, c, hc, same⟩
      have listed : c ∈ d.nodesUpdated := (diff.mem_updated c).mpr ⟨hc, p, hp, same, equal⟩
      exact exact p (List.mem_append_left _ stays) c listed same
  · intro keeps p hp c hc same
    obtain ⟨present, q, hq, sameQ, _⟩ := (diff.mem_updated c).mp hc
    rcases List.mem_append.mp hp with hp | hp
    · exact keeps p (diff.mem_remove.mp hp).1 c present same
    · -- An added node's ID is not one of the old graph, so no update names it.
      exact absurd (sameQ.trans same.symm) (((diff.mem_added p).mp hp).2 q hq)

end Refinement

/-- The client's graph after the delta is the server's meaning of it exactly when no field set in
an old node is empty in its new one. -/
theorem applyDelta_refines_iff (ord : Nat → RangeOrder) (prev curr : GraphSnapshot)
    (unique : prev.UniqueIDs) :
    ((applyDelta (encodeSnapshot prev)
          (encodeDelta (diffSnapshots ord (some prev) (some curr)).1)).nodes.Perm
        ((encodeSnapshot prev).patchDecoded (diffSnapshots ord (some prev) (some curr)).1).nodes ∧
      (applyDelta (encodeSnapshot prev)
          (encodeDelta (diffSnapshots ord (some prev) (some curr)).1)).edges.Perm
        ((encodeSnapshot prev).patchDecoded (diffSnapshots ord (some prev) (some curr)).1).edges) ↔
    ∀ p ∈ prev.nodes, ∀ c, (indexNodes (some curr)).lookup p.id = some c → FieldsKept p c := by
  have diff := (diff_nodes ord prev curr).congr
    (fun _ => mem_values_index Node.id unique.nodes) (fun _ => Iff.rfl)
  have edges : (applyDelta (encodeSnapshot prev)
      (encodeDelta (diffSnapshots ord (some prev) (some curr)).1)).edges.Perm
      ((encodeSnapshot prev).patchDecoded (diffSnapshots ord (some prev) (some curr)).1).edges := by
    rw [applyDelta_encoded, Graph.patchDecoded, patch_no_updates]
  rw [and_iff_left edges, applyDelta_nodes_iff unique diff]
  refine forall₂_congr fun p _ => forall_congr' fun c => ?_
  constructor
  · intro kept found
    exact kept (mem_values.mpr ⟨p.id, found⟩) (mem_of_lookup_index Node.id found).2.symm
  · intro kept member same
    obtain ⟨k, found⟩ := mem_values.mp member
    obtain rfl : c.id = k := (mem_of_lookup_index Node.id found).2
    exact kept (same ▸ found)

/-- A container on a network, and the same container once the network is gone. -/
def networked (networkID : String) (networks : List String) : GraphSnapshot where
  nodes := { id := "container:web", type := "container", name := "web", networkID } ::
    networks.map fun name => { id := "network:" ++ name, type := "network", name }

theorem applyDelta_refines_networked :
    (applyDelta (encodeSnapshot (networked "" [])) (encodeDelta (diffSnapshots (fun _ => .asWritten)
        (some (networked "" [])) (some (networked "network:app" ["app"]))).1)).nodes.Perm
      ((encodeSnapshot (networked "" [])).patchDecoded (diffSnapshots (fun _ => .asWritten)
        (some (networked "" [])) (some (networked "network:app" ["app"]))).1).nodes :=
  ((applyDelta_refines_iff (fun _ => .asWritten) (networked "" []) (networked "network:app" ["app"])
    (by decide)).mpr fun p hp c found => by
      obtain rfl := List.mem_singleton.mp hp
      rw [show (indexNodes (some (networked "network:app" ["app"]))).lookup "container:web" =
        some { id := "container:web", type := "container", name := "web",
               networkID := "network:app" } from rfl] at found
      cases found
      decide).1

theorem applyDelta_keeps_cleared_network :
    ¬∀ (ord : Nat → RangeOrder) (prev curr : GraphSnapshot), prev.UniqueIDs →
      (applyDelta (encodeSnapshot prev)
          (encodeDelta (diffSnapshots ord (some prev) (some curr)).1)).nodes.Perm
        ((encodeSnapshot prev).patchDecoded (diffSnapshots ord (some prev) (some curr)).1).nodes ∧
      (applyDelta (encodeSnapshot prev)
          (encodeDelta (diffSnapshots ord (some prev) (some curr)).1)).edges.Perm
        ((encodeSnapshot prev).patchDecoded (diffSnapshots ord (some prev) (some curr)).1).edges := by
  intro refines
  have nodes := (refines (fun _ => .asWritten) (networked "network:app" ["app"]) (networked "" [])
    (by decide)).1
  exact absurd nodes (by decide)

end Dockgraph.Frontend
