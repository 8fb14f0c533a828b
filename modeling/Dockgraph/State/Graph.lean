import Dockgraph.Collector.Types
import Dockgraph.Library.Keyed

/-!
# Graphs up to order

What a reader of the graph can tell apart: the nodes and edges as collections,
with an absent list or map read as an empty one, and the effect a delta is meant
to have on them.
-/
namespace Dockgraph.Collector

open Keyed

def ComposeConfig.normalize (c : ComposeConfig) : ComposeConfig :=
  { c with
    command := some c.command.elems
    entrypoint := some c.entrypoint.elems
    environment := some c.environment.entries
    labels := some c.labels.entries
    dependsOn := some c.dependsOn.elems
    volumes := some c.volumes.elems
    networks := some c.networks.elems
    capAdd := some c.capAdd.elems
    capDrop := some c.capDrop.elems }

def ServiceInfo.normalize (s : ServiceInfo) : ServiceInfo :=
  { s with tasks := some s.tasks.elems }

/-- The node with every nil list and map made empty. -/
def Node.normalize (n : Node) : Node :=
  { n with
    ports := some n.ports.elems
    labels := some n.labels.entries
    compose := n.compose.map ComposeConfig.normalize
    service := n.service.map ServiceInfo.normalize }

@[simp] theorem Node.normalize_id (n : Node) : n.normalize.id = n.id := rfl

namespace GraphSnapshot

structure UniqueIDs (s : GraphSnapshot) : Prop where
  nodes : (s.nodes.map Node.id).Nodup
  edges : (s.edges.map Edge.id).Nodup

instance (s : GraphSnapshot) : Decidable s.UniqueIDs :=
  decidable_of_iff ((s.nodes.map Node.id).Nodup ∧ (s.edges.map Edge.id).Nodup)
    ⟨fun h => ⟨h.1, h.2⟩, fun h => ⟨h.nodes, h.edges⟩⟩

/-- Equality up to order, every field of every node and edge included. -/
def Same (a b : GraphSnapshot) : Prop :=
  (a.nodes.map Node.normalize).Perm (b.nodes.map Node.normalize) ∧ a.edges.Perm b.edges

instance (a b : GraphSnapshot) : Decidable (a.Same b) := inferInstanceAs (Decidable (_ ∧ _))

instance : Setoid GraphSnapshot where
  r := Same
  iseqv := ⟨fun _ => ⟨.refl _, .refl _⟩, fun h => ⟨h.1.symm, h.2.symm⟩,
    fun h k => ⟨h.1.trans k.1, h.2.trans k.2⟩⟩

instance (a b : GraphSnapshot) : Decidable (a ≈ b) := inferInstanceAs (Decidable (a.Same b))

/-- The delta as it is meant: removal by ID, appending of the added elements, replacement of
each updated node by its whole new value. -/
def patch (d : DeltaUpdate) (s : GraphSnapshot) : GraphSnapshot where
  nodes := Keyed.patch Node.id d.nodesAdded d.nodesRemoved d.nodesUpdated s.nodes
  edges := Keyed.patch Edge.id d.edgesAdded d.edgesRemoved [] s.edges

theorem patch_congr (d : DeltaUpdate) {a b : GraphSnapshot} (same : a ≈ b) :
    patch d a ≈ patch d b := by
  obtain ⟨nodes, edges⟩ := same
  constructor
  · exact patch_perm Node.id Node.normalize Node.id Node.normalize_id _ _ _ nodes
  · have images : (a.edges.map id).Perm (b.edges.map id) := edges.map id
    have patched :=
      patch_perm Edge.id id Edge.id (fun _ => rfl) d.edgesAdded d.edgesRemoved [] images
    rwa [List.map_id, List.map_id] at patched

end GraphSnapshot

end Dockgraph.Collector
