import Dockgraph.Collector.Types
import Dockgraph.Library.Keyed

/-! Snapshot diffing for incremental delta updates (`state/diff.go`). -/
namespace Dockgraph.State

open Collector Keyed

/-- The comparison of two label maps in `nodeEqual`: sizes first, then every entry of `a`
against what `b` reads there. -/
def labelsEqual (a b : StringMap) : Bool :=
  a.entries.keys.card = b.entries.keys.card ∧ ∀ k ∈ a.entries.keys, b.get k = a.get k

/-- Ports are compared entry by entry, so a nil and an empty slice are equal; the three
`reflect.DeepEqual`s tell the two apart. -/
def nodeEqual (a b : Node) : Bool :=
  if a.id ≠ b.id ∨ a.type ≠ b.type ∨ a.name ≠ b.name ∨
      a.image ≠ b.image ∨ a.status ≠ b.status ∨
      a.networkID ≠ b.networkID ∨ a.driver ≠ b.driver ∨
      a.subnet ≠ b.subnet ∨ a.gateway ≠ b.gateway ∨ a.source ≠ b.source ∨
      a.createdAt ≠ b.createdAt ∨ a.stack ≠ b.stack then false
  else if a.ports.elems ≠ b.ports.elems then false
  else if !labelsEqual a.labels b.labels then false
  else a.compose = b.compose ∧ a.service = b.service ∧ a.swarmNode = b.swarmNode

def indexNodes : Option GraphSnapshot → AList (fun _ : String => Node)
  | none => ∅
  | some snap => index Node.id snap.nodes

def indexEdges : Option GraphSnapshot → AList (fun _ : String => Edge)
  | none => ∅
  | some snap => index Edge.id snap.edges

/-- Body of the loop over the new nodes. -/
def compareNode (prevNodes : AList (fun _ : String => Node)) (delta : DeltaUpdate)
    (entry : (_ : String) × Node) : DeltaUpdate :=
  match prevNodes.lookup entry.1 with
  | none => { delta with nodesAdded := delta.nodesAdded ++ [entry.2] }
  | some prevNode =>
    if !nodeEqual prevNode entry.2 then
      { delta with nodesUpdated := delta.nodesUpdated ++ [entry.2] }
    else delta

/-- Body of the loop over the old nodes. -/
def dropNode (currNodes : AList (fun _ : String => Node)) (delta : DeltaUpdate) (id : String) :
    DeltaUpdate :=
  if id ∉ currNodes then { delta with nodesRemoved := delta.nodesRemoved ++ [id] } else delta

/-- Body of the loop over the new edges: an edge is only looked up, never compared. -/
def compareEdge (prevEdges : AList (fun _ : String => Edge)) (delta : DeltaUpdate)
    (entry : (_ : String) × Edge) : DeltaUpdate :=
  if entry.1 ∉ prevEdges then { delta with edgesAdded := delta.edgesAdded ++ [entry.2] } else delta

/-- Body of the loop over the old edges. -/
def dropEdge (currEdges : AList (fun _ : String => Edge)) (delta : DeltaUpdate) (id : String) :
    DeltaUpdate :=
  if id ∉ currEdges then { delta with edgesRemoved := delta.edgesRemoved ++ [id] } else delta

/-- `ord 0` to `ord 3` are the orders of the four map iterations. -/
def diffSnapshots (ord : Nat → RangeOrder) (prev curr : Option GraphSnapshot) :
    DeltaUpdate × Bool :=
  let prevNodes := indexNodes prev
  let currNodes := indexNodes curr
  let delta := ((ord 0).visit currNodes.entries).foldl (compareNode prevNodes) {}
  let delta := ((ord 1).visit prevNodes.keys).foldl (dropNode currNodes) delta
  let prevEdges := indexEdges prev
  let currEdges := indexEdges curr
  let delta := ((ord 2).visit currEdges.entries).foldl (compareEdge prevEdges) delta
  let delta := ((ord 3).visit prevEdges.keys).foldl (dropEdge currEdges) delta
  let changed := decide (delta.nodesAdded.length > 0 ∨
    delta.nodesRemoved.length > 0 ∨
    delta.nodesUpdated.length > 0 ∨
    delta.edgesAdded.length > 0 ∨
    delta.edgesRemoved.length > 0)
  (delta, changed)

end Dockgraph.State
