import Dockgraph.Collector.Types
import Dockgraph.Library.Keyed
import Mathlib.Data.List.Sort
import Mathlib.Data.String.Basic

/-! Merging of the sources' snapshots (`state/manager.go`). -/
namespace Dockgraph.State

open Collector Keyed

structure NodeKey where
  name : String
  nodeType : String
  deriving DecidableEq

abbrev Snapshots := AList (fun _ : String => GraphSnapshot)

abbrev NodeMap := AList (fun _ : NodeKey => Node)

def nodeKey (n : Node) : NodeKey := ⟨n.name, n.type⟩

/-- Body of the loop over the sources. -/
def flattenSnapshot (acc : NodeMap × List Edge) (entry : (_ : String) × GraphSnapshot) :
    NodeMap × List Edge :=
  (entry.2.nodes.foldl (fun nodes n => nodes.insert (nodeKey n) n) acc.1, acc.2 ++ entry.2.edges)

def flattenSnapshots (ord : RangeOrder) (snaps : Snapshots) : NodeMap × List Edge :=
  (ord.visit snaps.entries).foldl flattenSnapshot (∅, [])

/-- The runtime node with what only the declarative one of its key knows. -/
def backfill (dockerNode composeNode : Node) : Node :=
  let merged := dockerNode
  let merged := if composeNode.source ≠ "" then { merged with source := composeNode.source } else merged
  if merged.networkID = "" ∧ composeNode.networkID ≠ "" then
    { merged with networkID := composeNode.networkID }
  else merged

/-- Body of the loop over the runtime nodes. -/
def mergeDockerNode (composeNodes : NodeMap) (acc : List Node × Finset NodeKey)
    (entry : (_ : NodeKey) × Node) : List Node × Finset NodeKey :=
  let seen := insert entry.1 acc.2
  match composeNodes.lookup entry.1 with
  | some composeNode => (acc.1 ++ [backfill entry.2 composeNode], seen)
  | none => (acc.1 ++ [entry.2], seen)

/-- Body of the loop over the declarative nodes. -/
def mergeComposeNode (seen : Finset NodeKey) (result : List Node) (entry : (_ : NodeKey) × Node) :
    List Node :=
  if entry.1 ∉ seen then result ++ [entry.2] else result

def mergeNodes (ord : Nat → RangeOrder) (dockerNodes composeNodes : NodeMap) : List Node :=
  let (result, seen) :=
    ((ord 0).visit dockerNodes.entries).foldl (mergeDockerNode composeNodes) ([], ∅)
  ((ord 1).visit composeNodes.entries).foldl (mergeComposeNode seen) result

def nodeIDs (nodes : List Node) : Finset String := (nodes.map Node.id).toFinset

def clearDanglingNetworkIDs (nodes : List Node) : List Node :=
  nodes.map fun n =>
    if n.networkID ≠ "" ∧ n.networkID ∉ nodeIDs nodes then { n with networkID := "" } else n

/-- The closure `add`. -/
def addEdge (ids : Finset String) (acc : List Edge × Finset String) (e : Edge) :
    List Edge × Finset String :=
  if e.id ∈ acc.2 ∨ e.source ∉ ids ∨ e.target ∉ ids then acc
  else (acc.1 ++ [e], insert e.id acc.2)

def mergeEdges (dockerEdges composeEdges : List Edge) (nodes : List Node) : List Edge :=
  let ids := nodeIDs nodes
  let acc := dockerEdges.foldl (addEdge ids) ([], ∅)
  (composeEdges.foldl (addEdge ids) acc).1

/-- `sort.Slice` by ID. It is not stable: elements of one ID come in any order. IDs compare as
their UTF-8 bytes do, which is the order of their code points. -/
def sortByID {α : Type} (ord : RangeOrder) (id : α → String) (xs : List α) : List α :=
  (ord.visit xs).insertionSort fun a b => id a ≤ id b

/-- `ord 0` to `ord 5` are the orders of the four map iterations and the two sorts. -/
def mergeSnapshots (ord : Nat → RangeOrder) (declarativeSnaps runtimeSnaps : Snapshots) :
    GraphSnapshot :=
  let (composeNodes, composeEdges) := flattenSnapshots (ord 0) declarativeSnaps
  let (dockerNodes, dockerEdges) := flattenSnapshots (ord 1) runtimeSnaps
  let nodes := mergeNodes (fun i => ord (i + 2)) dockerNodes composeNodes
  let nodes := clearDanglingNetworkIDs nodes
  let edges := mergeEdges dockerEdges composeEdges nodes
  { nodes := sortByID (ord 4) Node.id nodes, edges := sortByID (ord 5) Edge.id edges }

end Dockgraph.State
