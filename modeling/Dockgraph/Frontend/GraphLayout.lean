import Dockgraph.Frontend.NodeTransform

/-!
# When to lay out again (`hooks/useGraphLayout.ts`)

A key stands for the structure of what is drawn. While the key stays the same, new data is written into the
nodes and edges that are laid out.
-/
namespace Dockgraph.Frontend

open Keyed

inductive GroupBy
  | network
  | node
  deriving DecidableEq

/-- A node's line of the key: the network it is in, or a mark where it has neither network nor compose file. -/
def networkRow (n : DGNode) : String :=
  n.id ++ ">" ++ n.networkId.getD (if (truthy n.source).isSome then "" else "!")

def topologyKey (localeCompare : String → String → Int) (dgNodes : List DGNode) (dgEdges : List DGEdge)
    (groupBy : GroupBy) (localNodeId : Option String) : String :=
  match groupBy with
  | .node => "node|" ++ nodeGroupedTopologyKey localeCompare dgNodes localNodeId
  | .network =>
    let nk := CodeUnits.join ',' (CodeUnits.sort (dgNodes.map networkRow))
    let ek := CodeUnits.join ',' (CodeUnits.sort (dgEdges.map DGEdge.id))
    "network|" ++ nk ++ "|" ++ ek

/-- The nodes and edges for the chosen grouping. The per-node view draws no edges. -/
def buildFlow (networkColor : String → Option String → String) (localeCompare : String → String → Int)
    (dgNodes : List DGNode) (dgEdges : List DGEdge) (edgeStroke accentStroke : String) (groupBy : GroupBy)
    (localNodeId : Option String) : List RFNode × List RFEdge :=
  match groupBy with
  | .node => (toNodeGroupedFlowNodes localeCompare dgNodes localNodeId, [])
  | .network =>
    (toReactFlowNodes dgNodes dgEdges, toReactFlowEdges networkColor dgEdges dgNodes edgeStroke accentStroke)

/-! ## The update in place -/

def updateEdges (rfEdges prev : List RFEdge) : List RFEdge :=
  prev.map fun e =>
    match (index RFEdge.id rfEdges).lookup e.id with
    | some updated => { e with data := updated.data <|> e.data, stroke := updated.stroke }
    | none => e

/-- New data, at the old place and with the old width. -/
def updateNodes (rfNodes prev : List RFNode) : List RFNode :=
  prev.map fun n =>
    match (index RFNode.id rfNodes).lookup n.id with
    | some updated => { n with data := updated.data, nodeWidth := updated.nodeWidth <|> n.nodeWidth }
    | none => n

end Dockgraph.Frontend
