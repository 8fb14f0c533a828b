import Dockgraph.Frontend.Flow
import Dockgraph.Library.Forest
import Dockgraph.Library.Grouped

/-!
# What a selection lights (`utils/selectionGraph.ts`)

The loops that follow parents and children take a bound on their rounds. Without rounds left there is
no result.
-/
namespace Dockgraph.Frontend

open Forest Keyed

inductive SelectionState
  | node (id : String)
  | edge (id : String)

/-- Sets, in the order of what was added. -/
structure ConnectedElements where
  connectedEdgeIds : List String := []
  connectedNodeIds : List String := []
  highlightedGroupIds : List String := []

/-- Graph ID of the service of a card. -/
def serviceIdOf (n : RFNode) : Option String :=
  match n.type, n.data with
  | .nodeServiceCard, .nodeServiceCard data => some data.serviceId
  | _, _ => none

/-- `nodeById.get(id)`. -/
def nodeById (nodes : List RFNode) (id : String) : Option RFNode := (index RFNode.id nodes).lookup id

/-- `nodeById.get(id)?.parentId`. -/
def parentOf (nodes : List RFNode) (id : String) : Option String := (nodeById nodes id).bind RFNode.parent

def isGroup (nodes : List RFNode) (id : String) : Bool := (nodeById nodes id).any fun n => isGroupType n.type

/-- `byParent.get(id) ?? []`. -/
def childrenIds (nodes : List RFNode) (id : String) : List String :=
  ((group RFNode.parent RFNode.id nodes).lookup id).getD []

def descendantIds (fuel : Nat) (groupId : String) (nodes : List RFNode) : Option (List String) :=
  descend (childrenIds nodes) fuel [groupId] []

def isSelectionPresent (nodes : List RFNode) (edges : List RFEdge) : SelectionState → Bool
  | .node id => nodes.any fun n => n.id = id
  | .edge id => edges.any fun e => e.id = id

/-- The edge and both its ends. -/
def ConnectedElements.addEdge (c : ConnectedElements) (e : RFEdge) : ConnectedElements :=
  { c with
    connectedEdgeIds := add c.connectedEdgeIds e.id
    connectedNodeIds := add (add c.connectedNodeIds e.source) e.target }

section

variable (fuel : Nat) (nodes : List RFNode) (edges : List RFEdge)

/-- The `while` loop over the groups above a node. -/
def highlightAbove (id : String) (highlighted : List String) : Option (List String) :=
  climb (parentOf nodes) fuel (parentOf nodes id) highlighted

/-- One pass of the loop over the edges for a selected group: `inside` is the group and all in it. -/
def addTouching (inside : List String) (c : ConnectedElements) (e : RFEdge) : Option ConnectedElements :=
  if e.source ∈ inside ∨ e.target ∈ inside then do
    let remoteId := if e.source ∈ inside then e.target else e.source
    let highlighted ← highlightAbove fuel nodes remoteId c.highlightedGroupIds
    some { c.addEdge e with highlightedGroupIds := highlighted }
  else some c

/-- The branch of a selected group. -/
def groupElements (id : String) : Option ConnectedElements := do
  let childIds ← descendantIds fuel id nodes
  let start : ConnectedElements :=
    { connectedNodeIds := childIds
      highlightedGroupIds := (childIds.filter (isGroup nodes)).foldl add [id] }
  edges.foldlM (addTouching fuel nodes (id :: childIds)) start

/-- The selected node, and for a service card the cards of its service. -/
def originsOf (id : String) : List String :=
  match truthy ((nodes.find? fun n => n.id = id).bind serviceIdOf) with
  | some serviceId => ((nodes.filter fun n => serviceIdOf n = some serviceId).map RFNode.id).foldl add [id]
  | none => [id]

/-- The branch of any other selected node. -/
def nodeElements (id : String) : ConnectedElements :=
  let origins := originsOf nodes id
  edges.foldl (fun c e => if e.source ∈ origins ∨ e.target ∈ origins then c.addEdge e else c)
    { connectedNodeIds := origins }

/-- An end of a selected edge that is a group takes what is in it along. -/
def addChildren (c : ConnectedElements) (endpointId : String) : ConnectedElements :=
  if isGroup nodes endpointId then
    { c with
      connectedNodeIds :=
        ((nodes.filter fun n => n.parentId = some endpointId).map RFNode.id).foldl add c.connectedNodeIds }
  else c

/-- The branch of a selected edge. -/
def edgeElements (id : String) : ConnectedElements :=
  match edges.find? fun e => e.id = id with
  | none => {}
  | some edge => [edge.source, edge.target].foldl (addChildren nodes) (({} : ConnectedElements).addEdge edge)

/-- The last loop: the groups above all that is connected. -/
def highlightParents (c : ConnectedElements) : Option ConnectedElements := do
  let highlighted ← c.connectedNodeIds.foldlM (fun marked id => highlightAbove fuel nodes id marked)
    c.highlightedGroupIds
  some { c with highlightedGroupIds := highlighted }

def isGroupSelection : SelectionState → Bool
  | .node id => (nodes.find? fun n => n.id = id).any fun n => isGroupType n.type
  | .edge _ => false

def resolveConnectedElements (selection : SelectionState) : Option ConnectedElements :=
  match selection with
  | .node id =>
    if isGroupSelection nodes selection then groupElements fuel nodes edges id
    else highlightParents fuel nodes (nodeElements nodes edges id)
  | .edge id => highlightParents fuel nodes (edgeElements nodes edges id)

end

end Dockgraph.Frontend
