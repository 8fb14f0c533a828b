import Dockgraph.Frontend.Flow
import Dockgraph.Library.Components
import Dockgraph.Library.Forest
import Dockgraph.Library.Grouped
import Dockgraph.Library.Keyed

/-!
# The layout graph of the network view (`layout/components.ts`, `layout/elkGraph.ts`)

Groups and free nodes are split into connected components, and each component gets its own wrapper. The
measured width of the nodes is a parameter.
-/
namespace Dockgraph.Frontend

open Components Forest Keyed

def VOLUME_NODE_HEIGHT : ℚ := 40

/-! ## ELK's types -/

/-- An edge from one source to one target. -/
structure ElkEdge where
  id : String
  source : String
  target : String
  deriving DecidableEq

structure ElkChild where
  id : String
  size : Size
  deriving DecidableEq

/-- A group, which has no size yet, or a free node. -/
structure ElkNode where
  id : String
  size : Option Size := none
  children : List ElkChild := []
  edges : List ElkEdge := []
  deriving DecidableEq

/-- What stands at the root: a node, or the wrapper of a component. -/
inductive ElkRoot
  | node (n : ElkNode)
  | wrapper (id : String) (children : List ElkNode) (edges : List ElkEdge)
  deriving DecidableEq

/-! ## Nodes by their role -/

structure ClassifiedNodes where
  groups : List RFNode
  children : List RFNode
  freeNodes : List RFNode
  childToParent : AList fun _ : String => String

def classifyNodes (nodes : List RFNode) : ClassifiedNodes :=
  let children := nodes.filter fun n => n.parent.isSome
  { groups := nodes.filter fun n => isGroupType n.type
    children
    freeNodes := nodes.filter fun n => !isGroupType n.type && n.parent.isNone
    childToParent := children.foldl (fun m c =>
      match c.parent with
      | some p => m.insert c.id p
      | none => m) ∅ }

/-! ## Components -/

section FindComponents

variable (topIds : List String) (edges : List RFEdge) (childToParent : AList fun _ : String => String)

def topOf (id : String) : Option String := childToParent.lookup id <|> if id ∈ topIds then some id else none

/-- `adj.get(s)?.add(t)`. -/
def addNeighbor (adj : AList fun _ : String => List String) (s t : String) : AList fun _ : String => List String :=
  match adj.lookup s with
  | some neighbors => adj.insert s (add neighbors t)
  | none => adj

def addLink (adj : AList fun _ : String => List String) (e : RFEdge) : AList fun _ : String => List String :=
  match truthy (topOf topIds childToParent e.source), truthy (topOf topIds childToParent e.target) with
  | some s, some t => if s ≠ t then addNeighbor (addNeighbor adj s t) t s else adj
  | _, _ => adj

def adjacency : AList fun _ : String => List String :=
  edges.foldl (addLink topIds childToParent) (topIds.foldl (fun adj id => adj.insert id []) ∅)

/-- `adj.get(id) ?? []`. -/
def neighborsOf (id : String) : List String := ((adjacency topIds edges childToParent).lookup id).getD []

/-- The search has as many steps as it can need. -/
def findComponents : Option (List (List String)) :=
  let neighbors := neighborsOf topIds edges childToParent
  components neighbors (2 + (topIds.map fun id => (neighbors id).length).sum) topIds

end FindComponents

/-! ## The hierarchy -/

def nodeHeight (rfNode : RFNode) : ℚ := if rfNode.type = .volumeNode then VOLUME_NODE_HEIGHT else CONTAINER_NODE_HEIGHT

def elkEdge (e : RFEdge) : ElkEdge := { id := e.id, source := e.source, target := e.target }

def placeholder (id : String) : ElkChild := { id := id ++ "__placeholder", size := { width := 120, height := 1 } }

section BuildElkChildren

variable (nodeMap : AList fun _ : String => RFNode) (children : List RFNode) (edges : List RFEdge)
  (childToParent : AList fun _ : String => String) (nodeWidth : ℚ)

def elkNodeOf (id : String) (rfNode : RFNode) : ElkNode :=
  if isGroupType rfNode.type then
    let groupChildren := children.filter fun n => n.parentId = some id
    { id
      children :=
        if 0 < groupChildren.length then
          groupChildren.map fun child =>
            { id := child.id
              size := { width := nodeWidth, height := nodeHeight ((nodeMap.lookup child.id).getD child) } }
        else [placeholder id] }
  else { id, size := some { width := nodeWidth, height := nodeHeight rfNode } }

/-- The top-level node that a node is in or is. -/
def liftedTop (id : String) : String := (childToParent.lookup id).getD id

/-- The group that both ends of an edge are in. -/
def sharedGroup (e : RFEdge) : Option String :=
  match truthy (childToParent.lookup e.source), truthy (childToParent.lookup e.target) with
  | some s, some t => if s = t then some s else none
  | _, _ => none

/-- One pass of the loop over the components. -/
def buildComponent (built : List ElkNode × List ElkEdge) (compIds : List String) : List ElkNode × List ElkEdge :=
  let added := compIds.filterMap fun id => (nodeMap.lookup id).map (elkNodeOf nodeMap children nodeWidth id)
  let inside := edges.filter fun e =>
    liftedTop childToParent e.source ∈ compIds ∧ liftedTop childToParent e.target ∈ compIds
  let groupEdgeMap := group (sharedGroup childToParent) elkEdge inside
  ((built.1 ++ added).map fun elkChild =>
    match groupEdgeMap.lookup elkChild.id with
    | some groupEdges => { elkChild with edges := groupEdges }
    | none => elkChild,
  built.2 ++ (inside.filter fun e => sharedGroup childToParent e = none).map elkEdge)

def buildElkChildren (components : List (List String)) : List ElkNode × List ElkEdge :=
  components.foldl (buildComponent nodeMap children edges childToParent nodeWidth) ([], [])

end BuildElkChildren

/-- A component of one node without edges needs no wrapper. -/
def wrapComponents (components : List (List String)) (elkChildren : List ElkNode) (rootEdges : List ElkEdge)
    (childToParent : AList fun _ : String => String) : List ElkRoot :=
  components.map fun compIds =>
    let compChildren := elkChildren.filter fun c => c.id ∈ compIds
    let compEdges := rootEdges.filter fun e =>
      liftedTop childToParent e.source ∈ compIds ∧ liftedTop childToParent e.target ∈ compIds
    match compChildren, compEdges with
    | [child], [] => .node child
    | _, _ => .wrapper ("__comp_" ++ compIds.headD "undefined") compChildren compEdges

def topIds (nodes : List RFNode) : List String :=
  (classifyNodes nodes).groups.map RFNode.id ++ (classifyNodes nodes).freeNodes.map RFNode.id

/-- The steps of `computeLayout` up to the call of ELK: the components, and the children of its root. -/
def layoutGraph (nodes : List RFNode) (edges : List RFEdge) (nodeWidth : ℚ) :
    Option (List (List String) × List ElkRoot) :=
  let classified := classifyNodes nodes
  (findComponents (topIds nodes) edges classified.childToParent).map fun components =>
    let built := buildElkChildren (index RFNode.id nodes) classified.children edges classified.childToParent nodeWidth
      components
    (components, wrapComponents components built.1 built.2 classified.childToParent)

end Dockgraph.Frontend
