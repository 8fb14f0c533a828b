import Dockgraph.Frontend.Flow
import Dockgraph.Library.Grouped
import Dockgraph.Library.Keyed
import Dockgraph.Library.Rect
import Mathlib.Algebra.Order.Ring.Rat

/-!
# The layout of the per-node view (`layout/nodeLayout.ts`, `utils/constants.ts`)

Sizes are found from the cards up, positions from the canvas down. Positions are rational numbers.
-/
namespace Dockgraph.Frontend

open Keyed Layout

/-! ## Measures -/

def SERVICE_CARD_HEADER_HEIGHT : ℚ := 28

def SERVICE_CARD_ROW_HEIGHT : ℚ := 20

def SERVICE_CARD_PADDING_BOTTOM : ℚ := 6

def NODE_BOX_HEADER_HEIGHT : ℚ := 66

def NODE_BOX_MIN_HEIGHT : ℚ := 108

def NODE_BOX_WIDTH : ℚ := 300

def NODE_BOX_PADDING : ℚ := 12

def CARD_GAP : ℚ := 8

def BOX_GAP_X : ℚ := 20

def BOX_GAP_Y : ℚ := 20

def MAX_WORKERS_PER_ROW : Nat := 5

def ROLE_GROUP_PADDING_TOP : ℚ := 40

def ROLE_GROUP_PADDING_X : ℚ := 18

def ROLE_GROUP_PADDING_BOTTOM : ℚ := 18

def SECTION_GAP : ℚ := 40

def FREE_GAP : ℚ := 20

def FREE_NODE_WIDTH : ℚ := 220

def CARD_WIDTH : ℚ := NODE_BOX_WIDTH - 2 * NODE_BOX_PADDING

def serviceCardHeight (rows : Nat) : ℚ :=
  SERVICE_CARD_HEADER_HEIGHT + rows * SERVICE_CARD_ROW_HEIGHT + SERVICE_CARD_PADDING_BOTTOM

/-- The tasks of a service's card. -/
def cardTasks (n : RFNode) : List TaskInfo :=
  match n.data with
  | .nodeServiceCard card => card.tasks
  | _ => []

def itemHeight (n : RFNode) : ℚ :=
  if n.type = .nodeServiceCard then serviceCardHeight (cardTasks n).length else CONTAINER_NODE_HEIGHT

def isManagerGroup (n : RFNode) : Bool :=
  match n.data with
  | .roleGroup data => data.role = .manager
  | _ => false

/-! ## Places -/

def place (n : RFNode) (x y : ℚ) (size : Option Size := none) (nodeWidth : Option ℚ := none) : RFNode :=
  { n with position := { x, y }, style := size <|> n.style, nodeWidth := nodeWidth <|> n.nodeWidth }

section Places

variable (nodes : List RFNode)

def childrenOf (parent : String) : List RFNode := ((group RFNode.parent id nodes).lookup parent).getD []

/-- The height that a box needs for its cards. -/
def boxHeight (box : RFNode) : ℚ :=
  let items := childrenOf nodes box.id
  if items = [] then NODE_BOX_MIN_HEIGHT
  else
    let content := (items.map itemHeight).sum + CARD_GAP * (items.length - 1)
    max NODE_BOX_MIN_HEIGHT (NODE_BOX_HEADER_HEIGHT + content + NODE_BOX_PADDING)

def placeBoxContent (box : RFNode) : List RFNode :=
  along (fun item => itemHeight item + CARD_GAP) (fun item y => place item NODE_BOX_PADDING y none (some CARD_WIDTH))
    NODE_BOX_HEADER_HEIGHT (childrenOf nodes box.id)

/-- The slices of a list. -/
def slices (perRow : Nat) : List RFNode → List (List RFNode)
  | [] => []
  | box :: boxes => (box :: boxes.take (perRow - 1)) :: slices perRow (boxes.drop (perRow - 1))
termination_by boxes => boxes.length
decreasing_by
  rw [List.length_drop, List.length_cons]
  omega

/-- `Math.max` of some numbers. -/
def mathMax : List ℚ → ℚ
  | [] => 0
  | x :: xs => xs.foldl max x

def rowHeight (row : List RFNode) : ℚ := mathMax (row.map (boxHeight nodes))

def placeRow (x0 : ℚ) (row : List RFNode) (y : ℚ) : List RFNode :=
  row.zipIdx.flatMap fun (box, j) =>
    place box (x0 + j * (NODE_BOX_WIDTH + BOX_GAP_X)) y (some { width := NODE_BOX_WIDTH, height := rowHeight nodes row }) ::
      placeBoxContent nodes box

/-- Lays boxes out in rows, and gives the size of the grid. -/
def placeGrid (boxes : List RFNode) (perRow : Nat) (x0 y0 : ℚ) : List RFNode × Size :=
  let rows := slices perRow boxes
  let advance (row : List RFNode) : ℚ := rowHeight nodes row + BOX_GAP_Y
  let width := rows.foldl (fun width row => max width (row.length * NODE_BOX_WIDTH + (row.length - 1) * BOX_GAP_X)) 0
  let height := if 0 < boxes.length then cursorAfter advance y0 rows - BOX_GAP_Y - y0 else 0
  ((along advance (placeRow nodes x0) y0 rows).flatten, { width, height })

/-- The boxes of a role's group. -/
def placeGroupGrid (g : RFNode) : List RFNode × Size :=
  let boxes := childrenOf nodes g.id
  let perRow := if isManagerGroup g then max 1 boxes.length else MAX_WORKERS_PER_ROW
  placeGrid nodes boxes perRow ROLE_GROUP_PADDING_X ROLE_GROUP_PADDING_TOP

def roleGroupSize (g : RFNode) : Size :=
  let grid := (placeGroupGrid nodes g).2
  { width := grid.width + 2 * ROLE_GROUP_PADDING_X
    height := ROLE_GROUP_PADDING_TOP + grid.height + ROLE_GROUP_PADDING_BOTTOM }

def roleGroups : List RFNode := nodes.filter fun n => n.type = .roleGroup

def maxRoleWidth : ℚ := ((roleGroups nodes).map fun g => (roleGroupSize nodes g).width).foldl max 0

/-- How far the cursor moves past a role's group. -/
def groupStep (g : RFNode) : ℚ := (roleGroupSize nodes g).height + SECTION_GAP

def placeGroup (g : RFNode) (y : ℚ) : RFNode :=
  place g ((maxRoleWidth nodes - (roleGroupSize nodes g).width) / 2) y (some (roleGroupSize nodes g))

/-- The bottom of the managers' group. -/
def managerBottom : Option ℚ :=
  (along (groupStep nodes) (fun g y => if isManagerGroup g then some (y + (roleGroupSize nodes g).height) else none) 0
    (roleGroups nodes)).reduceOption.getLast?

/-- The badge, centred in the gap below the managers. -/
def placeSummary : List RFNode :=
  match nodes.find? (fun n => n.type = .controlSummary), managerBottom nodes with
  | some summary, some bottom => [place summary (maxRoleWidth nodes / 2) (bottom + SECTION_GAP / 2)]
  | _, _ => []

/-- Where the role groups end. -/
def groupsEnd : ℚ := cursorAfter (groupStep nodes) 0 (roleGroups nodes)

def freeBoxes : List RFNode := nodes.filter fun n => n.type = .nodeGroup ∧ n.parent = none

def freeGrid : List RFNode × Size := placeGrid nodes (freeBoxes nodes) MAX_WORKERS_PER_ROW 0 (groupsEnd nodes)

/-- Where the free boxes end. -/
def boxesEnd : ℚ :=
  if 0 < (freeBoxes nodes).length then groupsEnd nodes + ((freeGrid nodes).2.height + SECTION_GAP) else groupsEnd nodes

/-- What is placed before the containers. -/
def placeSections : List RFNode :=
  (roleGroups nodes).flatMap (fun g => (placeGroupGrid nodes g).1) ++
    along (groupStep nodes) (placeGroup nodes) 0 (roleGroups nodes) ++ placeSummary nodes ++
      if 0 < (freeBoxes nodes).length then (freeGrid nodes).1 else []

/-- One pass of the loop over the nodes that are not placed. -/
def placeFree (y : ℚ) (s : List RFNode × ℚ) (n : RFNode) : List RFNode × ℚ :=
  if n.parent.isSome ∨ n.id ∈ s.1.map RFNode.id ∨ n.type = .roleGroup ∨ n.type = .nodeGroup then s
  else (s.1 ++ [place n s.2 y none (some FREE_NODE_WIDTH)], s.2 + (FREE_NODE_WIDTH + FREE_GAP))

def layoutNodeGroups : List RFNode :=
  let out := (nodes.foldl (placeFree (boxesEnd nodes)) (placeSections nodes, 0)).1
  nodes.map fun n => ((index RFNode.id out).lookup n.id).getD n

end Places

end Dockgraph.Frontend
