import Dockgraph.Frontend.NodeLayout

/-!
# Boxes and their grids

The cards of a box fit into the height that the box asks for, and the boxes of a grid into the size that
the grid reports.
-/
namespace Dockgraph.Frontend

open Keyed Layout

/-- Where a node is drawn, within its parent or on the canvas. What has no size of its own is as wide as the layout
tells it to be, and as high as its content. -/
def RFNode.rect (r : RFNode) : Rect ℚ :=
  let size := r.style.getD { width := r.nodeWidth.getD 0, height := itemHeight r }
  { x := r.position.x, y := r.position.y, width := size.width, height := size.height }

/-- The frame of a size. -/
def Size.frame (size : Size) : Rect ℚ := { x := 0, y := 0, width := size.width, height := size.height }

/-! ## Cards -/

section Content

variable {nodes : List RFNode} {box item w : RFNode} {x y : ℚ}

theorem itemHeight_nonneg : 0 ≤ itemHeight item := by
  unfold itemHeight serviceCardHeight SERVICE_CARD_HEADER_HEIGHT SERVICE_CARD_ROW_HEIGHT SERVICE_CARD_PADDING_BOTTOM
    CONTAINER_NODE_HEIGHT
  split <;> positivity

theorem min_le_boxHeight : NODE_BOX_MIN_HEIGHT ≤ boxHeight nodes box := by
  unfold boxHeight
  dsimp only
  split
  next => exact le_rfl
  next => exact le_max_left _ _

/-- The cursor ends with the gap below the last card, where the box's padding starts. -/
theorem contentEnd_le_boxHeight (filled : childrenOf nodes box.id ≠ []) :
    cursorAfter (fun item => itemHeight item + CARD_GAP) NODE_BOX_HEADER_HEIGHT (childrenOf nodes box.id) - CARD_GAP +
      NODE_BOX_PADDING ≤ boxHeight nodes box := by
  unfold boxHeight
  dsimp only
  rw [if_neg filled, cursorAfter_eq_sum, List.sum_map_add, List.map_const', List.sum_replicate, nsmul_eq_mul]
  refine le_trans (le_of_eq ?_) (le_max_right _ _)
  ring

theorem rect_card (unsized : item.style = none) :
    (place item x y none (some CARD_WIDTH)).rect = { x, y, width := CARD_WIDTH, height := itemHeight item } := by
  unfold RFNode.rect place
  rw [unsized]
  rfl

theorem advance_card (item : RFNode) : 0 ≤ itemHeight item + CARD_GAP := by
  have height : 0 ≤ itemHeight item := itemHeight_nonneg
  unfold CARD_GAP
  linarith

/-- The cards of a box are inside it. -/
theorem within_content (unsized : ∀ item ∈ childrenOf nodes box.id, item.style = none)
    (member : w ∈ placeBoxContent nodes box) {height : ℚ} (enough : boxHeight nodes box ≤ height) :
    Within w.rect (Size.frame { width := NODE_BOX_WIDTH, height }) := by
  obtain ⟨item, listed, y, below, room, rfl⟩ := mem_along (fun item _ => advance_card item) member
  have fits := contentEnd_le_boxHeight (List.ne_nil_of_mem listed)
  rw [rect_card (unsized item listed)]
  unfold Within Size.frame CARD_WIDTH NODE_BOX_WIDTH
  unfold NODE_BOX_HEADER_HEIGHT at below
  unfold NODE_BOX_PADDING at *
  refine ⟨?_, ?_, ?_, ?_⟩ <;> linarith

theorem pairwise_content (unsized : ∀ item ∈ childrenOf nodes box.id, item.style = none) :
    (placeBoxContent nodes box).Pairwise fun a b => Apart a.rect b.rect := by
  refine pairwise_along (fun item _ => advance_card item) fun item listed next later y y' behind => ?_
  rw [rect_card (unsized item listed), rect_card (unsized next later)]
  unfold CARD_GAP at behind
  exact .inr (.inr (.inl (by dsimp only; linarith)))

end Content

/-! ## Rows -/

section Rows

variable {nodes boxes row : List RFNode} {box w : RFNode} {perRow : Nat} {x0 y0 y : ℚ}

theorem le_foldl_max {xs : List ℚ} {m : ℚ} : m ≤ xs.foldl max m ∧ ∀ x ∈ xs, x ≤ xs.foldl max m := by
  induction xs generalizing m with
  | nil => exact ⟨le_rfl, fun x member => by cases member⟩
  | cons z xs ih =>
    obtain ⟨start, later⟩ := @ih (max m z)
    refine ⟨(le_max_left m z).trans start, fun x member => ?_⟩
    rcases List.mem_cons.mp member with rfl | listed
    · exact (le_max_right m x).trans start
    · exact later x listed

theorem le_mathMax {xs : List ℚ} {x : ℚ} (member : x ∈ xs) : x ≤ mathMax xs := by
  cases xs with
  | nil => cases member
  | cons z xs =>
    rcases List.mem_cons.mp member with rfl | listed
    · exact le_foldl_max.1
    · exact le_foldl_max.2 x listed

theorem boxHeight_le_rowHeight (member : box ∈ row) : boxHeight nodes box ≤ rowHeight nodes row :=
  le_mathMax (List.mem_map_of_mem member)

theorem flatten_slices : (slices perRow boxes).flatten = boxes := by
  fun_induction slices perRow boxes with
  | case1 => rfl
  | case2 box boxes ih => rw [List.flatten_cons, ih, List.cons_append, List.take_append_drop]

theorem ne_nil_of_mem_slices (member : row ∈ slices perRow boxes) : row ≠ [] := by
  fun_induction slices perRow boxes with
  | case1 => cases member
  | case2 box boxes ih =>
    rcases List.mem_cons.mp member with rfl | later
    · exact List.cons_ne_nil _ _
    · exact ih later

theorem min_le_rowHeight (filled : row ≠ []) : NODE_BOX_MIN_HEIGHT ≤ rowHeight nodes row := by
  obtain ⟨box, rest, rfl⟩ := List.exists_cons_of_ne_nil filled
  exact min_le_boxHeight.trans (boxHeight_le_rowHeight List.mem_cons_self)

theorem advance_row (member : row ∈ slices perRow boxes) : 0 ≤ rowHeight nodes row + BOX_GAP_Y := by
  have height : NODE_BOX_MIN_HEIGHT ≤ rowHeight nodes row := min_le_rowHeight (ne_nil_of_mem_slices member)
  unfold NODE_BOX_MIN_HEIGHT at height
  unfold BOX_GAP_Y
  linarith

/-- The boxes of a row, without their cards. -/
def rowBoxes (nodes : List RFNode) (x0 : ℚ) (row : List RFNode) (y : ℚ) : List RFNode :=
  along (fun _ => NODE_BOX_WIDTH + BOX_GAP_X)
    (fun box x => place box x y (some { width := NODE_BOX_WIDTH, height := rowHeight nodes row })) x0 row

/-- The boxes of a grid, without their cards. -/
def gridBoxes (nodes boxes : List RFNode) (perRow : Nat) (x0 y0 : ℚ) : List RFNode :=
  (along (fun row => rowHeight nodes row + BOX_GAP_Y) (rowBoxes nodes x0) y0 (slices perRow boxes)).flatten

theorem perm_placeRow : (placeRow nodes x0 row y).Perm
    (rowBoxes nodes x0 row y ++ row.flatMap (placeBoxContent nodes)) := by
  have content : row.flatMap (placeBoxContent nodes) = row.zipIdx.flatMap fun p => placeBoxContent nodes p.1 :=
    calc row.flatMap (placeBoxContent nodes)
      _ = (row.zipIdx.map Prod.fst).flatMap (placeBoxContent nodes) := by rw [List.zipIdx_map_fst]
      _ = row.zipIdx.flatMap fun p => placeBoxContent nodes p.1 := List.flatMap_map ..
  unfold rowBoxes
  rw [content, ← map_zipIdx_eq_along]
  exact (List.map_append_flatMap_perm _ _ _).symm

theorem perm_placeGrid : (placeGrid nodes boxes perRow x0 y0).1.Perm
    (gridBoxes nodes boxes perRow x0 y0 ++ boxes.flatMap (placeBoxContent nodes)) := by
  have contents : boxes.flatMap (placeBoxContent nodes) =
      (slices perRow boxes).flatMap fun row => row.flatMap (placeBoxContent nodes) := by
    have whole : (slices perRow boxes).flatten = boxes := flatten_slices
    rw [← List.flatMap_id] at whole
    conv_lhs => rw [← whole]
    exact List.flatMap_assoc
  rw [contents]
  exact perm_flatten_along fun row y => perm_placeRow

theorem ids_gridBoxes : (gridBoxes nodes boxes perRow x0 y0).map RFNode.id = boxes.map RFNode.id := by
  have rows (row : List RFNode) (y : ℚ) : (rowBoxes nodes x0 row y).map RFNode.id = row.map RFNode.id :=
    map_along fun box _ x => rfl
  unfold gridBoxes
  rw [List.map_flatten, map_along fun row _ y => rows row y, ← List.map_flatten, flatten_slices]

/-! ## Grids -/

theorem rect_box {size : Size} : (place box x0 y0 (some size)).rect =
    { x := x0, y := y0, width := size.width, height := size.height } := rfl

theorem advance_box (box : RFNode) : 0 ≤ (fun _ : RFNode => NODE_BOX_WIDTH + BOX_GAP_X) box := by
  unfold NODE_BOX_WIDTH BOX_GAP_X
  norm_num

theorem le_grid_width (member : row ∈ slices perRow boxes) :
    row.length * NODE_BOX_WIDTH + (row.length - 1) * BOX_GAP_X ≤ (placeGrid nodes boxes perRow x0 y0).2.width := by
  have widths : (placeGrid nodes boxes perRow x0 y0).2.width = ((slices perRow boxes).map fun row : List RFNode =>
      row.length * NODE_BOX_WIDTH + (row.length - 1) * BOX_GAP_X).foldl max 0 := by
    rw [List.foldl_map]
    rfl
  rw [widths]
  exact le_foldl_max.2 _ (List.mem_map_of_mem member)

theorem grid_height (filled : boxes ≠ []) : (placeGrid nodes boxes perRow x0 y0).2.height =
    cursorAfter (fun row => rowHeight nodes row + BOX_GAP_Y) y0 (slices perRow boxes) - BOX_GAP_Y - y0 :=
  if_pos (List.length_pos_iff.mpr filled)

/-- A box of a grid: where it stands, and that there is room behind it. -/
theorem gridBoxes_cases (member : w ∈ gridBoxes nodes boxes perRow x0 y0) :
    ∃ row ∈ slices perRow boxes, ∃ box ∈ row, ∃ x y,
      w = place box x y (some { width := NODE_BOX_WIDTH, height := rowHeight nodes row }) ∧
      x0 ≤ x ∧ x + (NODE_BOX_WIDTH + BOX_GAP_X) ≤ x0 + row.length * (NODE_BOX_WIDTH + BOX_GAP_X) ∧
      y0 ≤ y ∧ y + (rowHeight nodes row + BOX_GAP_Y) ≤
        cursorAfter (fun row => rowHeight nodes row + BOX_GAP_Y) y0 (slices perRow boxes) := by
  obtain ⟨placed, listed, member⟩ := List.mem_flatten.mp member
  obtain ⟨row, inGrid, y, below, roomY, rfl⟩ := mem_along (fun row => advance_row) listed
  obtain ⟨box, inRow, x, right, roomX, rfl⟩ := mem_along (fun box _ => advance_box box) member
  rw [cursorAfter_const] at roomX
  exact ⟨row, inGrid, box, inRow, x, y, rfl, right, roomX, below, roomY⟩

/-- A box of a grid is high enough for its cards. -/
theorem placed_gridBoxes (member : w ∈ gridBoxes nodes boxes perRow x0 y0) :
    ∃ box ∈ boxes, ∃ x y height, boxHeight nodes box ≤ height ∧
      w = place box x y (some { width := NODE_BOX_WIDTH, height }) := by
  obtain ⟨row, inGrid, box, inRow, x, y, rfl, -⟩ := gridBoxes_cases member
  have listed : box ∈ (slices perRow boxes).flatten := List.mem_flatten.mpr ⟨row, inGrid, inRow⟩
  rw [flatten_slices] at listed
  exact ⟨box, listed, x, y, rowHeight nodes row, boxHeight_le_rowHeight inRow, rfl⟩

theorem grid_height_nonneg : 0 ≤ (placeGrid nodes boxes perRow x0 y0).2.height := by
  by_cases filled : boxes = []
  · subst filled
    exact le_rfl
  · obtain ⟨box, rest, rfl⟩ := List.exists_cons_of_ne_nil filled
    rw [grid_height filled, slices, cursorAfter, List.foldl_cons]
    have height : NODE_BOX_MIN_HEIGHT ≤ rowHeight nodes (box :: rest.take (perRow - 1)) :=
      min_le_rowHeight (List.cons_ne_nil _ _)
    have later : y0 + (rowHeight nodes (box :: rest.take (perRow - 1)) + BOX_GAP_Y) ≤
        cursorAfter (fun row => rowHeight nodes row + BOX_GAP_Y)
          (y0 + (rowHeight nodes (box :: rest.take (perRow - 1)) + BOX_GAP_Y)) (slices perRow (rest.drop (perRow - 1))) :=
      start_le_cursorAfter fun row => advance_row
    unfold cursorAfter at later
    unfold NODE_BOX_MIN_HEIGHT at height
    linarith

/-- The boxes of a grid are inside its size. -/
theorem within_gridBoxes (member : w ∈ gridBoxes nodes boxes perRow x0 y0) :
    Within w.rect
      { x := x0, y := y0, width := (placeGrid nodes boxes perRow x0 y0).2.width
        height := (placeGrid nodes boxes perRow x0 y0).2.height } := by
  obtain ⟨row, inGrid, box, inRow, x, y, rfl, right, roomX, below, roomY⟩ := gridBoxes_cases member
  have filled : boxes ≠ [] := by
    rintro rfl
    rw [slices] at inGrid
    cases inGrid
  have width : row.length * NODE_BOX_WIDTH + (row.length - 1) * BOX_GAP_X ≤ (placeGrid nodes boxes perRow x0 y0).2.width :=
    le_grid_width inGrid
  rw [rect_box, grid_height filled]
  unfold Within
  dsimp only
  refine ⟨right, ?_, below, ?_⟩ <;> linarith

theorem pairwise_gridBoxes : (gridBoxes nodes boxes perRow x0 y0).Pairwise fun a b => Apart a.rect b.rect := by
  refine List.pairwise_flatten.mpr ⟨fun placed listed => ?_, ?_⟩
  · -- in one row, from left to right
    obtain ⟨row, inGrid, y, -, -, rfl⟩ := mem_along (fun row => advance_row) listed
    refine pairwise_along (fun box _ => advance_box box) fun box _ next _ x x' behind => .inl ?_
    rw [rect_box, rect_box]
    unfold BOX_GAP_X at behind
    dsimp only at *
    linarith
  · -- in two rows, one below the other
    refine pairwise_along (fun row => advance_row) fun row _ next _ y y' behind a inRow b inNext => ?_
    obtain ⟨box, -, x, -, -, rfl⟩ := mem_along (fun box _ => advance_box box) inRow
    obtain ⟨box', -, x', -, -, rfl⟩ := mem_along (fun box _ => advance_box box) inNext
    rw [rect_box, rect_box]
    refine .inr (.inr (.inl ?_))
    unfold BOX_GAP_Y at behind
    dsimp only
    linarith

end Rows

end Dockgraph.Frontend
