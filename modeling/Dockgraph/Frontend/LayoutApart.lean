import Dockgraph.Frontend.NodeGrid
import Dockgraph.Frontend.NodeView
import Mathlib.Algebra.Order.Group.Multiset
import Mathlib.Data.List.ReduceOption
import Mathlib.Tactic.Abel

/-!
# The per-node layout never overlaps

The layout writes every node once: the groups on the canvas, the boxes in their groups, the cards in their
boxes. What it writes for one parent is laid out by one grid or one running cursor.
-/
namespace Dockgraph.Frontend

open Comparator Keyed Layout

/-! ## Levels -/

/-- The level of a node: role groups, boxes, the badge, what is in boxes. -/
def RFNode.level (n : RFNode) : Nat :=
  match n.type with
  | .roleGroup => 0
  | .nodeGroup => 1
  | .controlSummary => 2
  | _ => 3

/-- Nodes on three levels: boxes in role groups or free, and cards and containers in boxes or free. -/
structure Levels (nodes : List RFNode) : Prop where
  unique : (nodes.map RFNode.id).Nodup
  unsized : ∀ n ∈ nodes, n.style = none
  set : ∀ n ∈ nodes, n.parentId ≠ some ""
  group : ∀ n ∈ nodes, n.level = 0 → n.parentId = none
  box : ∀ n ∈ nodes, n.level = 1 → ∀ p, n.parentId = some p → ∃ g ∈ nodes, g.id = p ∧ g.level = 0
  badge : ∀ n ∈ nodes, n.level = 2 → n.parentId = none ∧ ∃ g ∈ nodes, g.level = 0 ∧ isManagerGroup g = true
  oneBadge : ∀ n ∈ nodes, ∀ m ∈ nodes, n.level = 2 → m.level = 2 → n.id = m.id
  item : ∀ n ∈ nodes, n.level = 3 → ∀ p, n.parentId = some p → ∃ b ∈ nodes, b.id = p ∧ b.level = 1

/-- A node with another place and size. -/
def Moved (n r : RFNode) : Prop := r = { n with position := r.position, style := r.style, nodeWidth := r.nodeWidth }

/-- What the layout makes of nodes: each is put somewhere, what is in a box or a group is inside it and apart, and so is
what stands on the canvas. -/
structure Laid (nodes laid : List RFNode) : Prop where
  same : List.Forall₂ Moved nodes laid
  inside : ∀ b ∈ laid, b.type = .nodeGroup ∨ b.type = .roleGroup → ∃ size, b.style = some size ∧
    (∀ c ∈ laid, c.parentId = some b.id → Within c.rect size.frame) ∧
    (laid.filter fun c => c.parentId = some b.id).Pairwise fun c d => Apart c.rect d.rect
  canvas : (laid.filter fun n => n.parentId = none ∧ n.type ≠ .controlSummary).Pairwise fun a b => Apart a.rect b.rect

section Nodes

variable {nodes : List RFNode} {n : RFNode}

theorem Moved.id_eq {n r : RFNode} (moved : Moved n r) : r.id = n.id := by rw [moved]

theorem Moved.type_eq {n r : RFNode} (moved : Moved n r) : r.type = n.type := by rw [moved]

theorem Moved.parentId_eq {n r : RFNode} (moved : Moved n r) : r.parentId = n.parentId := by rw [moved]

theorem level_eq_zero : n.level = 0 ↔ n.type = .roleGroup := by
  unfold RFNode.level
  cases n.type <;> simp

theorem level_eq_one : n.level = 1 ↔ n.type = .nodeGroup := by
  unfold RFNode.level
  cases n.type <;> simp

theorem level_eq_two : n.level = 2 ↔ n.type = .controlSummary := by
  unfold RFNode.level
  cases n.type <;> simp

theorem level_cases (n : RFNode) : n.level = 0 ∨ n.level = 1 ∨ n.level = 2 ∨ n.level = 3 := by
  unfold RFNode.level
  cases n.type <;> simp

theorem roleGroups_eq : roleGroups nodes = nodes.filter fun n => n.level = 0 :=
  List.filter_congr fun _ _ => decide_eq_decide.mpr level_eq_zero.symm

/-- The boxes, the badge and the rest, level by level. -/
theorem perm_levels (nodes : List RFNode) :
    (nodes.filter (fun n => n.level = 0) ++ (nodes.filter (fun n => n.level = 1) ++
      (nodes.filter (fun n => n.level = 2) ++ nodes.filter (fun n => n.level = 3)))).Perm nodes := by
  have levels : ([0, 1, 2, 3].flatMap fun k => nodes.filter fun n => n.level = k).Perm nodes :=
    perm_flatMap_filter (by decide) fun n _ => by simpa using level_cases n
  simpa using levels

namespace Levels

variable (levels : Levels nodes)
include levels

theorem parent_eq (member : n ∈ nodes) : n.parent = n.parentId := by
  unfold RFNode.parent
  cases parent : n.parentId with
  | none => rfl
  | some p =>
    refine truthy_eq_some.mpr ⟨rfl, ?_⟩
    rintro rfl
    exact levels.set n member parent

theorem childrenOf_eq (p : String) : childrenOf nodes p = nodes.filter fun n => n.parentId = some p := by
  have grouped : childrenOf nodes p = (nodes.filter fun n => n.parent = some p).map id := lookup_group
  rw [grouped, List.map_id]
  exact List.filter_congr fun n member => by rw [levels.parent_eq member]

theorem mem_childrenOf {p : String} : n ∈ childrenOf nodes p ↔ n ∈ nodes ∧ n.parentId = some p := by
  simp [levels.childrenOf_eq]

theorem parent_level {c p : RFNode} (child : c ∈ nodes) (listed : p ∈ nodes) (parent : c.parentId = some p.id) :
    c.level = 1 ∧ p.level = 0 ∨ c.level = 3 ∧ p.level = 1 := by
  rcases level_cases c with zero | one | two | three
  · rw [levels.group c child zero] at parent
    cases parent
  · obtain ⟨g, member, same, level⟩ := levels.box c child one _ parent
    rw [← eq_of_key_eq RFNode.id levels.unique member listed same]
    exact .inl ⟨one, level⟩
  · rw [(levels.badge c child two).1] at parent
    cases parent
  · obtain ⟨b, member, same, level⟩ := levels.item c child three _ parent
    rw [← eq_of_key_eq RFNode.id levels.unique member listed same]
    exact .inr ⟨three, level⟩

/-- The nodes of a level, by their parents on the level above. -/
theorem perm_children {k l : Nat} (above : ∀ c ∈ nodes, c.level = k → ∀ p, c.parentId = some p →
    ∃ g ∈ nodes, g.id = p ∧ g.level = l)
    (below : ∀ c ∈ nodes, ∀ g ∈ nodes, c.parentId = some g.id → g.level = l → c.level = k) :
    ((nodes.filter fun n => n.level = k ∧ n.parentId = none) ++
      (nodes.filter fun g => g.level = l).flatMap fun g => childrenOf nodes g.id).Perm
        (nodes.filter fun n => n.level = k) := by
  have unique : (none :: (nodes.filter fun g => g.level = l).map fun g => some g.id).Nodup := by
    have ids : ((nodes.filter fun g => g.level = l).map RFNode.id).Nodup :=
      levels.unique.sublist (List.filter_sublist.map _)
    have parents := ids.map (Option.some_injective String)
    rw [List.map_map] at parents
    exact List.nodup_cons.mpr ⟨by simp, parents⟩
  have byParent : ((none :: (nodes.filter fun g => g.level = l).map fun g => some g.id).flatMap fun p =>
      (nodes.filter fun n => n.level = k).filter fun n => n.parentId = p).Perm (nodes.filter fun n => n.level = k) := by
    refine perm_flatMap_filter unique fun c listed => ?_
    obtain ⟨member, level⟩ := List.mem_filter.mp listed
    cases parent : c.parentId with
    | none => exact List.mem_cons_self
    | some p =>
      obtain ⟨g, member, rfl, level⟩ := above c member (of_decide_eq_true level) p parent
      exact List.mem_cons_of_mem _ (List.mem_map.mpr ⟨g, by simp [member, level], rfl⟩)
  refine List.Perm.trans (List.Perm.of_eq ?_) byParent
  rw [List.flatMap_cons, List.flatMap_map, List.filter_filter]
  congr 1
  · refine List.filter_congr fun n _ => ?_
    simp [and_comm]
  · refine List.flatMap_congr fun g listed => ?_
    obtain ⟨member, level⟩ := List.mem_filter.mp listed
    rw [levels.childrenOf_eq, List.filter_filter]
    refine List.filter_congr fun c child => ?_
    by_cases parent : c.parentId = some g.id
    · simp [parent, below c child g member parent (of_decide_eq_true level)]
    · simp [parent]

theorem freeBoxes_eq : freeBoxes nodes = nodes.filter fun n => n.level = 1 ∧ n.parentId = none := by
  refine List.filter_congr fun n member => decide_eq_decide.mpr (and_congr level_eq_one.symm ?_)
  rw [levels.parent_eq member]

end Levels

/-! ## What is written -/

variable (nodes)

/-- The boxes in the order they are placed. -/
def allBoxes : List RFNode := (roleGroups nodes).flatMap (fun g => childrenOf nodes g.id) ++ freeBoxes nodes

def freeItems : List RFNode := nodes.filter fun n => n.level = 3 ∧ n.parentId = none

def badges : List RFNode := nodes.filter fun n => n.level = 2

/-- The boxes of a group, where they are placed in it. -/
def groupBoxes (g : RFNode) : List RFNode :=
  gridBoxes nodes (childrenOf nodes g.id)
    (if isManagerGroup g then max 1 (childrenOf nodes g.id).length else MAX_WORKERS_PER_ROW) ROLE_GROUP_PADDING_X
    ROLE_GROUP_PADDING_TOP

/-- The free boxes, where they are placed on the canvas. -/
def placedFreeBoxes : List RFNode := gridBoxes nodes (freeBoxes nodes) MAX_WORKERS_PER_ROW 0 (groupsEnd nodes)

def placedGroups : List RFNode := along (groupStep nodes) (placeGroup nodes) 0 (roleGroups nodes)

variable {nodes}

theorem perm_placeSections : (placeSections nodes).Perm (placedGroups nodes ++
    (((roleGroups nodes).flatMap (groupBoxes nodes) ++ placedFreeBoxes nodes) ++
      (placeSummary nodes ++ (allBoxes nodes).flatMap (placeBoxContent nodes)))) := by
  have grouped : ((roleGroups nodes).flatMap fun g => (placeGroupGrid nodes g).1).Perm
      ((roleGroups nodes).flatMap (groupBoxes nodes) ++
        ((roleGroups nodes).flatMap fun g => childrenOf nodes g.id).flatMap (placeBoxContent nodes)) := by
    rw [List.flatMap_assoc]
    exact (List.Perm.flatMap_left _ fun g _ => perm_placeGrid).trans (List.flatMap_append_perm _ _ _).symm
  have free : (if 0 < (freeBoxes nodes).length then (freeGrid nodes).1 else []).Perm
      (placedFreeBoxes nodes ++ (freeBoxes nodes).flatMap (placeBoxContent nodes)) := by
    split
    next => exact perm_placeGrid
    next empty =>
      rw [placedFreeBoxes, List.length_eq_zero_iff.mp (Nat.eq_zero_of_not_pos empty), gridBoxes, slices]
      exact .nil
  have whole := ((grouped.append_right (placedGroups nodes)).append_right (placeSummary nodes)).append free
  refine List.Perm.trans whole (Multiset.coe_eq_coe.mp ?_)
  rw [allBoxes, List.flatMap_append]
  simp only [← Multiset.coe_add]
  abel

theorem ids_content : ((allBoxes nodes).flatMap (placeBoxContent nodes)).map RFNode.id =
    ((allBoxes nodes).flatMap fun b => childrenOf nodes b.id).map RFNode.id := by
  rw [List.map_flatMap, List.map_flatMap]
  exact List.flatMap_congr fun b _ => map_along fun _ _ _ => rfl

theorem ids_groups : (placedGroups nodes).map RFNode.id = (roleGroups nodes).map RFNode.id :=
  map_along fun _ _ _ => rfl

theorem ids_boxes : ((roleGroups nodes).flatMap (groupBoxes nodes) ++ placedFreeBoxes nodes).map RFNode.id =
    (allBoxes nodes).map RFNode.id := by
  rw [allBoxes, List.map_append, List.map_append, List.map_flatMap, List.map_flatMap]
  congr 1
  · exact List.flatMap_congr fun g _ => ids_gridBoxes
  · exact ids_gridBoxes

theorem exists_managerBottom {g : RFNode} (listed : g ∈ nodes) (level : g.level = 0) (manager : isManagerGroup g = true) :
    ∃ bottom, managerBottom nodes = some bottom := by
  have group : g ∈ roleGroups nodes := by
    rw [roleGroups_eq]
    simp [listed, level]
  obtain ⟨y, placed⟩ : ∃ y, (if isManagerGroup g then some (y + (roleGroupSize nodes g).height) else none) ∈
      along (groupStep nodes)
        (fun g y => if isManagerGroup g then some (y + (roleGroupSize nodes g).height) else none) 0 (roleGroups nodes) :=
    exists_mem_along group
  rw [if_pos manager] at placed
  unfold managerBottom
  cases last : (along (groupStep nodes) (fun g y => if isManagerGroup g then some (y + (roleGroupSize nodes g).height)
      else none) 0 (roleGroups nodes)).reduceOption.getLast? with
  | some bottom => exact ⟨bottom, rfl⟩
  | none =>
    have bottom := List.reduceOption_mem_iff.mpr placed
    rw [List.getLast?_eq_none_iff.mp last] at bottom
    cases bottom

/-- The loop over all nodes places those that are not passed over, from left to right. -/
theorem foldl_placeFree {y x : ℚ} {p : RFNode → Bool} {ns out : List RFNode} (unique : (ns.map RFNode.id).Nodup)
    (skips : ∀ n ∈ ns, (n.parent.isSome ∨ n.id ∈ out.map RFNode.id ∨ n.type = .roleGroup ∨ n.type = .nodeGroup) ↔
      p n = false) :
    (ns.foldl (placeFree y) (out, x)).1 = out ++ along (fun _ => FREE_NODE_WIDTH + FREE_GAP)
      (fun n x => place n x y none (some FREE_NODE_WIDTH)) x (ns.filter p) := by
  induction ns generalizing out x with
  | nil => simp [along]
  | cons n ns ih =>
    obtain ⟨fresh, unique⟩ := List.nodup_cons.mp unique
    rw [List.foldl_cons, placeFree]
    cases kept : p n with
    | false =>
      rw [if_pos ((skips n List.mem_cons_self).mpr kept), List.filter_cons_of_neg (by simp [kept])]
      exact ih unique fun m later => skips m (List.mem_cons_of_mem _ later)
    | true =>
      have placed : ¬(n.parent.isSome ∨ n.id ∈ out.map RFNode.id ∨ n.type = .roleGroup ∨ n.type = .nodeGroup) := by
        rw [skips n List.mem_cons_self, kept]
        exact Bool.noConfusion
      rw [if_neg placed, List.filter_cons_of_pos kept, along, ih unique fun m later => ?_, List.append_assoc,
        List.singleton_append]
      -- the IDs are distinct, so what was just placed is not met again
      have other : m.id ≠ n.id := fun same => fresh (same ▸ List.mem_map_of_mem later)
      rw [← skips m (List.mem_cons_of_mem _ later), List.map_append, List.mem_append, List.map_singleton,
        List.mem_singleton]
      exact or_congr_right (or_congr_left (or_iff_left other))

variable (nodes)

/-- The free containers, where they are placed on the canvas. -/
def placedFreeItems : List RFNode :=
  along (fun _ => FREE_NODE_WIDTH + FREE_GAP) (fun n x => place n x (boxesEnd nodes) none (some FREE_NODE_WIDTH)) 0
    (freeItems nodes)

/-- All that the layout writes. -/
def written : List RFNode := placeSections nodes ++ placedFreeItems nodes

def laidNode (n : RFNode) : RFNode := ((index RFNode.id (written nodes)).lookup n.id).getD n

variable {nodes}

theorem sections_written {w : RFNode} (member : w ∈ placedGroups nodes ++
    (((roleGroups nodes).flatMap (groupBoxes nodes) ++ placedFreeBoxes nodes) ++
      (placeSummary nodes ++ (allBoxes nodes).flatMap (placeBoxContent nodes)))) : w ∈ written nodes :=
  List.mem_append_left _ (perm_placeSections.mem_iff.mpr member)

theorem within_frame {w : RFNode} {g : RFNode} (member : w ∈ groupBoxes nodes g) :
    Within w.rect (roleGroupSize nodes g).frame := by
  refine (within_gridBoxes member).trans ?_
  unfold Within Size.frame roleGroupSize placeGroupGrid ROLE_GROUP_PADDING_X ROLE_GROUP_PADDING_TOP
    ROLE_GROUP_PADDING_BOTTOM
  dsimp only
  refine ⟨?_, ?_, ?_, ?_⟩ <;> linarith

namespace Levels

variable (levels : Levels nodes)
include levels

theorem perm_boxes : (allBoxes nodes).Perm (nodes.filter fun n => n.level = 1) := by
  have children := levels.perm_children levels.box fun c child g listed parent level => by
    rcases levels.parent_level child listed parent with ⟨one, -⟩ | ⟨-, other⟩
    · exact one
    · rw [level] at other
      cases other
  rw [← levels.freeBoxes_eq, ← roleGroups_eq] at children
  exact List.perm_append_comm.trans children

theorem perm_items : (freeItems nodes ++ (allBoxes nodes).flatMap fun b => childrenOf nodes b.id).Perm
    (nodes.filter fun n => n.level = 3) := by
  have children := levels.perm_children levels.item fun c child g listed parent level => by
    rcases levels.parent_level child listed parent with ⟨-, other⟩ | ⟨three, -⟩
    · rw [level] at other
      cases other
    · exact three
  exact (List.Perm.append_left _ (levels.perm_boxes.flatMap_right _)).trans children

/-- Every node is written in one place. -/
theorem perm_nodes : (roleGroups nodes ++ (allBoxes nodes ++ (badges nodes ++
    (freeItems nodes ++ (allBoxes nodes).flatMap fun b => childrenOf nodes b.id)))).Perm nodes := by
  refine List.Perm.trans ?_ (perm_levels nodes)
  rw [roleGroups_eq]
  exact List.Perm.append_left _ (levels.perm_boxes.append (List.Perm.append_left _ levels.perm_items))

theorem badges_cases : badges nodes = [] ∨ ∃ n ∈ nodes, n.level = 2 ∧ badges nodes = [n] := by
  have unique : ((badges nodes).map RFNode.id).Nodup := levels.unique.sublist (List.filter_sublist.map _)
  have listed : ∀ n ∈ badges nodes, n ∈ nodes ∧ n.level = 2 := fun n member => by simpa [badges] using member
  match whole : badges nodes with
  | [] => exact .inl rfl
  | [n] =>
    obtain ⟨member, level⟩ := listed n (whole ▸ List.mem_cons_self)
    exact .inr ⟨n, member, level, rfl⟩
  | n :: m :: rest =>
    obtain ⟨member, level⟩ := listed n (whole ▸ List.mem_cons_self)
    obtain ⟨member', level'⟩ := listed m (whole ▸ List.mem_cons_of_mem _ List.mem_cons_self)
    have same := levels.oneBadge n member m member' level level'
    rw [whole] at unique
    simp [same] at unique

theorem ids_summary : (placeSummary nodes).map RFNode.id = (badges nodes).map RFNode.id := by
  have first : nodes.find? (fun n => n.type = .controlSummary) = (badges nodes).head? := by
    have typed : badges nodes = nodes.filter fun n => n.type = .controlSummary :=
      List.filter_congr fun _ _ => decide_eq_decide.mpr level_eq_two
    rw [typed, List.head?_filter]
  unfold placeSummary
  rw [first]
  rcases levels.badges_cases with none | ⟨n, member, level, one⟩
  · rw [none]
    rfl
  · obtain ⟨-, g, listed, isGroup, manager⟩ := levels.badge n member level
    obtain ⟨bottom, found⟩ := exists_managerBottom listed isGroup manager
    rw [one, found]
    rfl

/-- The IDs that are written before the containers, and those of the containers. -/
theorem perm_ids : ((placeSections nodes).map RFNode.id ++ (freeItems nodes).map RFNode.id).Perm
    (nodes.map RFNode.id) := by
  have sections : ((placeSections nodes).map RFNode.id).Perm _ := perm_placeSections.map RFNode.id
  rw [List.map_append, ids_groups, List.map_append, ids_boxes, List.map_append, ids_content, levels.ids_summary] at sections
  refine (sections.append_right _).trans (List.Perm.trans (Multiset.coe_eq_coe.mp ?_) (levels.perm_nodes.map RFNode.id))
  simp only [List.map_append, ← Multiset.coe_add]
  abel

/-- The loop passes over what is placed, and over what is in boxes. -/
theorem skips_iff (member : n ∈ nodes) :
    (n.parent.isSome ∨ n.id ∈ (placeSections nodes).map RFNode.id ∨ n.type = .roleGroup ∨ n.type = .nodeGroup) ↔
      decide (n.level = 3 ∧ n.parentId = none) = false := by
  rw [levels.parent_eq member, ← level_eq_zero, ← level_eq_one, decide_eq_false_iff_not]
  constructor
  · rintro skipped ⟨three, free⟩
    rcases skipped with inside | placed | zero | one
    · rw [free] at inside
      cases inside
    · have unique := levels.perm_ids.nodup_iff.mpr levels.unique
      have item : n ∈ freeItems nodes := by simp [freeItems, member, three, free]
      exact (List.nodup_append.mp unique).2.2 _ placed _ (List.mem_map_of_mem item) rfl
    · rw [zero] at three
      cases three
    · rw [one] at three
      cases three
  · intro other
    rcases level_cases n with zero | one | two | three
    · exact .inr (.inr (.inl zero))
    · exact .inr (.inr (.inr one))
    · have badge : n ∈ badges nodes := by simp [badges, member, two]
      have written : n.id ∈ (placeSummary nodes).map RFNode.id := levels.ids_summary ▸ List.mem_map_of_mem badge
      refine .inr (.inl ?_)
      rw [(perm_placeSections.map RFNode.id).mem_iff]
      simp only [List.map_append, List.mem_append]
      tauto
    · refine .inl (Option.isSome_iff_ne_none.mpr fun free => other ⟨three, free⟩)

theorem layout_eq : layoutNodeGroups nodes = nodes.map (laidNode nodes) := by
  have all : (nodes.foldl (placeFree (boxesEnd nodes)) (placeSections nodes, 0)).1 = written nodes :=
    foldl_placeFree levels.unique fun _ => levels.skips_iff
  unfold layoutNodeGroups
  dsimp only
  rw [all]
  rfl

theorem perm_written : ((written nodes).map RFNode.id).Perm (nodes.map RFNode.id) := by
  have containers : (placedFreeItems nodes).map RFNode.id = (freeItems nodes).map RFNode.id := map_along fun _ _ _ => rfl
  rw [written, List.map_append, containers]
  exact levels.perm_ids

/-- Nodes as laid out are what is written under their IDs. -/
theorem map_laidNode {ns ws : List RFNode} (ids : ws.map RFNode.id = ns.map RFNode.id)
    (all : ∀ w ∈ ws, w ∈ written nodes) : ns.map (laidNode nodes) = ws := by
  have unique : ((written nodes).map RFNode.id).Nodup := levels.perm_written.nodup_iff.mpr levels.unique
  induction ns generalizing ws with
  | nil => rw [List.map_eq_nil_iff.mp ids, List.map_nil]
  | cons n ns ih =>
    cases ws with
    | nil => cases ids
    | cons w ws =>
      obtain ⟨same, rest⟩ := List.cons.inj ids
      have found : (index RFNode.id (written nodes)).lookup n.id = some w :=
        (lookup_index RFNode.id unique).mpr ⟨all w List.mem_cons_self, same⟩
      rw [List.map_cons, ih rest fun v later => all v (List.mem_cons_of_mem _ later), laidNode, found, Option.getD_some]

/-- Every node that is written is one of the nodes, moved. -/
theorem moved_written {w : RFNode} (member : w ∈ written nodes) : ∃ n ∈ nodes, Moved n w := by
  have child {p : String} {c : RFNode} (listed : c ∈ childrenOf nodes p) : c ∈ nodes := (levels.mem_childrenOf.mp listed).1
  rcases List.mem_append.mp member with placed | free
  · rw [perm_placeSections.mem_iff] at placed
    rcases List.mem_append.mp placed with group | placed
    · obtain ⟨g, listed, y, rfl⟩ := exists_of_mem_along group
      exact ⟨g, (List.mem_filter.mp listed).1, rfl⟩
    · rcases List.mem_append.mp placed with box | placed
      · rcases List.mem_append.mp box with grouped | free
        · obtain ⟨g, -, inGrid⟩ := List.mem_flatMap.mp grouped
          obtain ⟨b, listed, x, y, height, -, rfl⟩ := placed_gridBoxes inGrid
          exact ⟨b, child listed, rfl⟩
        · obtain ⟨b, listed, x, y, height, -, rfl⟩ := placed_gridBoxes free
          exact ⟨b, (List.mem_filter.mp listed).1, rfl⟩
      · rcases List.mem_append.mp placed with badge | content
        · unfold placeSummary at badge
          split at badge
          next n bottom found _ =>
            rw [List.mem_singleton.mp badge]
            exact ⟨n, List.mem_of_find?_eq_some found, rfl⟩
          next => cases badge
        · obtain ⟨b, -, inBox⟩ := List.mem_flatMap.mp content
          obtain ⟨c, listed, y, rfl⟩ := exists_of_mem_along inBox
          exact ⟨c, child listed, rfl⟩
  · obtain ⟨n, listed, y, rfl⟩ := exists_of_mem_along free
    exact ⟨n, (List.mem_filter.mp listed).1, rfl⟩

theorem moved_laidNode (member : n ∈ nodes) : Moved n (laidNode nodes n) := by
  have listed : n.id ∈ (written nodes).map RFNode.id := levels.perm_written.mem_iff.mpr (List.mem_map_of_mem member)
  obtain ⟨w, all, same⟩ := List.mem_map.mp listed
  have laid : [n].map (laidNode nodes) = [w] :=
    levels.map_laidNode (by simp [same]) fun v only => List.mem_singleton.mp only ▸ all
  obtain ⟨m, member', moved⟩ := levels.moved_written all
  have ids : m.id = n.id := by rw [← same, moved]
  obtain rfl := eq_of_key_eq RFNode.id levels.unique member' member ids
  rw [List.map_singleton, List.singleton_inj] at laid
  rwa [laid]

/-! ## What is drawn -/

theorem filter_laid {p : RFNode → Bool} (fixed : ∀ n r, Moved n r → p r = p n) :
    (layoutNodeGroups nodes).filter p = (nodes.filter p).map (laidNode nodes) := by
  rw [levels.layout_eq, List.filter_map]
  exact congrArg _ (List.filter_congr fun n member => fixed _ _ (levels.moved_laidNode member))

/-- What is laid out inside a node. -/
theorem children_laid (p : String) : ((layoutNodeGroups nodes).filter fun c => c.parentId = some p) =
    (childrenOf nodes p).map (laidNode nodes) := by
  rw [levels.filter_laid fun n r moved => by rw [moved.parentId_eq], levels.childrenOf_eq]

theorem laid_groups : (roleGroups nodes).map (laidNode nodes) = placedGroups nodes :=
  levels.map_laidNode ids_groups fun _ group => sections_written (List.mem_append_left _ group)

theorem laid_boxes : (allBoxes nodes).map (laidNode nodes) =
    (roleGroups nodes).flatMap (groupBoxes nodes) ++ placedFreeBoxes nodes :=
  levels.map_laidNode ids_boxes fun _ box =>
    sections_written (List.mem_append_right _ (List.mem_append_left _ box))

/-- In a box. -/
theorem inside_box {b : RFNode} (member : b ∈ nodes) (level : b.level = 1) :
    ∃ size, (laidNode nodes b).style = some size ∧
      (∀ c ∈ (childrenOf nodes b.id).map (laidNode nodes), Within c.rect size.frame) ∧
        ((childrenOf nodes b.id).map (laidNode nodes)).Pairwise fun c d => Apart c.rect d.rect := by
  have listed : b ∈ allBoxes nodes := levels.perm_boxes.mem_iff.mpr (by simp [member, level])
  have content : (childrenOf nodes b.id).map (laidNode nodes) = placeBoxContent nodes b := by
    refine levels.map_laidNode (map_along fun _ _ _ => rfl) fun w inBox => sections_written ?_
    refine List.mem_append_right _ (List.mem_append_right _ (List.mem_append_right _ ?_))
    exact List.mem_flatMap.mpr ⟨b, listed, inBox⟩
  have unsized : ∀ c ∈ childrenOf nodes b.id, c.style = none := fun c child =>
    levels.unsized c (levels.mem_childrenOf.mp child).1
  have placed : laidNode nodes b ∈ (roleGroups nodes).flatMap (groupBoxes nodes) ++ placedFreeBoxes nodes :=
    levels.laid_boxes ▸ List.mem_map_of_mem listed
  obtain ⟨m, known, x, y, height, enough, same⟩ : ∃ m ∈ nodes, ∃ x y height, boxHeight nodes m ≤ height ∧
      laidNode nodes b = place m x y (some { width := NODE_BOX_WIDTH, height }) := by
    rcases List.mem_append.mp placed with grouped | free
    · obtain ⟨g, -, inGrid⟩ := List.mem_flatMap.mp grouped
      obtain ⟨m, child, rest⟩ := placed_gridBoxes inGrid
      exact ⟨m, (levels.mem_childrenOf.mp child).1, rest⟩
    · obtain ⟨m, free, rest⟩ := placed_gridBoxes free
      exact ⟨m, (List.mem_filter.mp free).1, rest⟩
  have ids : m.id = b.id := (congrArg RFNode.id same).symm.trans (levels.moved_laidNode member).id_eq
  obtain rfl := eq_of_key_eq RFNode.id levels.unique known member ids
  rw [content, same]
  exact ⟨_, rfl, fun c inBox => within_content unsized inBox enough, pairwise_content unsized⟩

/-- In a role's group. -/
theorem inside_group {g : RFNode} (member : g ∈ nodes) (level : g.level = 0) :
    ∃ size, (laidNode nodes g).style = some size ∧
      (∀ c ∈ (childrenOf nodes g.id).map (laidNode nodes), Within c.rect size.frame) ∧
        ((childrenOf nodes g.id).map (laidNode nodes)).Pairwise fun c d => Apart c.rect d.rect := by
  have listed : g ∈ roleGroups nodes := by
    rw [roleGroups_eq]
    simp [member, level]
  have boxes : (childrenOf nodes g.id).map (laidNode nodes) = groupBoxes nodes g := by
    refine levels.map_laidNode ids_gridBoxes fun w inGroup => sections_written ?_
    refine List.mem_append_right _ (List.mem_append_left _ (List.mem_append_left _ ?_))
    exact List.mem_flatMap.mpr ⟨g, listed, inGroup⟩
  have placed : laidNode nodes g ∈ placedGroups nodes := levels.laid_groups ▸ List.mem_map_of_mem listed
  obtain ⟨h, group, y, same⟩ := exists_of_mem_along placed
  have ids : h.id = g.id := (congrArg RFNode.id same).symm.trans (levels.moved_laidNode member).id_eq
  obtain rfl := eq_of_key_eq RFNode.id levels.unique (List.mem_filter.mp group).1 member ids
  rw [boxes, same]
  exact ⟨roleGroupSize nodes h, rfl, fun c inGroup => within_frame inGroup, pairwise_gridBoxes⟩

/-- What stands on the canvas, the badge apart. -/
theorem perm_canvas : (nodes.filter fun n => n.parentId = none ∧ n.type ≠ .controlSummary).Perm
    (roleGroups nodes ++ (freeBoxes nodes ++ freeItems nodes)) := by
  have byLevel := perm_levels (nodes.filter fun n => n.parentId = none ∧ n.type ≠ .controlSummary)
  simp only [List.filter_filter] at byLevel
  refine byLevel.symm.trans (List.Perm.of_eq ?_)
  have groups : nodes.filter (fun n => decide (n.level = 0) && decide (n.parentId = none ∧ n.type ≠ .controlSummary)) =
      nodes.filter fun n => n.level = 0 := by
    refine List.filter_congr fun n member => ?_
    by_cases zero : n.level = 0
    · simp [zero, levels.group n member zero, level_eq_zero.mp zero]
    · simp [zero]
  have boxes : nodes.filter (fun n => decide (n.level = 1) && decide (n.parentId = none ∧ n.type ≠ .controlSummary)) =
      nodes.filter fun n => n.level = 1 ∧ n.parentId = none := by
    refine List.filter_congr fun n _ => ?_
    by_cases one : n.level = 1
    · simp [one, level_eq_one.mp one]
    · simp [one]
  have badge : nodes.filter (fun n => decide (n.level = 2) && decide (n.parentId = none ∧ n.type ≠ .controlSummary)) =
      [] := by
    refine List.filter_eq_nil_iff.mpr fun n _ => ?_
    by_cases two : n.level = 2
    · simp [two, level_eq_two.mp two]
    · simp [two]
  have items : nodes.filter (fun n => decide (n.level = 3) && decide (n.parentId = none ∧ n.type ≠ .controlSummary)) =
      nodes.filter fun n => n.level = 3 ∧ n.parentId = none := by
    refine List.filter_congr fun n _ => ?_
    by_cases three : n.level = 3
    · have other : n.type ≠ .controlSummary := by
        intro type
        rw [level_eq_two.mpr type] at three
        cases three
      simp [three, other]
    · simp [three]
  rw [roleGroups_eq, levels.freeBoxes_eq, freeItems, groups, boxes, badge, items, List.nil_append]

end Levels

/-! ## The canvas -/

theorem advance_group (g : RFNode) : 0 ≤ groupStep nodes g := by
  have grid : 0 ≤ (placeGroupGrid nodes g).2.height := grid_height_nonneg
  unfold groupStep roleGroupSize ROLE_GROUP_PADDING_TOP ROLE_GROUP_PADDING_BOTTOM SECTION_GAP
  dsimp only
  linarith

theorem advance_free (n : RFNode) : 0 ≤ (fun _ : RFNode => FREE_NODE_WIDTH + FREE_GAP) n := by
  unfold FREE_NODE_WIDTH FREE_GAP
  norm_num

/-- A role's group ends before the groups do. -/
theorem bottom_placedGroups {w : RFNode} (member : w ∈ placedGroups nodes) :
    w.rect.y + w.rect.height ≤ groupsEnd nodes := by
  obtain ⟨g, -, y, -, room, rfl⟩ := mem_along (fun g _ => advance_group g) member
  have step : groupStep nodes g = (roleGroupSize nodes g).height + 40 := rfl
  have rect : (placeGroup nodes g y).rect.y + (placeGroup nodes g y).rect.height = y + (roleGroupSize nodes g).height := rfl
  unfold groupsEnd
  linarith

theorem groupsEnd_le_boxesEnd : groupsEnd nodes ≤ boxesEnd nodes := by
  have grid : 0 ≤ (freeGrid nodes).2.height := grid_height_nonneg
  unfold boxesEnd SECTION_GAP
  split <;> linarith

/-- A free box stands below the groups, and ends before the containers. -/
theorem bounds_placedFreeBoxes {w : RFNode} (member : w ∈ placedFreeBoxes nodes) :
    groupsEnd nodes ≤ w.rect.y ∧ w.rect.y + w.rect.height ≤ boxesEnd nodes := by
  obtain ⟨-, -, below, room⟩ := within_gridBoxes member
  obtain ⟨b, listed, -⟩ := placed_gridBoxes member
  have filled : 0 < (freeBoxes nodes).length := List.length_pos_of_mem listed
  refine ⟨below, ?_⟩
  unfold boxesEnd SECTION_GAP
  rw [if_pos filled]
  change _ ≤ groupsEnd nodes + (freeGrid nodes).2.height at room
  linarith

theorem top_placedFreeItems {w : RFNode} (member : w ∈ placedFreeItems nodes) : w.rect.y = boxesEnd nodes := by
  obtain ⟨n, -, x, rfl⟩ := exists_of_mem_along member
  rfl

theorem pairwise_groups : (placedGroups nodes).Pairwise fun a b => Apart a.rect b.rect := by
  refine pairwise_along (fun g _ => advance_group g) fun g _ h _ y y' behind => .inr (.inr (.inl ?_))
  have step : groupStep nodes g = (roleGroupSize nodes g).height + 40 := rfl
  change y + (roleGroupSize nodes g).height ≤ y'
  linarith

theorem pairwise_freeItems (unsized : ∀ n ∈ nodes, n.style = none) :
    (placedFreeItems nodes).Pairwise fun a b => Apart a.rect b.rect := by
  refine pairwise_along (fun n _ => advance_free n) fun n listed m _ x x' behind => .inl ?_
  have width : (place n x (boxesEnd nodes) none (some FREE_NODE_WIDTH)).rect.width = FREE_NODE_WIDTH := by
    unfold RFNode.rect place
    rw [unsized n (List.mem_filter.mp listed).1]
    rfl
  rw [width]
  change x + FREE_NODE_WIDTH ≤ x'
  unfold FREE_GAP at behind
  linarith

/-- The role groups, the free boxes and the free containers stand below one another. -/
theorem pairwise_canvas (unsized : ∀ n ∈ nodes, n.style = none) :
    (placedGroups nodes ++ (placedFreeBoxes nodes ++ placedFreeItems nodes)).Pairwise
      fun a b => Apart a.rect b.rect := by
  rw [List.pairwise_append, List.pairwise_append]
  refine ⟨pairwise_groups, ⟨pairwise_gridBoxes, pairwise_freeItems unsized, fun a box b item => ?_⟩,
    fun a group b rest => ?_⟩
  · have bounds := bounds_placedFreeBoxes box
    have top := top_placedFreeItems item
    exact .inr (.inr (.inl (by linarith)))
  · have bottom := bottom_placedGroups group
    refine .inr (.inr (.inl ?_))
    rcases List.mem_append.mp rest with box | item
    · exact bottom.trans (bounds_placedFreeBoxes box).1
    · rw [top_placedFreeItems item]
      exact bottom.trans groupsEnd_le_boxesEnd

/-- The layout of nodes on three levels. -/
theorem Levels.laid (levels : Levels nodes) : Laid nodes (layoutNodeGroups nodes) where
  same := by
    rw [levels.layout_eq, List.forall₂_map_right_iff]
    exact List.forall₂_same.mpr fun n => levels.moved_laidNode
  inside := by
    intro b laid kind
    rw [levels.layout_eq] at laid
    obtain ⟨n, member, rfl⟩ := List.mem_map.mp laid
    have moved := levels.moved_laidNode member
    have children (c : RFNode) (child : c ∈ layoutNodeGroups nodes) (parent : c.parentId = some n.id) :
        c ∈ (childrenOf nodes n.id).map (laidNode nodes) :=
      levels.children_laid n.id ▸ List.mem_filter.mpr ⟨child, decide_eq_true parent⟩
    rw [moved.id_eq, levels.children_laid]
    rw [moved.type_eq, ← level_eq_zero, ← level_eq_one] at kind
    rcases kind with one | zero
    · obtain ⟨size, style, within, apart⟩ := levels.inside_box member one
      exact ⟨size, style, fun c child parent => within c (children c child parent), apart⟩
    · obtain ⟨size, style, within, apart⟩ := levels.inside_group member zero
      exact ⟨size, style, fun c child parent => within c (children c child parent), apart⟩
  canvas := by
    have items : (freeItems nodes).map (laidNode nodes) = placedFreeItems nodes :=
      levels.map_laidNode (map_along fun _ _ _ => rfl) fun w item => List.mem_append_right _ item
    have boxes : (freeBoxes nodes).map (laidNode nodes) = placedFreeBoxes nodes := by
      refine levels.map_laidNode ids_gridBoxes fun w box => sections_written ?_
      exact List.mem_append_right _ (List.mem_append_left _ (List.mem_append_right _ box))
    have drawn := levels.perm_canvas.map (laidNode nodes)
    rw [List.map_append, List.map_append, levels.laid_groups, boxes, items] at drawn
    rw [levels.filter_laid fun n r moved => by rw [moved.parentId_eq, moved.type_eq]]
    exact (drawn.pairwise_iff fun apart => apart.symm).mpr (pairwise_canvas levels.unsized)

end Nodes

/-! ## The per-node view -/

section View

variable {localeCompare : String → String → Int} {dgNodes : List DGNode} {localNodeId : Option String}

end View

end Dockgraph.Frontend
