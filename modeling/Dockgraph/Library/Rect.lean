import Mathlib.Algebra.Order.Field.Basic
import Mathlib.Algebra.BigOperators.Group.List.Basic
import Mathlib.Tactic.Linarith
import Mathlib.Tactic.Ring

/-!
# Rectangles

Rectangles that do not overlap, and loops that lay things out one after another behind a running cursor.
-/
namespace Dockgraph.Layout

variable {α β γ : Type} {K : Type}

/-! ## Rectangles -/

structure Rect (K : Type) where
  x : K
  y : K
  width : K
  height : K

section Rects

variable [Add K] [LinearOrder K]

/-- One ends where the other starts, or before. -/
def Apart (a b : Rect K) : Prop :=
  a.x + a.width ≤ b.x ∨ b.x + b.width ≤ a.x ∨ a.y + a.height ≤ b.y ∨ b.y + b.height ≤ a.y

def Within (a b : Rect K) : Prop :=
  b.x ≤ a.x ∧ a.x + a.width ≤ b.x + b.width ∧ b.y ≤ a.y ∧ a.y + a.height ≤ b.y + b.height

variable {a b c d : Rect K}

theorem Apart.symm (apart : Apart a b) : Apart b a := by
  unfold Apart at *
  tauto

theorem Within.trans (inner : Within a b) (outer : Within b c) : Within a c := by
  obtain ⟨left, right, top, bottom⟩ := inner
  obtain ⟨left', right', top', bottom'⟩ := outer
  exact ⟨left'.trans left, right.trans right', top'.trans top, bottom.trans bottom'⟩

/-- Parts of what is apart are apart. -/
theorem Apart.within (apart : Apart c d) (first : Within a c) (second : Within b d) : Apart a b := by
  obtain ⟨left, right, top, bottom⟩ := first
  obtain ⟨left', right', top', bottom'⟩ := second
  rcases apart with before | after | above | below
  · exact .inl (right.trans (before.trans left'))
  · exact .inr (.inl (right'.trans (after.trans left)))
  · exact .inr (.inr (.inl (bottom.trans (above.trans top'))))
  · exact .inr (.inr (.inr (bottom'.trans (below.trans top))))

end Rects

/-! ## A running cursor -/

/-- Each element is put at the cursor, which moves on behind it. -/
def along [Add K] (advance : α → K) (f : α → K → β) : K → List α → List β
  | _, [] => []
  | cursor, x :: xs => f x cursor :: along advance f (cursor + advance x) xs

/-- Where the cursor ends. -/
def cursorAfter [Add K] (advance : α → K) (start : K) (xs : List α) : K :=
  xs.foldl (fun cursor x => cursor + advance x) start

section Cursor

variable [Field K] {advance : α → K} {f : α → K → β} {start : K} {xs : List α}

theorem map_along {g : β → γ} {h : α → γ} (same : ∀ x ∈ xs, ∀ y, g (f x y) = h x) :
    (along advance f start xs).map g = xs.map h := by
  induction xs generalizing start with
  | nil => rfl
  | cons x xs ih =>
    rw [along, List.map_cons, List.map_cons, same x List.mem_cons_self, ih fun z later => same z (List.mem_cons_of_mem _ later)]

theorem exists_of_mem_along {b : β} (member : b ∈ along advance f start xs) : ∃ x ∈ xs, ∃ y, b = f x y := by
  induction xs generalizing start with
  | nil => cases member
  | cons x xs ih =>
    rcases List.mem_cons.mp member with rfl | rest
    · exact ⟨x, List.mem_cons_self, start, rfl⟩
    · obtain ⟨z, listed, y, rfl⟩ := ih rest
      exact ⟨z, List.mem_cons_of_mem _ listed, y, rfl⟩

theorem exists_mem_along {x : α} (member : x ∈ xs) : ∃ y, f x y ∈ along advance f start xs := by
  induction xs generalizing start with
  | nil => cases member
  | cons z xs ih =>
    rcases List.mem_cons.mp member with rfl | later
    · exact ⟨start, List.mem_cons_self⟩
    · obtain ⟨y, listed⟩ := @ih (start + advance z) later
      exact ⟨y, List.mem_cons_of_mem _ listed⟩

/-- What is put at each place in two parts is all of the first parts and all of the second. -/
theorem perm_flatten_along {f g : α → K → List β} {h : α → List β} (split : ∀ x y, (f x y).Perm (g x y ++ h x)) :
    (along advance f start xs).flatten.Perm ((along advance g start xs).flatten ++ xs.flatMap h) := by
  induction xs generalizing start with
  | nil => exact .nil
  | cons x xs ih =>
    rw [along, along, List.flatten_cons, List.flatten_cons, List.flatMap_cons]
    refine ((split x start).append ih).trans ?_
    rw [List.append_assoc, List.append_assoc]
    refine List.Perm.append_left _ ?_
    rw [← List.append_assoc, ← List.append_assoc]
    exact List.perm_append_comm.append_right _

theorem cursorAfter_eq_sum : cursorAfter advance start xs = start + (xs.map advance).sum := by
  unfold cursorAfter
  induction xs generalizing start with
  | nil => simp
  | cons x xs ih => rw [List.foldl_cons, ih, List.map_cons, List.sum_cons, add_assoc]

theorem cursorAfter_const {step : K} : cursorAfter (fun _ : α => step) start xs = start + xs.length * step := by
  rw [cursorAfter_eq_sum, List.map_const', List.sum_replicate, nsmul_eq_mul]

/-- Places counted from the start are those of a cursor with even steps. -/
theorem map_zipIdx_eq_along {step : K} :
    (xs.zipIdx.map fun p => f p.1 (start + p.2 * step)) = along (fun _ => step) f start xs := by
  have shifted (k : Nat) : ((xs.zipIdx k).map fun p => f p.1 (start + p.2 * step)) =
      along (fun _ => step) f (start + k * step) xs := by
    induction xs generalizing k with
    | nil => rfl
    | cons x xs ih =>
      have next : start + ((k + 1 : Nat) : K) * step = start + k * step + step := by
        push_cast
        ring
      rw [List.zipIdx_cons, List.map_cons, ih, along, next]
  simpa using shifted 0

section Ordered

variable [LinearOrder K] [IsStrictOrderedRing K]

theorem start_le_cursorAfter (forth : ∀ x ∈ xs, 0 ≤ advance x) : start ≤ cursorAfter advance start xs := by
  unfold cursorAfter
  induction xs generalizing start with
  | nil => exact le_rfl
  | cons x xs ih =>
    have step := forth x List.mem_cons_self
    have rest := @ih (start + advance x) fun y later => forth y (List.mem_cons_of_mem _ later)
    rw [List.foldl_cons]
    linarith

/-- An element is put behind the start, and there is room for it before the end. -/
theorem mem_along (forth : ∀ x ∈ xs, 0 ≤ advance x) {b : β} (member : b ∈ along advance f start xs) :
    ∃ x ∈ xs, ∃ y, start ≤ y ∧ y + advance x ≤ cursorAfter advance start xs ∧ b = f x y := by
  induction xs generalizing start with
  | nil => cases member
  | cons x xs ih =>
    have later : ∀ y ∈ xs, 0 ≤ advance y := fun y listed => forth y (List.mem_cons_of_mem _ listed)
    rcases List.mem_cons.mp member with rfl | rest
    · exact ⟨x, List.mem_cons_self, start, le_rfl, start_le_cursorAfter later, rfl⟩
    · obtain ⟨z, listed, y, behind, room, rfl⟩ := ih later rest
      have step := forth x List.mem_cons_self
      exact ⟨z, List.mem_cons_of_mem _ listed, y, by linarith, room, rfl⟩

theorem pairwise_along {r : β → β → Prop} (forth : ∀ x ∈ xs, 0 ≤ advance x)
    (ahead : ∀ x ∈ xs, ∀ z ∈ xs, ∀ y y', y + advance x ≤ y' → r (f x y) (f z y')) :
    (along advance f start xs).Pairwise r := by
  induction xs generalizing start with
  | nil => exact .nil
  | cons x xs ih =>
    have later : ∀ y ∈ xs, 0 ≤ advance y := fun y listed => forth y (List.mem_cons_of_mem _ listed)
    refine List.Pairwise.cons (fun b member => ?_) (ih later fun y hy z hz => ?_)
    · obtain ⟨z, listed, y, behind, -, rfl⟩ := mem_along later member
      exact ahead x List.mem_cons_self z (List.mem_cons_of_mem _ listed) start y behind
    · exact ahead y (List.mem_cons_of_mem _ hy) z (List.mem_cons_of_mem _ hz)

end Ordered

end Cursor

end Dockgraph.Layout
